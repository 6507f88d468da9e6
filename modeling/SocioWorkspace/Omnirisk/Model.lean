import Mathlib
import SocioWorkspace.Lib.Basic
import SocioWorkspace.Lib.RoseTree

/-!
# The risk allocation walker

Model of `gbrg/governance/omnirisk_allocation.py`: a walker aggregates the leaves of a hierarchy into its root
and appends a violation wherever a law fails, the cuts of a tree are reconciled, and a verdict is projected.

* The arithmetic of the figures is a parameter: the operations of the source on a type `K`, with Python `abs` and
  `sum` and the tolerances in `Figures`. Nothing is assumed of them but that no figure differs from itself.
* `Figures ℚ` is exact arithmetic, without rounding, infinities and NaN.
-/

namespace SocioWorkspace.Omnirisk
open RoseTree

/-- What the walker takes from Python for its figures, beside the operations. -/
class Figures (K : Type) [Sub K] [LT K] where
  /-- Python `abs`. -/
  abs : K → K
  /-- Python `sum`. -/
  sum : List K → K
  /-- Python `TOL`. -/
  TOL : K
  /-- The tolerance of `_check_weighted` and of `reconcile_cuts`. -/
  RECONCILE_TOL : K
  /-- The difference of a figure and itself is zero, or NaN. -/
  not_lt_abs_sub_self : ∀ x : K, ¬RECONCILE_TOL < abs (x - x)

export Figures (TOL RECONCILE_TOL)

instance : Figures ℚ where
  abs q := |q|
  sum := List.sum
  TOL := 1 / 1000000
  RECONCILE_TOL := 1 / 10000
  not_lt_abs_sub_self q := by
    rw [sub_self, abs_zero]
    decide +kernel

@[simp] lemma figures_abs (q : ℚ) : Figures.abs q = |q| := rfl

@[simp] lemma figures_sum (l : List ℚ) : Figures.sum l = l.sum := rfl

structure PyFormat (K : Type) where
  repr : String → String
  float : K → String
  fixed6 : K → String
  /-- Python `str(sorted(figures))`. -/
  floats : Finset K → String

def PyFormat.decimal : PyFormat ℚ :=
  let fixed6 (q : ℚ) : String :=
    let n := (|q| * 1000000).floor.toNat
    let frac := toString (n % 1000000)
    (if q < 0 then "-" else "") ++ toString (n / 1000000) ++ "."
      ++ .ofList (List.replicate (6 - frac.length) '0') ++ frac
  let float (q : ℚ) : String := if q.den = 1 then toString q.num ++ ".0" else fixed6 q
  { repr := fun s => "'" ++ s ++ "'"
    float := float
    fixed6 := fixed6
    floats := fun s => "[" ++ ", ".intercalate ((s.sort (· ≤ ·)).map float) ++ "]" }

section
variable {K : Type} (py : PyFormat K)

def PyFormat.reprOption (s : Option String) : String := (s.map py.repr).getD "None"

def PyFormat.reprList (l : List String) : String := "[" ++ ", ".intercalate (l.map py.repr) ++ "]"

end

/-- Python `COHERENT_MEASURES`. -/
def COHERENT_MEASURES : List String := ["expected_shortfall", "spectral"]

/-- Python `NONCOHERENT_MEASURES`. -/
def NONCOHERENT_MEASURES : List String := ["var", "sharpe", "stddev"]

/-- Python `MIN_SAMPLES`. -/
def MIN_SAMPLES : ℤ := 30

/-- Python `ASSET_CLASSES`, sorted. -/
def ASSET_CLASSES : List String := ["credit", "equity", "market"]

/-- Python `REQUIRED_REGIME_KEYS`. -/
def REQUIRED_REGIME_KEYS : List String := ["memory_regime", "market_regime"]

/-- Python `_TERM_REGIME_INCOMPATIBLE`. -/
def TERM_REGIME_INCOMPATIBLE : List (Finset String) :=
  [{"upward", "inverted"}, {"persistent", "mean_reverting"}]

structure Tranche (K : Type) where
  kind : Option String
  attach : Option K
  detach : Option K

/-- The `label` of a node; of the `regime` only the keys are looked at. -/
structure Label (K : Type) where
  regime : Option (List String)
  assetClass : Option String
  struct : Option (Tranche K)

structure Risk (K : Type) where
  nSamples : Option ℤ
  measure : Option String
  componentContribution : Option K
  economicCapital : Option K
  standaloneCapital : Option K
  riskAdjustedReturn : Option K
  provisional : Option Bool
  alpha : Option K
  horizon : Option K

structure Term (K : Type) where
  duration : Option K
  convexity : Option K
  averageLife : Option K
  value : Option K
  principal : Option K
  termRegime : Option String
  tenorBucket : Option String

structure NodeData (K : Type) where
  nodeRef : Option String
  label : Label K
  risk : Risk K
  term : Term K

/-- A hierarchy; a node without children is a leaf. -/
abbrev Node (K : Type) := RoseTree (NodeData K)

/-- Python `OmniriskContractError`. -/
inductive OmniriskContractError where
  | nodeRef
  | cuts
deriving DecidableEq

def OmniriskContractError.text : OmniriskContractError → String
  | nodeRef => "every node requires a node_ref"
  | cuts => "tree requires a non-empty 'cuts' map"

/-- Python `NodeAgg`. -/
structure NodeAgg (K : Type) where
  nodeRef : String
  ec : K
  standalone : K
  value : K
  principal : K
  duration : K
  convexity : K
  averageLife : K
  rar : K
  provisional : Bool
  measures : Finset String
  alphas : Finset K
  horizons : Finset K
  termRegimes : Finset String
  tenors : Finset String
  leafDurations : List K

inductive Violation (K : Type) where
  | missingRegime (ref : String)
  | regimeKeys (ref : String) (missing : List String)
  | trancheMissing (ref : String)
  | trancheIncoherent (ref : String) (attach detach : K)
  | assetClass (ref : String) (ac : Option String)
  | leafSuperAdditive (ref : String) (ec standalone : K)
  | confidence (ref : String) (alphas horizons : Finset K)
  | termRegimes (ref : String) (incompatible : Finset String)
  | tenors (ref : String) (mixed : Finset String)
  | nonCoherent (ref : String) (measure : String)
  | superAdditive (ref : String) (ec standalone : K)
  | conservation (ref : String) (declared computed : K)
  | bounds (ref name : String) (declared lo hi : K)
  | weighted (ref name : String) (declared computed : K)
  | provisional (ref : String)
  | cuts (base other attr : String) (a b : K)

variable {K : Type}

def Violation.text [Zero K] [DecidableEq K] (py : PyFormat K) : Violation K → String
  | missingRegime ref => "REJECTED: node " ++ py.repr ref ++ " is missing its regime label"
  | regimeKeys ref missing =>
    "REJECTED: node " ++ py.repr ref ++ " regime label missing keys " ++ py.reprList missing
  | trancheMissing ref => "REJECTED: tranche node " ++ py.repr ref ++ " missing attach/detach"
  | trancheIncoherent ref attach detach =>
    "REJECTED: tranche node " ++ py.repr ref ++ " incoherent structure attach=" ++ py.float attach
      ++ " detach=" ++ py.float detach ++ " (require 0<=attach<detach<=1)"
  | assetClass ref ac =>
    "REJECTED: node " ++ py.repr ref ++ " asset_class " ++ py.reprOption ac ++ " not in "
      ++ py.reprList ASSET_CLASSES
  | leafSuperAdditive ref ec standalone =>
    "REJECTED: leaf " ++ py.repr ref ++ " component contribution " ++ py.float ec
      ++ " exceeds its own standalone capital " ++ py.float standalone
      ++ " — super-additive; a coherent measure's marginal contribution can never exceed standalone"
      ++ " (bad diversification model)"
  | confidence ref alphas horizons =>
    "REJECTED: node " ++ py.repr ref ++ " aggregates incompatible confidence/horizon (alphas="
      ++ py.floats (alphas.filter (· ≠ 0)) ++ ", horizons=" ++ py.floats horizons
      ++ ") without an explicit rescale"
  | termRegimes ref incompatible =>
    "REJECTED: node " ++ py.repr ref ++ " aggregates incompatible term regimes "
      ++ py.reprList (incompatible.sort (· ≤ ·)) ++ " without an explicit rescale"
  | tenors ref mixed =>
    "REJECTED: node " ++ py.repr ref ++ " aggregates mixed tenors "
      ++ py.reprList (mixed.sort (· ≤ ·)) ++ " without an explicit rescale"
  | nonCoherent ref measure =>
    "REJECTED: node " ++ py.repr ref ++ " allocates over non-coherent measure " ++ py.repr measure
      ++ " without incoherence_override"
  | superAdditive ref ec standalone =>
    "REJECTED: node " ++ py.repr ref ++ " aggregate EC " ++ py.fixed6 ec
      ++ " EXCEEDS the sum of standalone risks " ++ py.fixed6 standalone
      ++ " — super-additive; a coherent measure cannot do this (bad diversification model)"
  | conservation ref declared computed =>
    "REJECTED: node " ++ py.repr ref ++ " declared EC " ++ py.float declared
      ++ " != sum of child contributions " ++ py.fixed6 computed ++ " (conservation violation)"
  | bounds ref name declared lo hi =>
    "REJECTED: node " ++ py.repr ref ++ " " ++ name ++ " " ++ py.float declared
      ++ " is outside its children's [" ++ py.float lo ++ ", " ++ py.float hi
      ++ "] (a weighted average is bounded by its inputs)"
  | weighted ref name declared computed =>
    "REJECTED: node " ++ py.repr ref ++ " declared " ++ name ++ " " ++ py.float declared
      ++ " != value-weighted aggregate " ++ py.fixed6 computed
  | provisional ref =>
    "REJECTED: node " ++ py.repr ref ++ " silently rolls a provisional (n<30) child into a "
      ++ "non-provisional total (mark it provisional or set allow_provisional)"
  | cuts base other attr a b =>
    "REJECTED: cut '" ++ base ++ "' and cut '" ++ other ++ "' disagree on bank total " ++ attr
      ++ " (" ++ py.fixed6 a ++ " != " ++ py.fixed6 b ++ ") — allocation is not cut-invariant"

section
variable (ref : String) (data : NodeData K)

/-- Python `validate_regime`. -/
def validateRegime : List (Violation K) :=
  match data.label.regime with
  | none => [.missingRegime ref]
  | some [] => [.missingRegime ref]
  | some regime =>
    let missing := REQUIRED_REGIME_KEYS.filter (· ∉ regime)
    if missing = [] then [] else [.regimeKeys ref missing]

/-- Python `validate_structure`. -/
def validateStructure [Zero K] [One K] [LE K] [LT K] [DecidableLE K] [DecidableLT K] : List (Violation K) :=
  match data.label.struct with
  | none => []
  | some s =>
    if s.kind = some "tranche" then
      match s.attach, s.detach with
      | some attach, some detach =>
        if 0 ≤ attach ∧ attach < detach ∧ detach ≤ 1 then []
        else [.trancheIncoherent ref attach detach]
      | _, _ => [.trancheMissing ref]
    else []

/-- Python `_asset_class_ok`. -/
def assetClassOk : List (Violation K) :=
  match data.label.assetClass with
  | some ac => if ac ∈ ASSET_CLASSES then [] else [.assetClass ref (some ac)]
  | none => [.assetClass ref none]

end

namespace NodeData
variable (data : NodeData K)

def ref : String := data.nodeRef.getD ""

variable [Zero K]

def contribution : K := data.risk.componentContribution.getD (data.risk.economicCapital.getD 0)

def standalone : K := data.risk.standaloneCapital.getD data.contribution

def nSamples : ℤ := data.risk.nSamples.getD 0

def measure : String := data.risk.measure.getD "expected_shortfall"

/-- Whether a leaf is provisional: its own flag, or too few samples where it has none. -/
def provisional : Bool := data.risk.provisional.getD (data.nSamples < MIN_SAMPLES)

def declaredProvisional : Bool := data.risk.provisional.getD false

def value : K := data.term.value.getD 0

def principal : K := data.term.principal.getD 0

def duration : K := data.term.duration.getD 0

def convexity : K := data.term.convexity.getD 0

def averageLife : K := data.term.averageLife.getD 0

def rar : K := data.risk.riskAdjustedReturn.getD 0

def alpha : K := data.risk.alpha.getD 0

def horizon [One K] : K := data.risk.horizon.getD 1

def termRegime : Option String := data.term.termRegime.filter (· ≠ "")

def tenor : Option String := data.term.tenorBucket.filter (· ≠ "")

end NodeData

def nodeRef (data : NodeData K) : Except OmniriskContractError String :=
  match data.nodeRef with
  | some ref => if ref = "" then .error .nodeRef else .ok ref
  | none => .error .nodeRef

lemma nodeRef_eq_ok {data : NodeData K} {ref} : nodeRef data = .ok ref ↔ data.ref ≠ "" ∧ ref = data.ref := by
  unfold nodeRef NodeData.ref
  cases data.nodeRef with
  | none => simp
  | some r =>
    by_cases hr : r = ""
    · simp [hr]
    · simp [hr, eq_comm]

set_option linter.unusedSectionVars false

variable [Zero K] [One K] [Add K] [Sub K] [Mul K] [Div K] [LE K] [LT K] [Min K] [Max K]
  [DecidableEq K] [DecidableLE K] [DecidableLT K] [Figures K]

/-- Python `_leaf_agg`. -/
def leafAgg (ref : String) (data : NodeData K) : NodeAgg K × List (Violation K) :=
  let ec := data.contribution
  let standalone := data.standalone
  ({ nodeRef := ref
     ec := ec
     standalone := standalone
     value := data.value
     principal := data.principal
     duration := data.duration
     convexity := data.convexity
     averageLife := data.averageLife
     rar := data.rar
     provisional := data.provisional
     measures := {data.measure}
     alphas := {data.alpha}
     horizons := {data.horizon}
     termRegimes := data.termRegime.toFinset
     tenors := data.tenor.toFinset
     leafDurations := [data.duration] },
   if standalone + TOL < ec then [.leafSuperAdditive ref ec standalone] else [])

def unions {α} [DecidableEq α] (l : List (Finset α)) : Finset α := l.foldr (· ∪ ·) ∅

/-- Python `_check_homogeneity`. -/
def checkHomogeneity (ref : String) (children : List (NodeAgg K)) (rescale : Bool) : List (Violation K) :=
  if rescale then []
  else
    let alphas := unions (children.map (·.alphas))
    let horizons := unions (children.map (·.horizons))
    let termRegimes := unions (children.map (·.termRegimes))
    let tenors := unions (children.map (·.tenors))
    (if 1 < (alphas.filter (· ≠ 0)).card ∨ 1 < horizons.card then
      [.confidence ref alphas horizons] else [])
    ++ (TERM_REGIME_INCOMPATIBLE.filter (· ⊆ termRegimes)).map (.termRegimes ref)
    ++ if 1 < tenors.card then [.tenors ref tenors] else []

/-- Python `_check_weighted`. -/
def checkWeighted (ref name : String) (declared computed : K) (boundInputs : List K) :
    List (Violation K) :=
  let close := if RECONCILE_TOL < Figures.abs (declared - computed) then
    [.weighted ref name declared computed] else []
  match boundInputs.min?, boundInputs.max? with
  | some lo, some hi =>
    if declared < lo - TOL ∨ hi + TOL < declared then [.bounds ref name declared lo hi] else close
  | _, _ => close

structure Flags where
  incoherenceOverride : Bool
  allowProvisional : Bool
  rescale : Bool
deriving DecidableEq

/-- An average of a figure of the children weighted by another, 0 unless the weight is positive. -/
def weightedAverage (weight figure : NodeAgg K → K) (aggs : List (NodeAgg K)) : K :=
  if 0 < Figures.sum (aggs.map weight) then
    Figures.sum (aggs.map fun c => weight c * figure c) / Figures.sum (aggs.map weight)
  else 0

def rollUp (ref : String) (data : NodeData K) (aggs : List (NodeAgg K)) : NodeAgg K where
  nodeRef := ref
  ec := Figures.sum (aggs.map (·.ec))
  standalone := Figures.sum (aggs.map (·.standalone))
  value := Figures.sum (aggs.map (·.value))
  principal := Figures.sum (aggs.map (·.principal))
  duration := weightedAverage (·.value) (·.duration) aggs
  convexity := weightedAverage (·.value) (·.convexity) aggs
  averageLife := weightedAverage (·.principal) (·.averageLife) aggs
  rar := Figures.sum (aggs.map (·.rar))
  provisional := aggs.any (·.provisional) || data.declaredProvisional
  measures := unions (aggs.map (·.measures))
  alphas := unions (aggs.map (·.alphas))
  horizons := unions (aggs.map (·.horizons))
  termRegimes := unions (aggs.map (·.termRegimes))
  tenors := unions (aggs.map (·.tenors))
  leafDurations := aggs.flatMap (·.leafDurations)

def coherenceGate (flags : Flags) (ref : String) (children : List (Node K)) : List (Violation K) :=
  children.filterMap fun child =>
    match child.label.risk.measure with
    | some m =>
      if m ∈ NONCOHERENT_MEASURES ∧ ¬flags.incoherenceOverride then some (.nonCoherent ref m)
      else none
    | none => none

/-- The checks of an inner node once its children are aggregated. -/
def checkRollUp (flags : Flags) (ref : String) (data : NodeData K) (aggs : List (NodeAgg K)) :
    List (Violation K) :=
  let agg := rollUp ref data aggs
  checkHomogeneity ref aggs flags.rescale
  ++ (if agg.standalone + TOL < agg.ec then [.superAdditive ref agg.ec agg.standalone] else [])
  ++ (match data.risk.economicCapital with
      | some ec => if TOL < Figures.abs (ec - agg.ec) then [.conservation ref ec agg.ec] else []
      | none => [])
  ++ (match data.term.duration with
      | some d => checkWeighted ref "duration" d agg.duration agg.leafDurations
      | none => [])
  ++ (match data.term.convexity with
      | some c => checkWeighted ref "convexity" c agg.convexity []
      | none => [])
  ++ (match data.term.averageLife with
      | some l => checkWeighted ref "average_life" l agg.averageLife []
      | none => [])
  ++ if aggs.any (·.provisional) ∧ ¬data.declaredProvisional ∧ ¬flags.allowProvisional then
      [.provisional ref] else []

mutual
/-- Python `walk`. -/
def walk (flags : Flags) : Node K → Except OmniriskContractError (NodeAgg K × List (Violation K))
  | .node data children => do
    let ref ← nodeRef data
    let own := validateRegime ref data ++ assetClassOk ref data ++ validateStructure ref data
    if children.isEmpty then
      let leaf := leafAgg ref data
      return (leaf.1, own ++ leaf.2)
    else
      let gate := coherenceGate flags ref children
      let (aggs, below) ← walkAll flags children
      return (rollUp ref data aggs, own ++ gate ++ below ++ checkRollUp flags ref data aggs)

def walkAll (flags : Flags) :
    List (Node K) → Except OmniriskContractError (List (NodeAgg K) × List (Violation K))
  | [] => .ok ([], [])
  | c :: cs => do
    let (agg, violations) ← walk flags c
    let (aggs, rest) ← walkAll flags cs
    return (agg :: aggs, violations ++ rest)
end

/-- The bank totals that `reconcile_cuts` compares. -/
def RECONCILED : List (String × (NodeAgg K → K)) :=
  [("ec", (·.ec)), ("value", (·.value)), ("principal", (·.principal)), ("duration", (·.duration)),
    ("convexity", (·.convexity)), ("average_life", (·.averageLife))]

/-- Python `reconcile_cuts`. -/
def reconcileCuts : List (String × NodeAgg K) → List (Violation K)
  | [] => []
  | (baseName, base) :: others =>
    others.flatMap fun (otherName, other) =>
      RECONCILED.filterMap fun (attr, get) =>
        if RECONCILE_TOL < Figures.abs (get base - get other) then
          some (.cuts baseName otherName attr (get base) (get other))
        else none

/-- Python `economic_profit`. -/
def economicProfit (rar hurdle ec : K) : K := rar - hurdle * ec

/-- Python `raroc`, with infinity on top. -/
def raroc (rar ec : K) : WithTop K := if ec = 0 then ⊤ else ↑(rar / ec)

/-- A verdict (Python `VERIFIES`, `FLAGGED`, `REJECTED`). -/
inductive Verdict where
  | verifies
  | flagged
  | rejected
deriving DecidableEq

/-- Python `AllocationVerdict`, before it is sealed. -/
structure AllocationVerdict (K : Type) where
  treeId : String
  verdict : Verdict
  status : String
  epistemicLevel : String
  reason : String
  bankTotalEc : Option K
  bankRaroc : Option (WithTop K)
  bankEconomicProfit : Option K
  cutInvariant : Bool
  violations : List String

/-- A tree to evaluate; the names of its cuts are the keys of a dictionary. -/
structure Spec (K : Type) where
  treeId : Option String
  cuts : List (String × Node K)
  hurdleRate : Option K
  incoherenceOverride : Option Bool
  allowProvisional : Option Bool
  rescale : Option Bool
  nodup : (cuts.map Prod.fst).Nodup

def Spec.flags (spec : Spec K) : Flags where
  incoherenceOverride := spec.incoherenceOverride.getD false
  allowProvisional := spec.allowProvisional.getD false
  rescale := spec.rescale.getD false

def Spec.hurdle (spec : Spec K) : K := spec.hurdleRate.getD 0

section
variable (py : PyFormat K)

/-- How a finite RAROC is shown in a reason; it is infinite only where it is not shown. -/
def showRaroc : WithTop K → String
  | some r => py.fixed6 r
  | none => "inf"

/-- Python `_project_verdict`. -/
def projectVerdict (violations : List String) (bankRaroc : Option (WithTop K)) (hurdle : K) :
    Verdict × String × String × String :=
  if violations = [] then
    match bankRaroc with
    | some r =>
      if r < hurdle then
        (.flagged, "BLOCKED", "speculative", "FLAGGED value-destroying: bank RAROC "
          ++ showRaroc py r ++ " < hurdle " ++ py.fixed6 hurdle)
      else (.verifies, "PROVED", "empirical",
        "VERIFIES: conservation + coherence + cut-invariance hold; RAROC >= hurdle")
    | none => (.verifies, "PROVED", "empirical",
        "VERIFIES: conservation + coherence + cut-invariance hold; RAROC >= hurdle")
  else (.rejected, "FAILED", "rejected", "REJECTED: " ++ "; ".intercalate violations)

def walkCuts (flags : Flags) (cuts : List (String × Node K)) :
    Except OmniriskContractError (List (String × NodeAgg K) × List (Violation K)) := do
  let (aggs, violations) ← walkAll flags (cuts.map (·.2))
  return ((cuts.map (·.1)).zip aggs, violations)

def bankRaroc (bank : NodeAgg K) : Option (WithTop K) :=
  if bank.ec = 0 then none else some (raroc bank.rar bank.ec)

/-- The result of an evaluation, from the aggregates of the cuts and the violations of the walks. -/
def allocationVerdict (spec : Spec K) (cutAggs : List (String × NodeAgg K)) (walked : List (Violation K)) :
    AllocationVerdict K :=
  let violations := (walked ++ reconcileCuts cutAggs).map (·.text py)
  let bank := cutAggs.head?.map (·.2)
  let (verdict, status, level, reason) := projectVerdict py violations (bank.bind bankRaroc) spec.hurdle
  { treeId := spec.treeId.getD "<unnamed>"
    verdict := verdict
    status := status
    epistemicLevel := level
    reason := reason
    bankTotalEc := bank.map (·.ec)
    bankRaroc := bank.bind bankRaroc
    bankEconomicProfit := bank.map fun b => economicProfit b.rar spec.hurdle b.ec
    cutInvariant := !violations.any fun v => decide ("not cut-invariant".toList <:+: v.toList)
    violations := violations }

/-- Python `evaluate_tree`, up to the sealing of its result. -/
def evaluateTree (spec : Spec K) : Except OmniriskContractError (AllocationVerdict K) :=
  if spec.cuts.isEmpty then .error .cuts
  else do
    let (cutAggs, walked) ← walkCuts spec.flags spec.cuts
    return allocationVerdict py spec cutAggs walked

end

def agg (t : Node K) : NodeAgg K :=
  t.fold (fun data => (leafAgg data.ref data).1) fun data aggs => rollUp data.ref data aggs

lemma agg_leaf (data : NodeData K) : agg (.node data []) = (leafAgg data.ref data).1 := fold_leaf data

lemma agg_node (data : NodeData K) {cs} (h : cs ≠ []) :
    agg (.node data cs) = rollUp data.ref data (cs.map agg) := fold_node data h

def ownChecks (data : NodeData K) : List (Violation K) :=
  validateRegime data.ref data ++ assetClassOk data.ref data ++ validateStructure data.ref data

/-- A node passes the checks that the walker makes at it. -/
structure Passes (flags : Flags) (t : Node K) : Prop where
  own : ownChecks t.label = []
  leaf : t.children = [] → (leafAgg t.label.ref t.label).2 = []
  gate : coherenceGate flags t.label.ref t.children = []
  rollUp : t.children ≠ [] → checkRollUp flags t.label.ref t.label (t.children.map agg) = []

section
variable {flags : Flags} {data : NodeData K} {a : NodeAgg K} {vs : List (Violation K)} {cs : List (Node K)}

lemma walk_leaf : walk flags (.node data []) = .ok (a, vs) ↔
    data.ref ≠ "" ∧ a = agg (.node data []) ∧ vs = ownChecks data ++ (leafAgg data.ref data).2 := by
  rw [walk, bind_eq_ok, agg_leaf]
  refine ⟨?_, ?_⟩
  · intro ⟨ref, hr, h⟩
    obtain ⟨hn, rfl⟩ := nodeRef_eq_ok.1 hr
    cases h
    exact ⟨hn, rfl, rfl⟩
  · intro ⟨hn, ha, hv⟩
    subst ha hv
    exact ⟨_, nodeRef_eq_ok.2 ⟨hn, rfl⟩, rfl⟩

lemma walk_inner (h : cs ≠ []) : walk flags (.node data cs) = .ok (a, vs) ↔
    data.ref ≠ "" ∧ ∃ aggs below, walkAll flags cs = .ok (aggs, below) ∧
      a = rollUp data.ref data aggs ∧
      vs = ownChecks data ++ coherenceGate flags data.ref cs ++ below
        ++ checkRollUp flags data.ref data aggs := by
  rw [walk, bind_eq_ok]
  have he : ¬cs.isEmpty = true := by simpa using h
  simp only [if_neg he, bind_eq_ok]
  refine ⟨?_, ?_⟩
  · intro ⟨ref, hr, ⟨aggs, below⟩, hw, e⟩
    obtain ⟨hn, rfl⟩ := nodeRef_eq_ok.1 hr
    cases e
    exact ⟨hn, aggs, below, hw, rfl, rfl⟩
  · intro ⟨hn, aggs, below, hw, ha, hv⟩
    subst ha hv
    exact ⟨_, nodeRef_eq_ok.2 ⟨hn, rfl⟩, _, hw, rfl⟩

lemma walkAll_cons {c aggs} : walkAll flags (c :: cs) = .ok (aggs, vs) ↔
    ∃ a va as vas, walk flags c = .ok (a, va) ∧ walkAll flags cs = .ok (as, vas) ∧
      aggs = a :: as ∧ vs = va ++ vas := by
  rw [walkAll, bind_eq_ok]
  refine ⟨?_, ?_⟩
  · intro ⟨⟨a, va⟩, ha, h⟩
    obtain ⟨⟨as, vas⟩, has, e⟩ := bind_eq_ok.1 h
    cases e
    exact ⟨a, va, as, vas, ha, has, rfl, rfl⟩
  · intro ⟨a, va, as, vas, ha, has, hagg, hv⟩
    subst hagg hv
    exact ⟨(a, va), ha, bind_eq_ok.2 ⟨(as, vas), has, rfl⟩⟩

end

section
variable {flags : Flags}

/-- The violations that the walker appends at a node itself. -/
def nodeChecks (flags : Flags) (t : Node K) : List (Violation K) :=
  ownChecks t.label ++
    if t.children.isEmpty then (leafAgg t.label.ref t.label).2
    else coherenceGate flags t.label.ref t.children
      ++ checkRollUp flags t.label.ref t.label (t.children.map agg)

lemma nodeChecks_leaf (data : NodeData K) :
    nodeChecks flags (.node data []) = ownChecks data ++ (leafAgg data.ref data).2 := rfl

lemma nodeChecks_inner (data : NodeData K) {cs} (h : cs ≠ []) : nodeChecks flags (.node data cs) =
    ownChecks data ++ (coherenceGate flags data.ref cs
      ++ checkRollUp flags data.ref data (cs.map agg)) := by
  have he : ¬cs.isEmpty = true := by simpa using h
  exact congrArg (ownChecks data ++ ·) (if_neg he)

lemma nodeChecks_eq_nil {t : Node K} : nodeChecks flags t = [] ↔ Passes flags t := by
  cases t with
  | node data cs =>
    by_cases hcs : cs = []
    · subst hcs
      rw [nodeChecks_leaf, List.append_eq_nil_iff]
      exact ⟨fun h => ⟨h.1, fun _ => h.2, rfl, fun hc => (hc rfl).elim⟩, fun h => ⟨h.own, h.leaf rfl⟩⟩
    · rw [nodeChecks_inner data hcs, List.append_eq_nil_iff, List.append_eq_nil_iff]
      exact ⟨fun ⟨ho, hg, hr⟩ => ⟨ho, fun hc => (hcs hc).elim, hg, fun _ => hr⟩,
        fun h => ⟨h.own, h.gate, h.rollUp hcs⟩⟩

/-- A walk returns the roll-up and logs what the checks at the nodes append. -/
def Logged (flags : Flags) (t : Node K) : Prop :=
  ∀ a vs, walk flags t = .ok (a, vs) → a = agg t ∧ ∀ v, v ∈ vs ↔ ∃ s ∈ t.subtrees, v ∈ nodeChecks flags s

variable {cs : List (Node K)}

lemma walkAll_logged (ih : ∀ c ∈ cs, Logged flags c) {aggs vs} (h : walkAll flags cs = .ok (aggs, vs)) :
    aggs = cs.map agg ∧ ∀ v, v ∈ vs ↔ ∃ c ∈ cs, ∃ s ∈ c.subtrees, v ∈ nodeChecks flags s := by
  induction cs generalizing aggs vs with
  | nil =>
    cases h
    exact ⟨rfl, by simp⟩
  | cons c cs ihcs =>
    obtain ⟨a, va, as, vas, ha, has, rfl, rfl⟩ := walkAll_cons.1 h
    obtain ⟨hac, hvac⟩ := ih c List.mem_cons_self a va ha
    obtain ⟨hacs, hvcs⟩ := ihcs (fun c' hc' => ih c' (List.mem_cons_of_mem c hc')) has
    refine ⟨by rw [hac, hacs, List.map_cons], ?_⟩
    intro v
    rw [List.mem_append, hvac, hvcs, List.exists_mem_cons_iff]

theorem walk_logged (t : Node K) : Logged flags t := by
  induction t using induct with
  | h data cs ih =>
    intro a vs hw
    simp only [mem_subtrees_node, or_and_right, exists_or, exists_eq_left]
    by_cases hcs : cs = []
    · subst hcs
      obtain ⟨-, ha, rfl⟩ := walk_leaf.1 hw
      exact ⟨ha, by simp [nodeChecks_leaf]⟩
    · obtain ⟨-, aggs, below, hall, rfl, rfl⟩ := (walk_inner hcs).1 hw
      obtain ⟨rfl, hbelow⟩ := walkAll_logged ih hall
      refine ⟨(agg_node data hcs).symm, ?_⟩
      intro v
      -- the log has the violations from below between the checks before and after the children
      have hb : (∃ s, (∃ c ∈ cs, s ∈ c.subtrees) ∧ v ∈ nodeChecks flags s) ↔ v ∈ below := by
        rw [hbelow]
        exact ⟨fun ⟨s, ⟨c, hc, hs⟩, hv⟩ => ⟨c, hc, s, hs, hv⟩, fun ⟨c, hc, s, hs, hv⟩ => ⟨s, ⟨c, hc, hs⟩, hv⟩⟩
      rw [hb, nodeChecks_inner data hcs]
      simp only [List.mem_append]
      tauto

/-- What a walk returns: the roll-up, and no violation exactly if every node passes. -/
def Walked (flags : Flags) (t : Node K) : Prop :=
  ∀ a vs, walk flags t = .ok (a, vs) → a = agg t ∧ (vs = [] ↔ ∀ s ∈ t.subtrees, Passes flags s)

theorem walk_spec (t : Node K) : Walked flags t := by
  intro a vs hw
  obtain ⟨ha, hv⟩ := walk_logged t a vs hw
  refine ⟨ha, ?_⟩
  simp only [List.eq_nil_iff_forall_not_mem, hv, ← nodeChecks_eq_nil]
  refine ⟨?_, ?_⟩
  · intro hn s hs v hv
    exact hn v ⟨s, hs, hv⟩
  · intro hn v ⟨s, hs, hv⟩
    exact hn s hs v hv

lemma walkAll_returns : (∃ r, walkAll flags cs = .ok r) ↔ ∀ c ∈ cs, ∃ r, walk flags c = .ok r := by
  induction cs with
  | nil => simp [walkAll]
  | cons c cs ih =>
    rw [List.forall_mem_cons, ← ih]
    refine ⟨?_, ?_⟩
    · intro ⟨(aggs, vs), h⟩
      obtain ⟨a, va, as, vas, ha, has, -, -⟩ := walkAll_cons.1 h
      exact ⟨⟨_, ha⟩, _, has⟩
    · intro ⟨⟨(a, va), ha⟩, (as, vas), has⟩
      exact ⟨_, walkAll_cons.2 ⟨a, va, as, vas, ha, has, rfl, rfl⟩⟩

lemma walk_returns (t : Node K) : (∃ r, walk flags t = .ok r) ↔ ∀ s ∈ t.subtrees, s.label.ref ≠ "" := by
  induction t using induct with
  | h data cs ih =>
    simp only [mem_subtrees_node, forall_eq_or_imp, label_node]
    by_cases hcs : cs = []
    · subst hcs
      simp [walk_leaf]
    · have hall : (∃ r, walkAll flags cs = .ok r) ↔
          ∀ s, (∃ c ∈ cs, s ∈ c.subtrees) → s.label.ref ≠ "" := by
        rw [walkAll_returns]
        refine ⟨fun h s ⟨c, hc, hs⟩ => (ih c hc).1 (h c hc) s hs,
          fun h c hc => (ih c hc).2 fun s hs => h s ⟨c, hc, hs⟩⟩
      rw [← hall]
      simp [walk_inner hcs]

variable {cuts : List (String × Node K)}

lemma walkCuts_eq_ok {aggs vs} : walkCuts flags cuts = .ok (aggs, vs) ↔
    ∃ as, walkAll flags (cuts.map (·.2)) = .ok (as, vs) ∧ aggs = (cuts.map (·.1)).zip as := by
  rw [walkCuts, bind_eq_ok]
  refine ⟨?_, ?_⟩
  · intro ⟨⟨as, vs'⟩, h, e⟩
    cases e
    exact ⟨as, h, rfl⟩
  · intro ⟨as, h, hagg⟩
    subst hagg
    exact ⟨(as, vs), h, rfl⟩

lemma walkCuts_spec {aggs vs} (h : walkCuts flags cuts = .ok (aggs, vs)) :
    aggs = cuts.map (fun c => (c.1, agg c.2)) ∧
      (vs = [] ↔ ∀ c ∈ cuts, ∀ s ∈ c.2.subtrees, Passes flags s) := by
  obtain ⟨as, hw, rfl⟩ := walkCuts_eq_ok.1 h
  obtain ⟨rfl, hv⟩ := walkAll_logged (fun c _ => walk_logged c) hw
  refine ⟨by rw [List.map_map, List.zip_map']; rfl, ?_⟩
  simp only [List.eq_nil_iff_forall_not_mem, hv, ← nodeChecks_eq_nil, List.mem_map]
  refine ⟨?_, ?_⟩
  · intro hn c hc s hs v hv
    exact hn v ⟨c.2, ⟨c, hc, rfl⟩, s, hs, hv⟩
  · rintro hn v ⟨_, ⟨c, hc, rfl⟩, s, hs, hv⟩
    exact hn c hc s hs v hv

lemma walkCuts_returns : (∃ r, walkCuts flags cuts = .ok r) ↔ ∀ c ∈ cuts, ∃ r, walk flags c.2 = .ok r := by
  rw [← List.forall_mem_map (P := fun t => ∃ r, walk flags t = .ok r), ← walkAll_returns]
  refine ⟨fun ⟨(aggs, vs), h⟩ => ?_, fun ⟨(as, vs), h⟩ => ⟨_, walkCuts_eq_ok.2 ⟨as, h, rfl⟩⟩⟩
  obtain ⟨as, hw, -⟩ := walkCuts_eq_ok.1 h
  exact ⟨_, hw⟩

def Spec.aggs (spec : Spec K) : List (String × NodeAgg K) := spec.cuts.map fun c => (c.1, agg c.2)

/-- Every node of every cut passes, and the cuts reconcile with the first one. -/
structure Spec.Accepts (spec : Spec K) : Prop where
  passes : ∀ c ∈ spec.cuts, ∀ s ∈ c.2.subtrees, Passes spec.flags s
  reconciled : reconcileCuts spec.aggs = []

def ValueDestroying (hurdle : K) (bank : NodeAgg K) : Prop := ∃ r, bankRaroc bank = some r ∧ r < hurdle

variable {py : PyFormat K}

lemma projectVerdict_rejected {violations r hurdle} :
    (projectVerdict py violations r hurdle).1 = .rejected ↔ violations ≠ [] := by
  unfold projectVerdict
  by_cases hv : violations = []
  · rw [if_pos hv]
    cases r with
    | none => simp [hv]
    | some r => by_cases hr : r < hurdle <;> simp [hv, hr]
  · simp [hv]

lemma projectVerdict_flagged {violations r hurdle} :
    (projectVerdict py violations r hurdle).1 = .flagged ↔
      violations = [] ∧ ∃ x, r = some x ∧ x < hurdle := by
  unfold projectVerdict
  by_cases hv : violations = []
  · rw [if_pos hv]
    cases r with
    | none => simp
    | some r => by_cases hr : r < hurdle <;> simp [hv, hr]
  · simp [hv]

variable {spec : Spec K}

lemma evaluateTree_eq_ok {v} : evaluateTree py spec = .ok v ↔
    spec.cuts ≠ [] ∧ ∃ walked, walkCuts spec.flags spec.cuts = .ok (spec.aggs, walked) ∧
      v = allocationVerdict py spec spec.aggs walked := by
  unfold evaluateTree
  by_cases hc : spec.cuts = []
  · simp [hc]
  · have he : ¬spec.cuts.isEmpty = true := by simpa using hc
    rw [if_neg he, bind_eq_ok]
    refine ⟨?_, ?_⟩
    · intro ⟨⟨aggs, walked⟩, hw, e⟩
      cases e
      have ha : aggs = spec.aggs := (walkCuts_spec hw).1
      subst ha
      exact ⟨hc, walked, hw, rfl⟩
    · intro ⟨_, walked, hw, hv⟩
      exact ⟨_, hw, by rw [hv]; rfl⟩

lemma evaluateTree_returns : (∃ v, evaluateTree py spec = .ok v) ↔
    spec.cuts ≠ [] ∧ ∀ c ∈ spec.cuts, ∃ r, walk spec.flags c.2 = .ok r := by
  simp only [evaluateTree_eq_ok, ← walkCuts_returns]
  refine ⟨fun ⟨_, hc, _, hw, _⟩ => ⟨hc, _, hw⟩, ?_⟩
  intro ⟨hc, (aggs, walked), hw⟩
  rw [(walkCuts_spec hw).1] at hw
  exact ⟨_, hc, walked, hw, rfl⟩

/-- What an evaluation returns, in terms of the roll-ups of the cuts. -/
theorem evaluateTree_spec {v} (h : evaluateTree py spec = .ok v) :
    (v.verdict = .rejected ↔ ¬spec.Accepts) ∧
    ∃ bank, spec.aggs.head?.map (·.2) = some bank ∧
      (v.verdict = .flagged ↔ spec.Accepts ∧ ValueDestroying spec.hurdle bank) ∧
      v.bankTotalEc = some bank.ec ∧ v.bankRaroc = bankRaroc bank ∧
      v.bankEconomicProfit = some (economicProfit bank.rar spec.hurdle bank.ec) := by
  obtain ⟨hc, walked, hw, rfl⟩ := evaluateTree_eq_ok.1 h
  have hacc : (walked ++ reconcileCuts spec.aggs).map (·.text py) = [] ↔ spec.Accepts := by
    rw [List.map_eq_nil_iff, List.append_eq_nil_iff, (walkCuts_spec hw).2]
    exact ⟨fun h => ⟨h.1, h.2⟩, fun h => ⟨h.passes, h.reconciled⟩⟩
  obtain ⟨cut, cuts, hcuts⟩ := List.exists_cons_of_ne_nil hc
  have hbank : spec.aggs.head?.map (·.2) = some (agg cut.2) := by
    rw [Spec.aggs, hcuts]
    rfl
  refine ⟨?_, agg cut.2, hbank, ?_, ?_, ?_, ?_⟩
  · rw [← hacc]
    exact projectVerdict_rejected
  · refine projectVerdict_flagged.trans ?_
    rw [hacc, hbank]
    rfl
  · show (spec.aggs.head?.map (·.2)).map (·.ec) = _
    rw [hbank]
    rfl
  · show (spec.aggs.head?.map (·.2)).bind bankRaroc = _
    rw [hbank]
    rfl
  · show (spec.aggs.head?.map (·.2)).map (fun b => economicProfit b.rar spec.hurdle b.ec) = _
    rw [hbank]
    rfl

end

end SocioWorkspace.Omnirisk
