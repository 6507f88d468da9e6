import SocioWorkspace.Lib.PyFloat
import SocioWorkspace.Lib.PyJson

/-!
# Decisions of the responder

Model of the policy (`automation/policy.py`), of `decide_composed` and `_execute` (`automation/responder.py`),
of the executors `propose_pr`, `canary_fix` and `quarantine` (`automation/executors.py`) and of the validation
of `automation/pr_opener.py`. A beacon is a decoded dict, and a look at one of its fields can raise. The reports
of the reconcilers are parameters (`World`); `executor_paths` is empty, as in the scheduler. The address, the
times and the envelope of a receipt are left out.
-/

namespace SocioWorkspace.Respond
open Python

inductive Verdict where
  | refuse
  | quarantine
  | weak
  | probable
  | sealed
deriving DecidableEq

namespace Verdict

def index : Verdict → ℕ
  | refuse => 0
  | quarantine => 1
  | weak => 2
  | probable => 3
  | sealed => 4

lemma index_injective : Function.Injective index := by
  intro a b h
  cases a <;> cases b <;> first | rfl | cases h

instance : LinearOrder Verdict := LinearOrder.lift' index index_injective

def text : Verdict → String
  | refuse => "refuse"
  | quarantine => "quarantine"
  | weak => "weak"
  | probable => "probable"
  | sealed => "sealed"

end Verdict

/-- Python `ACTIONS`. -/
inductive Action where
  | autoFix
  | canaryFix
  | proposePr
  | quarantine
  | block
  | escalateHuman
deriving DecidableEq

inductive EpistemicLevel where
  | proved
  | bounded
  | empirical
  | synthetic
  | speculative
  | rejected
deriving DecidableEq

/-- Python `ResponsePolicy`. -/
structure ResponsePolicy (F : Type) where
  lawByKind : SortedMap String Verdict
  verdictAction : Verdict → Option Action
  defaultLaw : Verdict
  iriBlock : F
  boundaryAxes : List String
  suppressionCooldownSeconds : F

/-- Python `BOUNDARY_AXES`. -/
def BOUNDARY_AXES : List String :=
  ["legality", "containment", "provenance", "privacy", "performance", "reproducibility", "licensing",
    "governance"]

/-- Python `DEFAULT_POLICY`. -/
def DEFAULT_POLICY {F : Type} (py : FloatOps F) : ResponsePolicy F where
  lawByKind := .ofList [
    ("mirror_drift", .sealed),
    ("vendored_graph_drift", .sealed),
    ("build_failure", .probable),
    ("stale_vendor", .weak),
    ("deploy_regression", .weak),
    ("workspace_lock_drift", .weak),
    ("policy_violation", .quarantine),
    ("unknown", .refuse)]
  verdictAction
    | .sealed => some .autoFix
    | .probable => some .canaryFix
    | .weak => some .proposePr
    | .quarantine => some .quarantine
    | .refuse => some .block
  defaultLaw := .refuse
  iriBlock := py.lit 0.55
  boundaryAxes := BOUNDARY_AXES
  suppressionCooldownSeconds := py.lit 3600

namespace ResponsePolicy
variable {F : Type} (policy : ResponsePolicy F)

/-- Python `policy.law_for(kind)`; a list or a dict is no key. -/
def lawFor (kind : Value) : Except PyError Verdict :=
  if kind.hashable then .ok ((kind.asStr.bind policy.lawByKind.get?).getD policy.defaultLaw)
  else .error .type

/-- Python `ResponsePolicy.action_for`. -/
def actionFor (verdict : Verdict) : Action := (policy.verdictAction verdict).getD .escalateHuman

/-- Python `axes or BOUNDARY_AXES`. -/
def axes : List String := if policy.boundaryAxes = [] then BOUNDARY_AXES else policy.boundaryAxes

end ResponsePolicy

/-- Floats, the order of kinds, and the texts of a reason. -/
structure Env (F : Type) where
  float : FloatOps F
  compare : Compare
  reprList : List Value → String
  twoDecimals : F → String
  strFloat : F → String

/-- Python `(beacon.get(key) or {})`, of which `get` is called. -/
def orEmpty (beacon : Dict) (key : String) : Except PyError Dict :=
  let v := (beacon.get? key).getD .null
  if v.truthy then orRaise .attr v.asDict else .ok .empty

/-- The truth of Python `d.get(key)`. -/
def has (d : Dict) (key : String) : Bool := ((d.get? key).getD .null).truthy

/-- Python `beacon.get("kind_class", "unknown")`. -/
def kindClass (beacon : Dict) : Value := (beacon.get? "kind_class").getD (.str "unknown")

/-- Python `evidence_verdict`. -/
def evidenceVerdict (beacon : Dict) : Except PyError (Option Verdict) := do
  let w ← orEmpty beacon "evidence"
  if has w "detector" && has w "reproducible" && !has w "stale" then return some .sealed
  else if has w "detector" then return some .probable
  else if has w "signal" then return some .weak
  else return none

/-- Python `_EVIDENCE_WEIGHT.get(evidence, 0)`. -/
def weight : Option Verdict → ℕ
  | some .weak => 1
  | some .probable => 2
  | some .sealed => 3
  | _ => 0

def totalEvidence (evidence : List (Option Verdict)) : Option Verdict :=
  let total := (evidence.map weight).sum
  if total ≤ 0 then none
  else if 3 ≤ total then some .sealed
  else if total = 2 then some .probable
  else some .weak

/-- Python `compose_evidence`. -/
def composeEvidence (beacons : List Dict) : Except PyError (Option Verdict) := do
  return totalEvidence (← beacons.mapM evidenceVerdict)

/-- Python `max(beacons, key=lambda b: _EVIDENCE_WEIGHT.get(evidence_verdict(b), 0))`. -/
def primaryOf (beacons : List Dict) (evidence : List (Option Verdict)) : Dict :=
  (((beacons.zip evidence).argmax fun m => weight m.2).map Prod.fst).getD .empty

section Decide
variable {F : Type} (env : Env F) (policy : ResponsePolicy F)

/-- Python `float(d.get(key, 0.0))`. -/
def number (d : Dict) (key : String) : Except PyError F :=
  match d.get? key with
  | none => .ok (env.float.lit 0)
  | some v => env.float.float v

/-- Python `compute_iri`. -/
def computeIri (beacon : Dict) : Except PyError F := do
  let e ← number env beacon "entropy_uniqueness"
  let inj ← number env beacon "injection_normativity"
  let cc ← number env beacon "consent_credits"
  let py := env.float
  return py.max (py.lit 0)
    (py.sub (py.add (py.mul (py.lit 0.45) e) (py.mul (py.lit 0.45) inj)) (py.mul (py.lit 0.20) cc))

def axisNorm (beacon : Dict) (axis : String) : Except PyError F := do
  number env (← orEmpty beacon "plan") axis

/-- Python `boundary_breaches`. -/
def boundaryBreaches (beacon : Dict) : Except PyError (List String) := do
  let norms ← policy.axes.mapM fun axis => do return (axis, ← axisNorm env beacon axis)
  return (norms.filter fun m => env.float.le (env.float.lit 1) m.2).map Prod.fst

/-- Python `effective_law`. -/
def effectiveLaw (beacons : List Dict) : Except PyError Verdict := do
  match ← beacons.mapM fun b => policy.lawFor (kindClass b) with
  | [] => return policy.defaultLaw
  | law :: laws => return laws.foldl min law

structure Outcome where
  executor : String
  healed : Bool
  proposed : Bool
  quarantined : Bool
  rolledBack : Bool
  recorded : Option Dict
deriving DecidableEq

/-- A receipt; the verdict `⊥` is `BOTTOM`. -/
structure Receipt where
  beaconKind : Value
  verdict : WithBot Verdict
  action : Action
  reason : String
  detail : Option Value
  composedFrom : List (Value × Value × Option Verdict)
  execution : Option Outcome
  epistemicLevel : EpistemicLevel

def epistemicLevelFor (execution : Option Outcome) (verdict : WithBot Verdict) : EpistemicLevel :=
  if execution.any (·.rolledBack) then .rejected
  else if execution.any (·.healed) then .proved
  else if execution.any (·.quarantined) then .bounded
  else if execution.any (·.proposed) then .synthetic
  else if verdict = ⊥ then .speculative
  else .empirical

/-- Python `_compose_receipt`. -/
def composeReceipt (primary : Dict) (beacons : List Dict) (evidence : List (Option Verdict))
    (verdict : WithBot Verdict) (action : Action) (reason : String) : Receipt where
  beaconKind := kindClass primary
  verdict := verdict
  action := action
  reason := reason
  detail := (primary.get? "detail").filter (· ≠ .null)
  composedFrom :=
    if 1 < beacons.length then
      (beacons.zip evidence).map fun m =>
        ((m.1.get? "kind_class").getD .null, (m.1.get? "system").getD .null, m.2)
    else []
  execution := none
  epistemicLevel := epistemicLevelFor none verdict

def composedReason (beacons : List Dict) : Except PyError String :=
  if 1 < beacons.length then do
    let kinds ← env.compare.sorted (beacons.map kindClass).toFinset
    return "; composed " ++ toString beacons.length ++ " signals over " ++ env.reprList kinds
  else return ""

/-- Python `decide_composed`. -/
def decideComposed (beacons : List Dict) : Except PyError Receipt := do
  let evidence ← beacons.mapM evidenceVerdict
  let receipt := composeReceipt (primaryOf beacons evidence) beacons evidence
  let breached := (← beacons.mapM (boundaryBreaches env policy)).flatten.toFinset.sort (· ≤ ·)
  if breached ≠ [] then
    return receipt ⊥ .escalateHuman
      ("octonion boundary breached: " ++ env.reprList (breached.map .str))
  let iri := env.float.maxOf (env.float.lit 0) (← beacons.mapM (computeIri env))
  if env.float.le policy.iriBlock iri then
    return receipt ⊥ .escalateHuman
      ("IRI " ++ env.twoDecimals iri ++ " >= block " ++ env.strFloat policy.iriBlock)
  match totalEvidence evidence with
  | none => return receipt ⊥ .escalateHuman "no evidence to assess (consent-hole)"
  | some ev =>
    let law ← effectiveLaw policy beacons
    let verdict := min law ev
    let reason := "meet(law=" ++ law.text ++ ", evidence=" ++ ev.text ++ ")=" ++ verdict.text ++
      "; IRI=" ++ env.twoDecimals iri
    return receipt verdict (policy.actionFor verdict) (reason ++ (← composedReason env beacons))

/-- Python `decide`. -/
def decide (beacon : Dict) : Except PyError Receipt := decideComposed env policy [beacon]

end Decide

structure HealReport where
  healed : Bool
  rolledBack : Bool

/-- The reports of the reconcilers: of the mirror drift, of the vendored graph, and of the fix behind its
canary. -/
structure World where
  remediate : Except PyError HealReport
  reconcileVendoredGraph : Except PyError HealReport
  canaryMirrorDrift : Except PyError HealReport

/-- The functions of `EXECUTORS` and `ACTION_EXECUTORS`. -/
inductive Executor where
  | resyncMirrorDrift
  | reconcileVendoredGraph
  | proposePr
  | canaryFix
  | quarantine
deriving DecidableEq

def Executor.name : Executor → String
  | resyncMirrorDrift => "resync_mirror_drift"
  | reconcileVendoredGraph => "reconcile_vendored_graph"
  | proposePr => "propose_pr"
  | canaryFix => "canary_fix"
  | quarantine => "quarantine"

/-- Python `EXECUTORS.get((kind_class, action)) or ACTION_EXECUTORS.get(action)`. -/
def executorFor (kind : Value) (action : Action) : Except PyError (Option Executor) :=
  if kind.hashable then .ok <|
    match action with
    | .autoFix =>
      if kind = .str "mirror_drift" then some .resyncMirrorDrift
      else if kind = .str "vendored_graph_drift" then some .reconcileVendoredGraph
      else none
    | .canaryFix => some .canaryFix
    | .proposePr => some .proposePr
    | .quarantine => some .quarantine
    | .block => none
    | .escalateHuman => none
  else .error .type

/-- Python `_valid_proposal`. -/
def validProposal (p : Value) : Bool :=
  match p.asDict with
  | none => false
  | some p => has p "title" && has p "branch" &&
      match (p.get? "files").bind (·.asDict) with
      | none => false
      | some files => !files.members.isEmpty

/-- Python `_valid` of the opener. -/
def validForOpener (p : Dict) : Bool :=
  has p "title" && has p "branch" &&
    (((p.get? "files").bind (·.asDict)).any (!·.members.isEmpty) ||
      ((p.get? "revert").bind (·.asStr)).any (· ≠ ""))

def failed (executor : Executor) : Outcome := ⟨executor.name, false, false, false, false, none⟩

def healOutcome (executor : Executor) (report : HealReport) : Outcome :=
  { failed executor with healed := report.healed, rolledBack := report.rolledBack }

/-- Python `propose_pr` without an opener. -/
def proposePr (beacon : Dict) : Outcome :=
  let proposal := (beacon.get? "proposal").getD .null
  if validProposal proposal then
    { failed .proposePr with
      proposed := true
      recorded := proposal.asDict.map fun p =>
        if (p.get? "base").isSome then p else p.insert "base" (.str "main") }
  else failed .proposePr

/-- Python `quarantine`; a detail that is no dict makes it raise, which is caught. -/
def quarantine (beacon : Dict) : Outcome :=
  match orEmpty beacon "detail" with
  | .error _ => failed .quarantine
  | .ok _ => { failed .quarantine with quarantined := has beacon "system" }

/-- Python `canary_fix`. -/
def canaryFix (world : World) (beacon : Dict) : Outcome :=
  if (beacon.get? "kind_class").getD .null = .str "mirror_drift" then
    match world.canaryMirrorDrift with
    | .ok report => healOutcome .canaryFix report
    | .error _ => failed .canaryFix
  else failed .canaryFix

/-- The call of an executor. Only an exception of the control loop is not caught. -/
def run (world : World) (beacon : Dict) : Executor → Except PyError Outcome
  | .resyncMirrorDrift => do return healOutcome .resyncMirrorDrift (← world.remediate)
  | .reconcileVendoredGraph => .ok <|
    match world.reconcileVendoredGraph with
    | .ok report => healOutcome .reconcileVendoredGraph report
    | .error _ => failed .reconcileVendoredGraph
  | .proposePr => .ok (proposePr beacon)
  | .canaryFix => .ok (canaryFix world beacon)
  | .quarantine => .ok (quarantine beacon)

/-- The executor healed the artifact, filed a proposal or quarantined the subject. -/
def Outcome.resolved (outcome : Outcome) : Bool := outcome.healed || outcome.proposed || outcome.quarantined

def carryOut (world : World) (beacon : Dict) (action : Action) : Except PyError (Option Outcome) := do
  match ← executorFor ((beacon.get? "kind_class").getD .null) action with
  | none => return none
  | some executor => return some (← run world beacon executor)

/-- Python `_execute`. -/
def execute (world : World) (beacon : Dict) (receipt : Receipt) : Except PyError Receipt := do
  match ← carryOut world beacon receipt.action with
  | none => return receipt
  | some outcome =>
    let epistemicLevel := epistemicLevelFor (some outcome) receipt.verdict
    if outcome.resolved then
      return { receipt with execution := some outcome, epistemicLevel }
    else
      let reason := receipt.reason ++ " | executor '" ++ outcome.executor ++ "' did not resolve"
      return { receipt with
        execution := some outcome, action := .escalateHuman, reason, epistemicLevel }

section Spec
variable {F : Type} {env : Env F} {policy : ResponsePolicy F} {beacons : List Dict}

/-- The beacon breaches an axis of the policy, or its identity risk is blocked. -/
def Fenced (env : Env F) (policy : ResponsePolicy F) (beacon : Dict) : Prop :=
  (∃ axis ∈ policy.axes, ∃ x, axisNorm env beacon axis = .ok x ∧ env.float.le (env.float.lit 1) x = true) ∨
  ∃ iri, computeIri env beacon = .ok iri ∧ env.float.le policy.iriBlock iri = true

variable {beacon : Dict}

lemma boundaryBreaches_ne_nil {breached} (h : boundaryBreaches env policy beacon = .ok breached) :
    breached ≠ [] ↔ ∃ axis ∈ policy.axes, ∃ x, axisNorm env beacon axis = .ok x ∧
      env.float.le (env.float.lit 1) x = true := by
  obtain ⟨norms, hnorms, h⟩ := bind_eq_ok.1 h
  cases h
  have hiff : (∃ axis ∈ policy.axes, ∃ x, axisNorm env beacon axis = .ok x ∧
      env.float.le (env.float.lit 1) x = true) ↔
        ∃ m ∈ norms, env.float.le (env.float.lit 1) m.2 = true := by
    refine Lists.exists_mem_iff (forall₂_of_mapM_eq_ok hnorms) fun axis m hm => ?_
    obtain ⟨x, hx, hm⟩ := bind_eq_ok.1 hm
    cases hm
    simp [hx]
  rw [hiff]
  simp

lemma exists_breach_iff {breached} (h : beacons.mapM (boundaryBreaches env policy) = .ok breached) :
    breached.flatten.toFinset.sort (· ≤ ·) ≠ [] ↔
      ∃ b ∈ beacons, ∃ axis ∈ policy.axes, ∃ x, axisNorm env b axis = .ok x ∧
        env.float.le (env.float.lit 1) x = true := by
  have hnil : breached.flatten.toFinset.sort (· ≤ ·) = [] ↔ ∀ l ∈ breached, l = [] := by
    rw [← List.length_eq_zero_iff, Finset.length_sort, Finset.card_eq_zero,
      List.toFinset_eq_empty_iff, List.flatten_eq_nil_iff]
  rw [Lists.exists_mem_iff (forall₂_of_mapM_eq_ok h) fun b l hl =>
    (boundaryBreaches_ne_nil hl).symm, Ne, hnil]
  push Not
  rfl

lemma computeIri_self {iri} (h : computeIri env beacon = .ok iri) : env.float.le iri iri = true := by
  obtain ⟨e, -, h⟩ := bind_eq_ok.1 h
  obtain ⟨inj, -, h⟩ := bind_eq_ok.1 h
  obtain ⟨cc, -, h⟩ := bind_eq_ok.1 h
  cases h
  exact FloatOps.max_self (env.float.le_lit 0)

lemma exists_iri_iff (hne : beacons ≠ []) {iris} (h : beacons.mapM (computeIri env) = .ok iris) :
    env.float.le policy.iriBlock (env.float.maxOf (env.float.lit 0) iris) = true ↔
      ∃ b ∈ beacons, ∃ iri, computeIri env b = .ok iri ∧
        env.float.le policy.iriBlock iri = true := by
  have hall := forall₂_of_mapM_eq_ok h
  have hiris : iris ≠ [] := by
    intro hnil
    rw [hnil] at hall
    exact hne (List.forall₂_nil_right_iff.1 hall)
  have hself : ∀ iri ∈ iris, env.float.le iri iri = true := by
    intro iri hiri
    obtain ⟨b, -, hb⟩ := (Lists.exists_mem_iff (P := fun b => computeIri env b = .ok iri)
      (Q := fun iri' => iri' = iri) hall fun b iri' hb => by rw [hb, Except.ok.injEq]).2 ⟨iri, hiri, rfl⟩
    exact computeIri_self hb
  rw [FloatOps.le_maxOf_iff hiris hself]
  refine (Lists.exists_mem_iff hall fun b iri hb => ?_).symm
  simp [hb]

/-- What is decided: the fence, no warrant, or the meet of law and evidence. -/
inductive Decided (env : Env F) (policy : ResponsePolicy F) (beacons : List Dict) :
    WithBot Verdict → Action → Prop where
  | fenced :
    (∃ b ∈ beacons, Fenced env policy b) →
    Decided env policy beacons ⊥ .escalateHuman
  | unwarranted :
    (¬∃ b ∈ beacons, Fenced env policy b) →
    composeEvidence beacons = .ok none →
    Decided env policy beacons ⊥ .escalateHuman
  | reasoned {law evidence} :
    (¬∃ b ∈ beacons, Fenced env policy b) →
    composeEvidence beacons = .ok (some evidence) →
    effectiveLaw policy beacons = .ok law →
    Decided env policy beacons (min law evidence : Verdict) (policy.actionFor (min law evidence))

/-- A decision is one of the three, and nothing is executed yet. -/
theorem decideComposed_eq_ok (hne : beacons ≠ []) {r} (h : decideComposed env policy beacons = .ok r) :
    Decided env policy beacons r.verdict r.action ∧ r.execution = none := by
  obtain ⟨evidence, hevidence, h⟩ := bind_eq_ok.1 h
  obtain ⟨breaches, hbreaches, h⟩ := bind_eq_ok.1 h
  have hbreach := exists_breach_iff hbreaches
  by_cases hbreached : breaches.flatten.toFinset.sort (· ≤ ·) ≠ []
  · cases (if_pos hbreached).symm.trans h
    obtain ⟨b, hb, hnorm⟩ := hbreach.1 hbreached
    exact ⟨.fenced ⟨b, hb, .inl hnorm⟩, rfl⟩
  obtain ⟨iris, hiris, h⟩ := bind_eq_ok.1 ((if_neg hbreached).symm.trans h)
  have hiri := @exists_iri_iff F env policy beacons hne iris hiris
  by_cases hblocked :
      env.float.le policy.iriBlock (env.float.maxOf (env.float.lit 0) iris) = true
  · cases (if_pos hblocked).symm.trans h
    obtain ⟨b, hb, hblock⟩ := hiri.1 hblocked
    exact ⟨.fenced ⟨b, hb, .inr hblock⟩, rfl⟩
  have h := (if_neg hblocked).symm.trans h
  have hfence : ¬∃ b ∈ beacons, Fenced env policy b := by
    rintro ⟨b, hb, hnorm | hblock⟩
    · exact hbreached (hbreach.2 ⟨b, hb, hnorm⟩)
    · exact hblocked (hiri.2 ⟨b, hb, hblock⟩)
  have hcompose : composeEvidence beacons = .ok (totalEvidence evidence) := by
    rw [composeEvidence, hevidence]
    rfl
  split at h
  · rename_i htotal
    rw [htotal] at hcompose
    cases h
    exact ⟨.unwarranted hfence hcompose, rfl⟩
  · rename_i ev htotal
    rw [htotal] at hcompose
    obtain ⟨law, hlaw, h⟩ := bind_eq_ok.1 h
    obtain ⟨reason, -, h⟩ := bind_eq_ok.1 h
    cases h
    exact ⟨.reasoned hfence hcompose hlaw, rfl⟩

lemma foldl_min_le (laws : List Verdict) (law : Verdict) :
    laws.foldl min law ≤ law ∧ ∀ l ∈ laws, laws.foldl min law ≤ l := by
  induction laws generalizing law with
  | nil => simp
  | cons l laws ih =>
    obtain ⟨hmin, hall⟩ := ih (min law l)
    rw [List.foldl_cons, List.forall_mem_cons]
    exact ⟨hmin.trans (min_le_left ..), hmin.trans (min_le_right ..), hall⟩

lemma effectiveLaw_le {law} (h : effectiveLaw policy beacons = .ok law) (hmem : beacon ∈ beacons) {law'}
    (hlaw : policy.lawFor (kindClass beacon) = .ok law') : law ≤ law' := by
  obtain ⟨laws, hlaws, h⟩ := bind_eq_ok.1 h
  have hmem : law' ∈ laws := by
    obtain ⟨l, hl, he⟩ := (Lists.exists_mem_iff (P := fun b => policy.lawFor (kindClass b) = .ok law')
      (forall₂_of_mapM_eq_ok hlaws) fun b l hl => by rw [hl, Except.ok.injEq]).1
      ⟨beacon, hmem, hlaw⟩
    exact he ▸ hl
  cases laws with
  | nil => cases hmem
  | cons l laws =>
    cases h
    rcases List.mem_cons.1 hmem with rfl | hmem
    · exact (foldl_min_le laws law').1
    · exact (foldl_min_le laws l).2 law' hmem

/-- An executor leaves the verdict alone and can only hand the subject to a human. -/
theorem execute_eq_ok {world r r'}
    (h : execute world beacon r = .ok r') : ∃ outcome, carryOut world beacon r.action = .ok outcome ∧
      r'.verdict = r.verdict ∧ r'.execution = outcome.or r.execution ∧
      r'.action = if outcome.all (·.resolved) then r.action else .escalateHuman := by
  obtain ⟨outcome, houtcome, h⟩ := bind_eq_ok.1 h
  refine ⟨outcome, houtcome, ?_⟩
  cases outcome with
  | none =>
    cases h
    exact ⟨rfl, rfl, rfl⟩
  | some outcome =>
    cases hresolved : outcome.resolved with
    | true =>
      cases (if_pos hresolved).symm.trans h
      exact ⟨rfl, rfl, by simp [hresolved]⟩
    | false =>
      cases (if_neg (by simp [hresolved])).symm.trans h
      exact ⟨rfl, rfl, by simp [hresolved]⟩

end Spec

/-- Exact fractions; the texts of a reason are canonical. -/
def exactEnv : Env ℚ where
  float := exactOps
  compare := textCompare
  reprList vs := .ofList (Value.list vs).json.print
  twoDecimals x := toString x.num ++ "/" ++ toString x.den
  strFloat x := toString x.num ++ "/" ++ toString x.den

def brokenWorld : World := ⟨.error .value, .error .value, .error .value⟩

end SocioWorkspace.Respond
