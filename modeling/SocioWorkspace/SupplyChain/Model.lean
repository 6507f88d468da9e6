import SocioWorkspace.Lib.PyData
import SocioWorkspace.Lib.PyJson

/-!
# The supply-chain risk scorer

Model of `gbrg/governance/supply_chain_risk.py`: the scores of a node, a path and a cluster, and the verdict
that is projected from the controls, the indicators and the crosswalk of the subject, up to the sealing. Floats
are exact rationals. The numbers of an entry are numbers; its family and its evidence reference are any values.
-/

namespace SocioWorkspace.SupplyChain
open Python List

/-- A member of `control_efficacy_families.weights`. -/
structure ControlFamily where
  weight : ℚ
  evidenceKey : String

/-- A member of `kri_kci_thresholds.indicators`. -/
structure Indicator where
  id : String
  direction : Option String
  green : Option ℚ
  amberLow : Option ℚ
  greenMax : Option ℚ
  amberMax : Option ℚ

structure Weights where
  inherentRiskFactors : List (String × ℚ)
  controlEfficacyFamilies : List ControlFamily
  clusterCommonModeWeights : List (String × ℚ)
  orderedBands : List (String × ℚ)
  indicators : List Indicator

/-- Python `load_weights()`: the weights declared in `contracts/supply-chain-risk-weights.v0.json`. -/
def loadWeights : Weights where
  inherentRiskFactors :=
    [("criticality_K", 1 / 4), ("privilege_P", 1 / 5), ("execution_E", 3 / 20),
      ("opacity_O", 3 / 20), ("concentration_C", 3 / 20), ("velocity_V", 1 / 10)]
  controlEfficacyFamilies :=
    [⟨1 / 10, "Governance"⟩, ⟨1 / 5, "Identity & publishing authority"⟩,
      ⟨1 / 5, "Build provenance"⟩, ⟨1 / 5, "Artifact integrity"⟩,
      ⟨3 / 20, "Distribution guardrails"⟩, ⟨3 / 20, "Monitoring & recovery"⟩]
  clusterCommonModeWeights :=
    [("hhi_normalized_concentration", 2 / 5), ("blast_radius", 3 / 10), ("time_to_recover", 1 / 5),
      ("exit_difficulty", 1 / 10)]
  orderedBands := [("Critical", 3 / 4), ("High", 1 / 2), ("Moderate", 1 / 4), ("Low", 0)]
  indicators :=
    [higher "KRI01" 95 80, higher "KRI02" 95 80, lower "KRI03" 0 10, lower "KRI04" 0 1,
      lower "KRI05" 2 4, lower "KRI06" 5 15, lower "KRI07" 0 10, lower "KRI08" 0 1,
      higher "KCI01" 95 80, higher "KCI02" 95 80, higher "KCI03" 100 75, higher "KCI04" 100 80]
where
  higher id green amberLow := ⟨id, some "higher_is_better", some green, some amberLow, none, none⟩
  lower id greenMax amberMax := ⟨id, some "lower_is_better", none, none, some greenMax, some amberMax⟩

structure CrosswalkEntry where
  alignmentId : String
  bindsOntology : List String

/-- The declared crosswalk; a category of the ontology that is no list is `none`. -/
structure Crosswalk where
  governedOntology : List (Option (List String))
  bianCrosswalk : List CrosswalkEntry
  ficoCrosswalk : List CrosswalkEntry

/-- A record of `controls_evidence`. -/
structure ControlEvidence where
  controlFamily : Option Value
  efficacy : Option ℚ
  evidenceRef : Option Value

/-- How Python shows a string and a float with three decimals. -/
structure Format where
  repr : String → String
  fixed3 : ℚ → String

/-- The formats of texts without quotes and of floats with at most three decimals. -/
def Format.decimal : Format where
  repr s := "'" ++ s ++ "'"
  fixed3 q :=
    let n := (|q| * 1000).floor.toNat
    let frac := toString (n % 1000)
    (if q < 0 then "-" else "") ++ toString (n / 1000) ++ "."
      ++ .ofList (List.replicate (3 - frac.length) '0') ++ frac

def Format.list (py : Format) (l : List String) : String :=
  "[" ++ ", ".intercalate (l.map py.repr) ++ "]"

/-- Python `governed_terms`. -/
def governedTerms (crosswalk : Crosswalk) : List String :=
  crosswalk.governedOntology.flatMap fun category => category.getD []

section
variable (py : Format)

/-- Python `resolve_crosswalk_refs`: the bound terms and the violations. -/
def resolveCrosswalkRefs (refs : List String) (crosswalk : Crosswalk) : List String × List String :=
  -- the entries of the two sides under their ids, a later one in place of an earlier one
  let byId ref := (crosswalk.bianCrosswalk ++ crosswalk.ficoCrosswalk).reverse.find?
    (·.alignmentId = ref)
  let allow := governedTerms crosswalk
  refs.foldl (fun (bound, violations) ref =>
    match byId ref with
    | none => (bound, violations ++ ["unknown crosswalk alignment id " ++ py.repr ref])
    | some entry =>
      (bound ++ entry.bindsOntology.filter (· ∈ allow),
        violations ++ (entry.bindsOntology.filter (· ∉ allow)).map fun term =>
          ref ++ ": ungoverned term " ++ py.repr term)) ([], [])

end

/-- Python `_clamp`. -/
def clamp (x : ℚ) : ℚ := max 0 (min 1 x)

/-- Python `rating_for`. -/
def ratingFor (score : ℚ) (weights : Weights) : String :=
  match weights.orderedBands.find? (·.2 ≤ score) with
  | some band => band.1
  | none => "Low"

def weightedSum (declared : List (String × ℚ)) (given : SortedMap String ℚ) : ℚ :=
  declared.foldl (fun total spec => total + spec.2 * (given.get? spec.1).getD 0) 0

/-- Python `score_node_inherent`. -/
def scoreNodeInherent (factors : SortedMap String ℚ) (weights : Weights) : ℚ :=
  clamp (weightedSum weights.inherentRiskFactors factors)

/-- Python `score_cluster_inherent`. -/
def scoreClusterInherent (components : SortedMap String ℚ) (weights : Weights) : ℚ :=
  clamp (weightedSum weights.clusterCommonModeWeights components)

namespace ControlEvidence
variable (ce : ControlEvidence)

/-- Python `ce.get("controlFamily", "")`. -/
def family : Value := ce.controlFamily.getD (.str "")

/-- Python `float(ce.get("efficacy", 0.0))`. -/
def claimed : ℚ := ce.efficacy.getD 0

/-- Python `bool(ce.get("evidenceRef"))`. -/
def evidenced : Bool := ce.evidenceRef.any Value.truthy

/-- Python `ref is None or str(ref).strip() == ""`; the text of a value that is no text is never
blank. -/
def blank : Bool :=
  match ce.evidenceRef with
  | none => true
  | some ref =>
    match ref.json with
    | .null => true
    | .str s => strip s.toList = []
    | _ => false

/-- An entry that claims efficacy without an evidence reference. -/
def unverifiable : Bool := 0 < ce.claimed ∧ ce.blank

end ControlEvidence

/-- Python `by_evidence_key.get(family)`: of two families with one evidence key the later one. -/
def familySpec (weights : Weights) (family : Value) : Except PyError (Option ControlFamily) :=
  if family.hashable then
    .ok (weights.controlEfficacyFamilies.reverse.find? fun spec => family.isStr spec.evidenceKey)
  else .error .type

/-- Python `score_control_efficacy`. -/
def scoreControlEfficacy (controlsEvidence : List ControlEvidence) (weights : Weights) :
    Except PyError ℚ := do
  let total ← controlsEvidence.foldlM (fun total ce => do
    match ← familySpec weights ce.family with
    | none => return total
    | some spec => return total + spec.weight * ce.claimed) 0
  return clamp total

/-- Python `unverifiable_controls`. -/
def unverifiableControls (controlsEvidence : List ControlEvidence) : List Value :=
  (controlsEvidence.filter (·.unverifiable)).map fun ce => ce.controlFamily.getD (.str "?")

/-- Python `score_path_risk`. -/
def scorePathRisk (nodeResiduals : List ℚ) : ℚ :=
  clamp (1 - nodeResiduals.foldl (fun surv r => surv * (1 - clamp r)) 1)

/-- Python `hhi_normalized`. -/
def hhiNormalized (shares : List ℚ) : ℚ :=
  let active := shares.filter (0 < ·)
  let n := active.length
  if n ≤ 1 then if n = 1 then 1 else 0
  else clamp (((active.map fun s => s * s).sum - 1 / n) / (1 - 1 / n))

inductive Band where
  | green
  | amber
  | red
deriving DecidableEq

/-- Python `_indicator`. -/
def indicator (kriId : String) (weights : Weights) : Option Indicator :=
  weights.indicators.find? (·.id = kriId)

/-- Python `evaluate_kri`. -/
def evaluateKri (kriId : String) (v : ℚ) (weights : Weights) : Except PyError Band := do
  match indicator kriId weights with
  | none => return .red
  | some ind =>
    if ind.direction = some "higher_is_better" then
      if (← orRaise .key ind.green) ≤ v then return .green
      if (← orRaise .key ind.amberLow) ≤ v then return .amber
      return .red
    else
      let greenMax := ind.greenMax.getD 0
      let amberMax := ind.amberMax.getD greenMax
      if v ≤ greenMax then return .green
      if v ≤ amberMax then return .amber
      return .red

structure KriEvaluation where
  id : String
  value : ℚ
  band : Band

/-- Python `evaluate_kri_set`. -/
def evaluateKriSet (metrics : List (String × ℚ)) (weights : Weights) :
    Except PyError (List KriEvaluation) :=
  metrics.mapM fun (kriId, value) => do
    let band ← evaluateKri kriId value weights
    return ⟨kriId, value, band⟩

/-- A verdict (Python `VERIFIES`, `FLAGGED`, `REJECTED`). -/
inductive Verdict where
  | verifies
  | flagged
  | rejected
deriving DecidableEq

/-- What `_project_verdict` returns. -/
structure Projection where
  verdict : Verdict
  status : String
  epistemicLevel : String
  reason : String

/-- Python `", ".join(values)`, which takes texts only. -/
def join (values : List Value) : Except PyError String := do
  let texts ← values.mapM fun v => orRaise .type v.asStr
  return ", ".intercalate texts

/-- Python `_project_verdict`. -/
def projectVerdict (controlsEvidence : List ControlEvidence) (kriEvals : List KriEvaluation)
    (requireControls : Bool) (crosswalkViolations : List String) : Except PyError Projection := do
  if crosswalkViolations ≠ [] then
    return ⟨.rejected, "FAILED", "rejected",
      "REJECTED: ungoverned crosswalk term(s): " ++ "; ".intercalate crosswalkViolations⟩
  let badControls := unverifiableControls controlsEvidence
  if badControls ≠ [] then
    return ⟨.rejected, "FAILED", "rejected",
      "REJECTED (fail-closed): control efficacy claimed with NO evidence for "
        ++ (← join badControls)⟩
  if requireControls ∧ controlsEvidence.isEmpty then
    return ⟨.rejected, "FAILED", "rejected",
      "REJECTED (fail-closed): tier-0 subject scored with NO controls-evidence"⟩
  let red := (kriEvals.filter (·.band = .red)).map (·.id)
  if red ≠ [] then
    return ⟨.flagged, "BLOCKED", "speculative",
      "FLAGGED: KRI/KCI threshold breach (RED) for " ++ ", ".intercalate red⟩
  return ⟨.verifies, "PROVED", "empirical",
    "VERIFIES: controls evidenced and all KRIs within threshold"⟩

/-- Python `Assessment`, before it is sealed. -/
structure Assessment where
  riskScope : String
  subjectId : String
  inherentScore : Option ℚ
  controlEfficacy : Option ℚ
  residualScore : ℚ
  rating : String
  verdict : Verdict
  status : String
  epistemicLevel : String
  controlsEvidence : List ControlEvidence
  kriEvaluations : List KriEvaluation
  crosswalkRefs : List String
  derivation : String
  boundTerms : List String

/-- What the three assessments take besides their scores. -/
structure Subject where
  subjectId : String
  controlsEvidence : List ControlEvidence
  kriMetrics : List (String × ℚ)
  crosswalkRefs : List String

section
variable (py : Format) (weights : Weights) (crosswalk : Crosswalk)

/-- What the assessments have in common: rating, indicators, verdict and record. -/
def assess (riskScope : String) (s : Subject) (requireControls : Bool)
    (inherentScore controlEfficacy : Option ℚ) (residual : ℚ) (scores : String) :
    Except PyError Assessment := do
  let (bound, violations) := resolveCrosswalkRefs py s.crosswalkRefs crosswalk
  let rating := ratingFor residual weights
  let kriEvals ← evaluateKriSet s.kriMetrics weights
  let p ← projectVerdict s.controlsEvidence kriEvals requireControls violations
  return {
    riskScope := riskScope
    subjectId := s.subjectId
    inherentScore := inherentScore
    controlEfficacy := controlEfficacy
    residualScore := residual
    rating := rating
    verdict := p.verdict
    status := p.status
    epistemicLevel := p.epistemicLevel
    controlsEvidence := s.controlsEvidence
    kriEvaluations := kriEvals
    crosswalkRefs := s.crosswalkRefs
    derivation := riskScope ++ " " ++ py.repr s.subjectId ++ ": " ++ scores ++ " -> " ++ rating
      ++ ". " ++ p.reason ++ ". crosswalk=" ++ py.list s.crosswalkRefs ++ " bound_terms="
      ++ py.list (bound.toFinset.sort (· ≤ ·)) ++ "."
    boundTerms := bound }

/-- Python `assess_node`, up to the sealing of its result. -/
def assessNode (s : Subject) (factors : SortedMap String ℚ) (tier0 : Bool) :
    Except PyError Assessment := do
  let inherent := scoreNodeInherent factors weights
  let verifiableCe := s.controlsEvidence.filter (·.evidenced)
  let efficacy ← scoreControlEfficacy verifiableCe weights
  let residual := clamp (inherent * (1 - efficacy))
  assess py weights crosswalk "node" s tier0 (some inherent) (some efficacy) residual
    ("inherent=" ++ py.fixed3 inherent ++ " (K,P,E,O,C,V weighted), control_efficacy="
      ++ py.fixed3 efficacy ++ " (evidenced families only), residual=" ++ py.fixed3 residual)

/-- Python `assess_path`, up to the sealing of its result. -/
def assessPath (s : Subject) (nodeResiduals : List ℚ) : Except PyError Assessment :=
  let pathRisk := scorePathRisk nodeResiduals
  assess py weights crosswalk "path" s true none none pathRisk
    (toString nodeResiduals.length ++ " nodes, noisy-OR path_risk=" ++ py.fixed3 pathRisk)

variable {weights}

/-- The weight that an entry of a family is credited with; 0 if it is no declared family. -/
def familyWeight (weights : Weights) (family : Value) : ℚ :=
  ((weights.controlEfficacyFamilies.reverse.find? fun spec =>
    family.isStr spec.evidenceKey).map (·.weight)).getD 0

/-- The credit of some entries, before it is clamped. -/
def credit (weights : Weights) (ces : List ControlEvidence) : ℚ :=
  (ces.map fun ce => familyWeight weights ce.family * ce.claimed).sum

@[simp] lemma credit_nil : credit weights [] = 0 := rfl

@[simp] lemma credit_cons {ce ces} : credit weights (ce :: ces) =
    familyWeight weights ce.family * ce.claimed + credit weights ces := sum_cons

@[simp] lemma credit_append {ces ces'} :
    credit weights (ces ++ ces') = credit weights ces + credit weights ces' := by
  rw [credit, map_append, sum_append]
  rfl

lemma familySpec_eq_ok {family spec} : familySpec weights family = .ok spec ↔
    family.hashable = true ∧ spec = weights.controlEfficacyFamilies.reverse.find? fun spec =>
      family.isStr spec.evidenceKey := by
  unfold familySpec
  by_cases h : family.hashable = true
  · simp [h, eq_comm]
  · simp [h]

lemma scoreControlEfficacy_eq_ok {ces x} :
    scoreControlEfficacy ces weights = .ok x ↔
      (∀ ce ∈ ces, ce.family.hashable = true) ∧ x = clamp (credit weights ces) := by
  -- the loop adds the credits to what it has so far
  have hloop : ∀ total t, ces.foldlM (fun total ce => do
      match ← familySpec weights ce.family with
      | none => return total
      | some spec => return total + spec.weight * ce.claimed) total = .ok t ↔
        (∀ ce ∈ ces, ce.family.hashable = true) ∧ t = total + credit weights ces := by
    induction ces with
    | nil =>
      intro total t
      rw [foldlM_nil, credit_nil, add_zero]
      exact ⟨fun h => ⟨by simp, (Except.ok.inj h).symm⟩, fun h => congrArg Except.ok h.2.symm⟩
    | cons ce ces ih =>
      intro total t
      rw [foldlM_cons, forall_mem_cons, credit_cons, familyWeight]
      simp only [bind_eq_ok, familySpec_eq_ok, ih]
      cases weights.controlEfficacyFamilies.reverse.find? fun spec =>
          ce.family.isStr spec.evidenceKey with
      | none => simp [pure, Except.pure, and_assoc]
      | some spec => simp [pure, Except.pure, and_assoc, add_assoc]
  unfold scoreControlEfficacy
  simp only [bind_eq_ok, hloop, zero_add]
  refine ⟨?_, ?_⟩
  · intro ⟨t, ⟨hh, ht⟩, hx⟩
    cases hx
    exact ⟨hh, by rw [ht]⟩
  · intro ⟨hh, hx⟩
    exact ⟨_, ⟨hh, rfl⟩, congrArg Except.ok hx.symm⟩

variable {ces : List ControlEvidence} {kriEvals : List KriEvaluation} {requireControls : Bool}
  {violations : List String}

lemma join_returns {values} : (∃ text, join values = .ok text) ↔ ∀ v ∈ values, v.asStr ≠ none := by
  have hmap : (∃ text, join values = .ok text) ↔
      ∃ texts, (values.mapM fun v => orRaise PyError.type v.asStr) = .ok texts := by
    unfold join
    simp only [bind_eq_ok]
    exact ⟨fun ⟨_, texts, h, _⟩ => ⟨texts, h⟩, fun ⟨texts, h⟩ => ⟨_, texts, h, rfl⟩⟩
  rw [hmap, mapM_returns]
  refine forall₂_congr fun v _ => ?_
  cases v.asStr with
  | none | some s => simp [orRaise]

/-- A verdict is projected unless a family to be named in the reason is no text. -/
lemma projectVerdict_returns :
    (∃ p, projectVerdict ces kriEvals requireControls violations = .ok p) ↔
      (violations = [] → ∀ v ∈ unverifiableControls ces, v.asStr ≠ none) := by
  rw [← join_returns]
  unfold projectVerdict
  by_cases hv : violations = []
  · by_cases hb : unverifiableControls ces = []
    · simp only [hv, hb, ne_eq, not_true, if_false, forall_const]
      refine iff_of_true ?_ ⟨_, rfl⟩
      split_ifs
      · exact ⟨_, rfl⟩
      · exact ⟨_, rfl⟩
      · exact ⟨_, rfl⟩
    · simp only [hv, ne_eq, not_true, if_false, hb, not_false_iff, if_true, bind_eq_ok, forall_const]
      exact ⟨fun ⟨p, text, ht, _⟩ => ⟨text, ht⟩, fun ⟨text, ht⟩ => ⟨_, text, ht, rfl⟩⟩
  · simp only [hv, ne_eq, not_false_iff, if_true]
    exact iff_of_true ⟨_, rfl⟩ fun h => h.elim

lemma projectVerdict_verifies {p} (h : projectVerdict ces kriEvals requireControls violations = .ok p) :
    p.verdict = .verifies ↔ violations = [] ∧ (∀ ce ∈ ces, ce.unverifiable = false) ∧
      (requireControls = true → ces ≠ []) ∧ ∀ k ∈ kriEvals, k.band ≠ .red := by
  have hbad : unverifiableControls ces = [] ↔ ∀ ce ∈ ces, ce.unverifiable = false := by
    simp [unverifiableControls]
  have hred : (kriEvals.filter (·.band = .red)).map (·.id) = [] ↔ ∀ k ∈ kriEvals, k.band ≠ .red := by
    simp
  rw [← hbad, ← hred]
  unfold projectVerdict at h
  by_cases hv : violations = []
  · by_cases hb : unverifiableControls ces = []
    · by_cases hc : requireControls = true ∧ ces = []
      · simp only [hv, hc, isEmpty_nil, ne_eq, not_true, if_false, and_true, if_true] at h
        cases h
        simp [hc]
      · by_cases hr : (kriEvals.filter (·.band = .red)).map (·.id) = []
        · simp only [hv, hb, hc, hr, List.isEmpty_iff, ne_eq, not_true, if_false] at h
          cases h
          exact iff_of_true rfl ⟨hv, hb, fun hreq he => hc ⟨hreq, he⟩, hr⟩
        · simp only [hv, hb, hc, hr, List.isEmpty_iff, ne_eq, not_true, not_false_iff, if_false, if_true] at h
          cases h
          exact iff_of_false nofun fun hall => hr hall.2.2.2
    · simp only [hv, hb, ne_eq, not_true, not_false_iff, if_false, if_true, bind_eq_ok] at h
      obtain ⟨text, -, h⟩ := h
      cases h
      exact iff_of_false nofun fun hall => hb hall.2.1
  · simp only [hv, ne_eq, not_false_iff, if_true] at h
    cases h
    exact iff_of_false nofun fun hall => hv hall.1

variable {py crosswalk} {s : Subject}

lemma assess_record {riskScope requireControls inherent efficacy residual scores a}
    (h : assess py weights crosswalk riskScope s requireControls inherent efficacy residual scores =
      .ok a) : a.subjectId = s.subjectId ∧ a.controlsEvidence = s.controlsEvidence := by
  obtain ⟨kriEvals, -, h⟩ := bind_eq_ok.1 h
  obtain ⟨p, -, h⟩ := bind_eq_ok.1 h
  cases h
  exact ⟨rfl, rfl⟩

/-- The families that a reason may have to name are texts. -/
def Nameable (py : Format) (crosswalk : Crosswalk) (s : Subject) : Prop :=
  (resolveCrosswalkRefs py s.crosswalkRefs crosswalk).2 = [] →
    ∀ v ∈ unverifiableControls s.controlsEvidence, v.asStr ≠ none

lemma assess_returns {riskScope requireControls inherent efficacy residual scores} :
    (∃ a, assess py weights crosswalk riskScope s requireControls inherent efficacy residual scores =
      .ok a) ↔ (∃ k, evaluateKriSet s.kriMetrics weights = .ok k) ∧ Nameable py crosswalk s := by
  unfold assess Nameable
  simp only [bind_eq_ok]
  refine ⟨?_, ?_⟩
  · intro h
    obtain ⟨a, k, hk, p, hp, -⟩ := h
    exact ⟨⟨k, hk⟩, projectVerdict_returns.1 ⟨p, hp⟩⟩
  · intro h
    obtain ⟨⟨k, hk⟩, hn⟩ := h
    obtain ⟨p, hp⟩ := projectVerdict_returns.2 hn
    exact ⟨_, k, hk, p, hp, rfl⟩

variable {factors : SortedMap String ℚ} {tier0 : Bool}

def nodeResidual (weights : Weights) (factors : SortedMap String ℚ) (ces : List ControlEvidence) : ℚ :=
  clamp (scoreNodeInherent factors weights *
    (1 - clamp (credit weights (ces.filter (·.evidenced)))))

lemma assessNode_eq_ok {a} (h : assessNode py weights crosswalk s factors tier0 = .ok a) :
    a.residualScore = nodeResidual weights factors s.controlsEvidence ∧
    ∃ p, evaluateKriSet s.kriMetrics weights = .ok a.kriEvaluations ∧
      projectVerdict s.controlsEvidence a.kriEvaluations tier0
        (resolveCrosswalkRefs py s.crosswalkRefs crosswalk).2 = .ok p ∧ a.verdict = p.verdict := by
  obtain ⟨efficacy, he, h⟩ := bind_eq_ok.1 h
  obtain ⟨-, rfl⟩ := scoreControlEfficacy_eq_ok.1 he
  obtain ⟨kriEvals, hk, h⟩ := bind_eq_ok.1 h
  obtain ⟨p, hp, h⟩ := bind_eq_ok.1 h
  cases h
  exact ⟨rfl, p, hk, hp, rfl⟩

lemma assessNode_returns : (∃ a, assessNode py weights crosswalk s factors tier0 = .ok a) ↔
    (∀ ce ∈ s.controlsEvidence, ce.evidenced = true → ce.family.hashable = true) ∧
    (∃ k, evaluateKriSet s.kriMetrics weights = .ok k) ∧ Nameable py crosswalk s := by
  unfold assessNode
  simp only [bind_eq_ok, scoreControlEfficacy_eq_ok, mem_filter, and_imp]
  refine ⟨?_, ?_⟩
  · intro h
    obtain ⟨a, efficacy, ⟨hh, -⟩, ha⟩ := h
    exact ⟨hh, assess_returns.1 ⟨a, ha⟩⟩
  · intro h
    obtain ⟨hh, hrest⟩ := h
    obtain ⟨a, ha⟩ := assess_returns.2 hrest
    exact ⟨a, _, ⟨hh, rfl⟩, ha⟩

end

end SocioWorkspace.SupplyChain
