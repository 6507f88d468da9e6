import SocioWorkspace.SupplyChain.Model

/-!
# What controls are credited with

Three laws that `gbrg/governance/supply_chain_risk.py` states of its controls, and the inputs on which they
hold: what counts as evidence, what an entry of a family adds, and what satisfies the demand for controls.
-/

namespace SocioWorkspace.SupplyChain
open Python List

@[simp] lemma clamp_zero : clamp 0 = 0 := by decide +kernel

@[simp] lemma clamp_one : clamp 1 = 1 := by decide +kernel

lemma clamp_nonneg (x : ℚ) : 0 ≤ clamp x := le_max_left _ _

lemma clamp_le_one (x : ℚ) : clamp x ≤ 1 := max_le zero_le_one (min_le_left _ _)

lemma clamp_eq_self {x} (h0 : 0 ≤ x) (h1 : x ≤ 1) : clamp x = x := by
  rw [clamp, min_eq_right h1, max_eq_right h0]

lemma clamp_eq_zero {x} : clamp x = 0 ↔ x ≤ 0 := by
  rw [clamp, max_eq_left_iff, min_le_iff]
  simp

lemma clamp_le_clamp_add_iff {b t} : clamp b ≤ clamp (b + t) ↔ 0 ≤ t ∨ b ≤ 0 ∨ 1 ≤ b + t := by
  unfold clamp
  grind

lemma clamp_add_le_iff {b t w} (hw : 0 ≤ w) :
    clamp (b + t) ≤ clamp b + w ↔ b + t ≤ max 0 b + w ∨ 1 ≤ max 0 b + w := by
  unfold clamp
  grind

section
variable (py : Format) (weights : Weights) (crosswalk : Crosswalk)

/-- A list of controls with one flagged control removed or declared to have another efficacy. -/
def Tampered (ces ces' : List ControlEvidence) : Prop :=
  ∃ before ce after, ces = before ++ ce :: after ∧ ce.unverifiable = true ∧
    (ces' = before ++ after ∨ ∃ x, ces' = before ++ { ce with efficacy := x } :: after)

/-- Removing a flagged control, or changing its efficacy, leaves the residual of the node as it is. -/
def EarnsNothing (s : Subject) (factors : SortedMap String ℚ) (tier0 : Bool) : Prop :=
  ∀ ces a a', Tampered s.controlsEvidence ces →
    assessNode py weights crosswalk s factors tier0 = .ok a →
    assessNode py weights crosswalk { s with controlsEvidence := ces } factors tier0 = .ok a' →
    a'.residualScore = a.residualScore

variable {py weights crosswalk} {s : Subject} {factors : SortedMap String ℚ} {tier0 : Bool}

def earned (weights : Weights) (ces : List ControlEvidence) : ℚ := credit weights (ces.filter (·.evidenced))

lemma earned_append {ces ces'} : earned weights (ces ++ ces') = earned weights ces + earned weights ces' := by
  rw [earned, filter_append, credit_append]
  rfl

def entryCredit (weights : Weights) (ce : ControlEvidence) : ℚ :=
  if ce.evidenced then familyWeight weights ce.family * ce.claimed else 0

lemma earned_cons {ce ces} : earned weights (ce :: ces) = entryCredit weights ce + earned weights ces := by
  rw [earned, filter_cons, entryCredit]
  split
  · exact credit_cons
  · exact (zero_add _).symm

lemma earned_split {before ce after} : earned weights (before ++ ce :: after) =
    entryCredit weights ce + earned weights (before ++ after) := by
  rw [earned_append, earned_append, earned_cons, add_left_comm]

lemma nodeResidual_eq {ces} : nodeResidual weights factors ces =
    scoreNodeInherent factors weights * (1 - clamp (earned weights ces)) := by
  refine clamp_eq_self ?_ ?_
  · exact mul_nonneg (clamp_nonneg _) (sub_nonneg.2 (clamp_le_one _))
  · exact mul_le_one₀ (clamp_le_one _) (sub_nonneg.2 (clamp_le_one _)) (sub_le_self _ (clamp_nonneg _))

/-- Tampering with a flagged control that has no weight leaves what is earned as it is. -/
lemma earned_tampered {ces ces'} (ht : Tampered ces ces')
    (h : ∀ ce ∈ ces, ce.unverifiable = true → ce.evidenced = true →
      familyWeight weights ce.family = 0) : earned weights ces' = earned weights ces := by
  obtain ⟨before, ce, after, rfl, hu, hces'⟩ := ht
  have hzero : ∀ x, entryCredit weights { ce with efficacy := x } = 0 := by
    intro x
    refine ite_eq_right_iff.2 fun he => ?_
    exact mul_eq_zero_of_left (h ce (by simp) hu he) _
  have hce : entryCredit weights ce = 0 := hzero ce.efficacy
  cases hces' with
  | inl he => rw [he, earned_split, hce, zero_add]
  | inr he =>
    obtain ⟨x, rfl⟩ := he
    rw [earned_split, earned_split, hzero, hce]

lemma forall_mem_unverifiableControls {ces} {P : Value → Prop} :
    (∀ v ∈ unverifiableControls ces, P v) ↔
      ∀ ce ∈ ces, ce.unverifiable = true → P (ce.controlFamily.getD (.str "?")) := by
  simp only [unverifiableControls, forall_mem_map, mem_filter, and_imp]

lemma assessNode_returns_tampered {a before ce after}
    (h : assessNode py weights crosswalk s factors tier0 = .ok a)
    (hces : s.controlsEvidence = before ++ ce :: after) (hu : ce.unverifiable = true)
    (x : Option ℚ) : ∃ a', assessNode py weights crosswalk
      { s with controlsEvidence := before ++ { ce with efficacy := x } :: after } factors tier0 =
        .ok a' := by
  obtain ⟨hh, hk, hn⟩ := assessNode_returns.1 ⟨a, h⟩
  unfold Nameable at hn
  simp only [forall_mem_unverifiableControls, hces, forall_mem_append, forall_mem_cons] at hh hn
  refine assessNode_returns.2 ⟨?_, hk, ?_⟩
  · simp only [forall_mem_append, forall_mem_cons]
    exact hh
  · intro hv
    obtain ⟨hbefore, hce, hafter⟩ := hn hv
    simp only [forall_mem_unverifiableControls, forall_mem_append, forall_mem_cons]
    exact ⟨hbefore, fun _ => hce hu, hafter⟩

/-- Flagged controls earn nothing exactly if there is no inherent risk, or none of them has a reference of
blanks and a family of some weight. -/
theorem earnsNothing_iff {a} (h : assessNode py weights crosswalk s factors tier0 = .ok a) :
    EarnsNothing py weights crosswalk s factors tier0 ↔
      weightedSum weights.inherentRiskFactors factors ≤ 0 ∨
      ∀ ce ∈ s.controlsEvidence, ce.unverifiable = true → ce.evidenced = true →
        familyWeight weights ce.family = 0 := by
  refine ⟨?_, ?_⟩
  · intro hnothing
    by_contra hcon
    obtain ⟨hpos, hbad⟩ := not_or.1 hcon
    push Not at hbad
    obtain ⟨ce, hmem, hu, he, hw⟩ := hbad
    obtain ⟨before, after, hces⟩ := append_of_mem hmem
    -- some efficacy of the flagged control gives any efficacy of the whole
    have hreach : ∀ q, a.residualScore = scoreNodeInherent factors weights * (1 - clamp q) := by
      intro q
      let x := (q - earned weights (before ++ after)) / familyWeight weights ce.family
      obtain ⟨a', ha'⟩ := assessNode_returns_tampered h hces hu (some x)
      have hsame := hnothing _ a a' ⟨before, ce, after, hces, hu, .inr ⟨some x, rfl⟩⟩ h ha'
      have hq : entryCredit weights { ce with efficacy := some x } =
          q - earned weights (before ++ after) :=
        (if_pos he).trans (mul_div_cancel₀ _ hw)
      rw [← hsame, (assessNode_eq_ok ha').1, nodeResidual_eq, earned_split, hq, sub_add_cancel]
    have hzero : scoreNodeInherent factors weights = 0 := by
      have h0 := hreach 0
      have h1 := hreach 1
      simp only [clamp_zero, clamp_one, sub_zero, mul_one, sub_self, mul_zero] at h0 h1
      rw [← h0, h1]
    exact hpos (clamp_eq_zero.1 hzero)
  · intro hcond ces b b' ht hb hb'
    rw [(assessNode_eq_ok hb).1, (assessNode_eq_ok hb').1, nodeResidual_eq, nodeResidual_eq]
    cases hcond with
    | inl hinherent =>
      have hzero : scoreNodeInherent factors weights = 0 := clamp_eq_zero.2 hinherent
      rw [hzero, zero_mul, zero_mul]
    | inr hweight => rw [earned_tampered ht hweight]

def control (family : String) (efficacy : ℚ) (ref : Option Value) : ControlEvidence :=
  ⟨some (.str family), some efficacy, ref⟩

def service (ces : List ControlEvidence) : Subject := ⟨"svc://checkout", ces, [("KRI01", 97)], []⟩

def serviceFactors : SortedMap String ℚ := .ofList [("criticality_K", 4 / 5)]

def assessService (ces : List ControlEvidence) : Except PyError Assessment :=
  assessNode .decimal loadWeights ⟨[], [], []⟩ (service ces) serviceFactors true

theorem earnsNothing_iff_service :
    ∃ a, assessService [control "Build provenance" 1 none] = .ok a ∧
      (EarnsNothing .decimal loadWeights ⟨[], [], []⟩
          (service [control "Build provenance" 1 none]) serviceFactors true ↔
        weightedSum loadWeights.inherentRiskFactors serviceFactors ≤ 0 ∨
        ∀ ce ∈ (service [control "Build provenance" 1 none]).controlsEvidence,
          ce.unverifiable = true → ce.evidenced = true →
            familyWeight loadWeights ce.family = 0) := by
  have h : assessService [control "Build provenance" 1 none] = .ok _ := rfl
  exact ⟨_, h, earnsNothing_iff h⟩

/-- A control with a reference of one blank is flagged, and removing it raises the residual. -/
theorem blank_reference_credited :
    unverifiableControls [control "Build provenance" 1 (some (.str " "))] =
      [.str "Build provenance"] ∧
    (assessService [control "Build provenance" 1 (some (.str " "))]).toOption.map (·.residualScore) =
      some (4 / 25) ∧
    (assessService []).toOption.map (·.residualScore) = some (1 / 5) := by
  refine ⟨?_, ?_, ?_⟩
  · decide +kernel
  · decide +kernel
  · decide +kernel

def ControlEvidence.isOf (ce : ControlEvidence) (f : ControlFamily) : Bool := ce.family.isStr f.evidenceKey

/-- The second list is the first one, without an entry of the family, and entries of it. -/
def Adds (f : ControlFamily) (ces ces' : List ControlEvidence) : Prop :=
  ces'.filter (fun ce => !ce.isOf f) = ces

/-- The efficacies that the entries of a family declare, in total. -/
def declaredBy (f : ControlFamily) (ces : List ControlEvidence) : ℚ :=
  ((ces.filter (·.isOf f)).map (·.claimed)).sum

variable {f : ControlFamily} {ces ces' : List ControlEvidence}

lemma credit_family : credit weights (ces.filter (·.isOf f)) =
    familyWeight weights (.str f.evidenceKey) * declaredBy f ces := by
  rw [credit, declaredBy, ← sum_map_mul_left]
  refine congrArg List.sum (map_congr_left fun ce hce => ?_)
  have hkey : ce.family = .str f.evidenceKey := Value.isStr_iff.1 (mem_filter.1 hce).2
  rw [hkey]

lemma credit_adds (h : Adds f ces ces') : credit weights ces' =
    credit weights ces + familyWeight weights (.str f.evidenceKey) * declaredBy f ces' := by
  have hperm := filter_append_perm (fun ce : ControlEvidence => ce.isOf f) ces'
  rw [← credit_family, ← h, add_comm, ← credit_append]
  exact ((hperm.map _).sum_eq).symm

lemma score_adds (h : Adds f ces ces') {x} (hx : scoreControlEfficacy ces weights = .ok x) :
    x = clamp (credit weights ces) ∧ scoreControlEfficacy ces' weights =
      .ok (clamp (credit weights ces
        + familyWeight weights (.str f.evidenceKey) * declaredBy f ces')) := by
  obtain ⟨hh, hxc⟩ := scoreControlEfficacy_eq_ok.1 hx
  refine ⟨hxc, scoreControlEfficacy_eq_ok.2 ⟨?_, by rw [credit_adds h]⟩⟩
  intro ce hce
  by_cases hf : ce.isOf f = true
  · -- the key of a family is a text
    rw [Value.isStr_iff.1 hf]
    rfl
  · refine hh ce ?_
    rw [← h]
    exact mem_filter.2 ⟨hce, by simpa using hf⟩

/-- Entries of one family raise the efficacy by at most its declared weight exactly if their credit is
not negative (or nothing is lost by it) and at most that weight (or the efficacy is at its top with the
weight). -/
theorem fairlyCredited_iff {x} (hw : 0 ≤ f.weight) (h : Adds f ces ces')
    (hx : scoreControlEfficacy ces weights = .ok x) :
    (∃ y, scoreControlEfficacy ces' weights = .ok y ∧ x ≤ y ∧ y ≤ x + f.weight) ↔
      let had := credit weights ces
      let added := familyWeight weights (.str f.evidenceKey) * declaredBy f ces'
      (0 ≤ added ∨ had ≤ 0 ∨ 1 ≤ had + added) ∧
        (had + added ≤ max 0 had + f.weight ∨ 1 ≤ max 0 had + f.weight) := by
  obtain ⟨rfl, hy⟩ := score_adds h hx
  simp only [hy, Except.ok.injEq, exists_eq_left', clamp_le_clamp_add_iff, clamp_add_le_iff hw]

end

/-- Governance evidence beside that of two other families. -/
theorem fairlyCredited_iff_governance :
    let had := [control "Build provenance" 1 none, control "Artifact integrity" (1 / 2) none]
    let has := [control "Build provenance" 1 none, control "Governance" (1 / 2) none,
      control "Artifact integrity" (1 / 2) none, control "Governance" (1 / 4) none]
    ∃ x, scoreControlEfficacy had loadWeights = .ok x ∧
      ((∃ y, scoreControlEfficacy has loadWeights = .ok y ∧ x ≤ y ∧ y ≤ x + 1 / 10) ↔
        let had := credit loadWeights had
        let added := familyWeight loadWeights (.str "Governance") * declaredBy ⟨1 / 10, "Governance"⟩ has
        (0 ≤ added ∨ had ≤ 0 ∨ 1 ≤ had + added) ∧
          (had + added ≤ max 0 had + 1 / 10 ∨ 1 ≤ max 0 had + 1 / 10)) := by
  intro had has
  have hx : ∃ x, scoreControlEfficacy had loadWeights = .ok x :=
    ⟨_, scoreControlEfficacy_eq_ok.2 ⟨by decide +kernel, rfl⟩⟩
  obtain ⟨x, hx⟩ := hx
  exact ⟨x, hx, fairlyCredited_iff (f := ⟨1 / 10, "Governance"⟩) (by decide +kernel) rfl hx⟩

/-- Two entries of one family earn twice its weight, and a negative efficacy takes away from another
family. -/
theorem repeated_family_overcredited :
    ⟨1 / 10, "Governance"⟩ ∈ loadWeights.controlEfficacyFamilies ∧
    scoreControlEfficacy [] loadWeights = .ok 0 ∧
    scoreControlEfficacy [control "Governance" 1 none, control "Governance" 1 none] loadWeights =
      .ok (1 / 5) ∧
    scoreControlEfficacy [control "Build provenance" 1 none] loadWeights = .ok (1 / 5) ∧
    scoreControlEfficacy [control "Build provenance" 1 none, control "Governance" (-1) none]
      loadWeights = .ok (1 / 10) := by
  refine ⟨mem_cons_self, rfl, ?_, ?_, ?_⟩
  · exact scoreControlEfficacy_eq_ok.2 ⟨by decide +kernel, by decide +kernel⟩
  · exact scoreControlEfficacy_eq_ok.2 ⟨by decide +kernel, by decide +kernel⟩
  · exact scoreControlEfficacy_eq_ok.2 ⟨by decide +kernel, by decide +kernel⟩

lemma evaluateKriSet_red {metrics weights evals} (h : evaluateKriSet metrics weights = .ok evals) :
    (∃ k ∈ evals, k.band = .red) ↔ ∃ m ∈ metrics, evaluateKri m.1 m.2 weights = .ok .red := by
  refine (Lists.exists_mem_iff (forall₂_of_mapM_eq_ok h) fun m k hk => ?_).symm
  obtain ⟨band, hband, hk⟩ := bind_eq_ok.1 hk
  cases hk
  rw [hband]
  exact ⟨Except.ok.inj, congrArg Except.ok⟩

/-- A tier-0 node verifies with an evidenced control exactly if a control claims anything, or it does not
verify for other reasons. -/
theorem verifies_evidenced_iff {py weights crosswalk s factors a}
    (h : assessNode py weights crosswalk s factors true = .ok a) :
    (a.verdict = .verifies → ∃ ce ∈ s.controlsEvidence, 0 < ce.claimed ∧ ce.blank = false) ↔
      (∃ ce ∈ s.controlsEvidence, 0 < ce.claimed) ∨ s.controlsEvidence = [] ∨
      (resolveCrosswalkRefs py s.crosswalkRefs crosswalk).2 ≠ [] ∨
      ∃ m ∈ s.kriMetrics, evaluateKri m.1 m.2 weights = .ok .red := by
  obtain ⟨-, p, hk, hp, hv⟩ := assessNode_eq_ok h
  rw [hv, projectVerdict_verifies hp, ← evaluateKriSet_red hk]
  refine ⟨?_, ?_⟩
  · intro himp
    by_contra hcon
    simp only [not_or, not_exists, not_and, not_not] at hcon
    obtain ⟨hclaim, hne, hcross, hred⟩ := hcon
    -- nothing is claimed, so nothing is flagged and the node verifies
    have hquiet : ∀ ce ∈ s.controlsEvidence, ce.unverifiable = false := fun ce hce =>
      decide_eq_false fun hu => hclaim ce hce hu.1
    obtain ⟨ce, hce, hpos, -⟩ := himp ⟨hcross, hquiet, fun _ => hne, hred⟩
    exact hclaim ce hce hpos
  · rintro hcond ⟨hcross, hquiet, hne, hred⟩
    rcases hcond with ⟨ce, hce, hpos⟩ | hempty | hungoverned | ⟨k, hkm, hkr⟩
    · refine ⟨ce, hce, hpos, Bool.eq_false_iff.2 fun hblank => ?_⟩
      exact of_decide_eq_false (hquiet ce hce) ⟨hpos, hblank⟩
    · exact (hne rfl hempty).elim
    · exact (hungoverned hcross).elim
    · exact (hred k hkm hkr).elim

theorem verifies_evidenced_iff_service :
    ∃ a, assessService [control "Governance" 1 (some (.str "ev://owner-register"))] = .ok a ∧
      ((a.verdict = .verifies → ∃ ce ∈ [control "Governance" 1 (some (.str "ev://owner-register"))],
          0 < ce.claimed ∧ ce.blank = false) ↔
        (∃ ce ∈ [control "Governance" 1 (some (.str "ev://owner-register"))], 0 < ce.claimed) ∨
        [control "Governance" 1 (some (.str "ev://owner-register"))] = [] ∨
        (resolveCrosswalkRefs .decimal [] ⟨[], [], []⟩).2 ≠ [] ∨
        ∃ m ∈ [("KRI01", (97 : ℚ))], evaluateKri m.1 m.2 loadWeights = .ok .red) := by
  have h : assessService [control "Governance" 1 (some (.str "ev://owner-register"))] = .ok _ := rfl
  exact ⟨_, h, verifies_evidenced_iff h⟩

/-- A tier-0 service verifies with a single control that claims nothing and has no reference. -/
theorem unclaimed_control_verifies :
    (assessService [control "Governance" 0 none]).toOption.map (·.verdict) = some .verifies ∧
    ¬∃ ce ∈ [control "Governance" 0 none], 0 < ce.claimed ∧ ce.blank = false := by
  refine ⟨?_, ?_⟩
  · decide +kernel
  · decide +kernel

end SocioWorkspace.SupplyChain
