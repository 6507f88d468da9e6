import SocioWorkspace.Respond.Cycle

/-!
# What a cycle reads, and what repetition adds

A cycle of `run_once` (`automation/responder.py`) takes all beacons from the inbox before it decides the first
subject, and a decision that raises ends it. `Readable` says what the beacons of a subject have to hold for the
decision to return.

`decideComposed_returns` is about one subject and `answers_iff` about the whole cycle. `repetitionInert_iff`
says when a beacon that is sent again leaves the conclusion as it is.
-/

namespace SocioWorkspace.Respond
open Python List OrderedDict Except

section
variable {F : Type} (env : Env F) (policy : ResponsePolicy F)

def Breaches (beacon : Dict) : Prop :=
  ∃ axis ∈ policy.axes, ∃ x, axisNorm env beacon axis = .ok x ∧ env.float.le (env.float.lit 1) x = true

/-- The fields that a decision comes to look at can be read. -/
structure Readable (group : List Dict) : Prop where
  warrants : ∀ b ∈ group, ∃ ev, evidenceVerdict b = .ok ev
  norms : ∀ b ∈ group, ∀ axis ∈ policy.axes, ∃ x, axisNorm env b axis = .ok x
  iris : (¬∃ b ∈ group, Breaches env policy b) → ∀ b ∈ group, ∃ iri, computeIri env b = .ok iri
  kinds : (¬∃ b ∈ group, Fenced env policy b) → (∃ ev, composeEvidence group = .ok (some ev)) →
    (∀ b ∈ group, (kindClass b).hashable = true) ∧
      ∃ kinds, env.compare.sorted (group.map kindClass).toFinset = .ok kinds

/-- A cycle without a suppressor that executes nothing returns, with one receipt for every subject. -/
def Answers (world : World) (inbox : List Dict) : Prop :=
  let out := respondAll env policy world false (OrderedDict.group (subject env) inbox)
  out.2 = none ∧ (out.1.map Prod.fst).Nodup ∧ ∀ s, s ∈ out.1.map Prod.fst ↔ ∃ b ∈ inbox, subject env b = s

def conclusion (beacons : List Dict) : Option (WithBot Verdict × Action) :=
  (decideComposed env policy beacons).toOption.map fun r => (r.verdict, r.action)

/-- The beacons in any order, each as often as before or more often. -/
def Repeats (beacons beacons' : List Dict) : Prop := beacons.Subperm beacons' ∧ beacons' ⊆ beacons

/-- Neither the order nor a repetition changes the verdict or the action. -/
def RepetitionInert (beacons : List Dict) : Prop :=
  ∀ beacons', Repeats beacons beacons' → conclusion env policy beacons' = conclusion env policy beacons

variable {env policy} {group : List Dict}

lemma boundaryBreaches_returns {b} : (∃ l, boundaryBreaches env policy b = .ok l) ↔
    ∀ axis ∈ policy.axes, ∃ x, axisNorm env b axis = .ok x := by
  rw [boundaryBreaches, bind_returns]
  constructor
  · rintro ⟨norms, hnorms, -⟩ axis haxis
    obtain ⟨m, hm⟩ := mapM_returns.1 ⟨norms, hnorms⟩ axis haxis
    obtain ⟨x, hx, -⟩ := bind_eq_ok.1 hm
    exact ⟨x, hx⟩
  · intro h
    obtain ⟨norms, hnorms⟩ := (mapM_returns (f := fun axis => do return (axis, ← axisNorm env b axis))).2
      fun axis haxis => by
        obtain ⟨x, hx⟩ := h axis haxis
        exact ⟨(axis, x), by rw [hx]; rfl⟩
    exact ⟨norms, hnorms, _, rfl⟩

lemma lawFor_returns {kind} : (∃ law, policy.lawFor kind = .ok law) ↔ kind.hashable = true := by
  rw [ResponsePolicy.lawFor]
  split_ifs with h
  · exact iff_of_true ⟨_, rfl⟩ h
  · exact iff_of_false (by rintro ⟨law, hlaw⟩; cases hlaw) h

lemma effectiveLaw_returns :
    (∃ law, effectiveLaw policy group = .ok law) ↔ ∀ b ∈ group, (kindClass b).hashable = true := by
  rw [effectiveLaw, bind_returns]
  simp only [← @lawFor_returns F policy]
  rw [← mapM_returns (f := fun b => policy.lawFor (kindClass b))]
  refine exists_congr fun laws => and_iff_left ?_
  cases laws with
  | nil | cons law laws => exact ⟨_, rfl⟩

lemma composedReason_returns (hne : group ≠ []) : (∃ reason, composedReason env group = .ok reason) ↔
    ∃ kinds, env.compare.sorted (group.map kindClass).toFinset = .ok kinds := by
  rw [composedReason]
  split_ifs with hlength
  · rw [bind_returns]
    exact exists_congr fun kinds => and_iff_left ⟨_, rfl⟩
  · obtain ⟨b, rfl⟩ : ∃ b, group = [b] := by
      rw [← length_eq_one_iff]
      have hpos := length_pos_of_ne_nil hne
      omega
    exact iff_of_true ⟨_, rfl⟩ ⟨_, env.compare.sorted_singleton (kindClass b)⟩

lemma composeEvidence_eq {evidence} (h : group.mapM evidenceVerdict = .ok evidence) :
    composeEvidence group = .ok (totalEvidence evidence) := by
  rw [composeEvidence, h]
  rfl

/-- A decision returns exactly if the group is readable. -/
theorem decideComposed_returns (hne : group ≠ []) :
    (∃ r, decideComposed env policy group = .ok r) ↔ Readable env policy group := by
  rw [decideComposed, bind_returns]
  constructor
  · rintro ⟨evidence, hevidence, h⟩
    obtain ⟨breaches, hbreaches, h⟩ := bind_returns.1 h
    have hbreach := exists_breach_iff hbreaches
    have hwarrants := mapM_returns.1 ⟨evidence, hevidence⟩
    have hnorms : ∀ b ∈ group, ∀ axis ∈ policy.axes, ∃ x, axisNorm env b axis = .ok x :=
      fun b hb => boundaryBreaches_returns.1 (mapM_returns.1 ⟨breaches, hbreaches⟩ b hb)
    by_cases hbreached : breaches.flatten.toFinset.sort (· ≤ ·) ≠ []
    · obtain ⟨b, hb, hb'⟩ := hbreach.1 hbreached
      exact ⟨hwarrants, hnorms, fun hn => absurd ⟨b, hb, hb'⟩ hn, fun hn => absurd ⟨b, hb, .inl hb'⟩ hn⟩
    rw [if_neg hbreached] at h
    obtain ⟨iris, hiris, h⟩ := bind_returns.1 h
    refine ⟨hwarrants, hnorms, fun _ => mapM_returns.1 ⟨iris, hiris⟩, fun hfence hev => ?_⟩
    rw [if_neg fun hblocked => ?_] at h
    · obtain ⟨ev, hev⟩ := hev
      rw [composeEvidence_eq hevidence, ok.injEq] at hev
      rw [hev] at h
      obtain ⟨law, hlaw, h⟩ := bind_returns.1 h
      obtain ⟨reason, hreason, -⟩ := bind_returns.1 h
      exact ⟨effectiveLaw_returns.1 ⟨law, hlaw⟩, (composedReason_returns hne).1 ⟨reason, hreason⟩⟩
    · obtain ⟨b, hb, hb'⟩ := (exists_iri_iff hne hiris).1 hblocked
      exact hfence ⟨b, hb, .inr hb'⟩
  · rintro ⟨hwarrants, hnorms, hiris, hkinds⟩
    obtain ⟨evidence, hevidence⟩ := mapM_returns.2 hwarrants
    obtain ⟨breaches, hbreaches⟩ := mapM_returns.2 fun b hb => boundaryBreaches_returns.2 (hnorms b hb)
    have hbreach := exists_breach_iff hbreaches
    refine ⟨evidence, hevidence, bind_returns.2 ⟨breaches, hbreaches, ?_⟩⟩
    by_cases hbreached : breaches.flatten.toFinset.sort (· ≤ ·) ≠ []
    · rw [if_pos hbreached]
      exact ⟨_, rfl⟩
    rw [if_neg hbreached, bind_returns]
    obtain ⟨iris, hiris⟩ := mapM_returns.2 (hiris fun hex => hbreached (hbreach.2 hex))
    refine ⟨iris, hiris, ?_⟩
    by_cases hblocked : env.float.le policy.iriBlock (env.float.maxOf (env.float.lit 0) iris) = true
    · rw [if_pos hblocked]
      exact ⟨_, rfl⟩
    rw [if_neg hblocked]
    have hfence : ¬∃ b ∈ group, Fenced env policy b := by
      rintro ⟨b, hb, hnorm | hblock⟩
      · exact hbreached (hbreach.2 ⟨b, hb, hnorm⟩)
      · exact hblocked ((exists_iri_iff hne hiris).2 ⟨b, hb, hblock⟩)
    cases htotal : totalEvidence evidence with
    | none => exact ⟨_, rfl⟩
    | some ev =>
      obtain ⟨hhash, hsorted⟩ := hkinds hfence ⟨ev, by rw [composeEvidence_eq hevidence, htotal]⟩
      obtain ⟨law, hlaw⟩ := effectiveLaw_returns.2 hhash
      obtain ⟨reason, hreason⟩ := (composedReason_returns hne).2 hsorted
      exact bind_returns.2 ⟨law, hlaw, bind_returns.2 ⟨reason, hreason, _, rfl⟩⟩

variable {groups : List (String × List Dict)}

lemma respondAll_returns {world} :
    (respondAll env policy world false groups).2 = none ↔
      ∀ m ∈ groups, ∃ r, decideComposed env policy m.2 = .ok r := by
  induction groups with
  | nil => simp [respondAll]
  | cons m groups ih =>
    have hrespond : respond env policy world false m.2 = decideComposed env policy m.2 := by
      rw [respond]
      cases decideComposed env policy m.2 <;> rfl
    rw [respondAll, forall_mem_cons, ← ih, hrespond]
    cases decideComposed env policy m.2 <;> simp

lemma map_fst_respondAll {world executes} (h : (respondAll env policy world executes groups).2 = none) :
    (respondAll env policy world executes groups).1.map Prod.fst = groups.map Prod.fst := by
  induction groups with
  | nil => rfl
  | cons m groups ih =>
    rw [respondAll] at h ⊢
    cases hrespond : respond env policy world executes m.2 with
    | error e =>
      rw [hrespond] at h
      cases h
    | ok r =>
      rw [hrespond] at h
      exact congrArg (m.1 :: ·) (ih h)
end

/-- A cycle answers every subject exactly if the beacons of each subject can be read. -/
theorem answers_iff {F : Type} (env : Env F) (policy : ResponsePolicy F) (world : World)
    (inbox : List Dict) :
    Answers env policy world inbox ↔
      ∀ b ∈ inbox, Readable env policy (inbox.filter (subject env · = subject env b)) := by
  have hreturns : (respondAll env policy world false (group (subject env) inbox)).2 = none ↔
      ∀ b ∈ inbox, Readable env policy (inbox.filter (subject env · = subject env b)) := by
    have hne : ∀ b ∈ inbox, inbox.filter (subject env · = subject env b) ≠ [] :=
      fun b hb => ne_nil_of_mem (mem_filter.2 ⟨hb, decide_eq_true rfl⟩)
    rw [respondAll_returns]
    constructor
    · intro h b hb
      exact (decideComposed_returns (hne b hb)).1 (h (subject env b, _) (mem_group.2 ⟨rfl, b, hb, rfl⟩))
    · rintro h ⟨s, group⟩ hm
      obtain ⟨rfl, b, hb, rfl⟩ := mem_group.1 hm
      exact (decideComposed_returns (hne b hb)).2 (h b hb)
  rw [Answers, hreturns]
  refine and_iff_left_of_imp fun h => ?_
  rw [map_fst_respondAll (hreturns.2 h)]
  refine ⟨nodup_group _ _, fun s => ?_⟩
  rw [mem_map]
  constructor
  · rintro ⟨⟨s', group⟩, hm, rfl⟩
    exact (mem_group.1 hm).2
  · intro hs
    exact ⟨(s, _), mem_group.2 ⟨rfl, hs⟩, rfl⟩

/-- The evidence of the first beacon is a text. -/
theorem bad_beacon_sinks_cycle :
    let inbox := [.ofList [("system", .str "a"), ("evidence", .str "strong")], svcBeacon "mirror_drift" []]
    (respondAll exactEnv (DEFAULT_POLICY exactOps) brokenWorld false
        (group (subject exactEnv) inbox)).1.map Prod.fst = [] ∧
      ¬ Answers exactEnv (DEFAULT_POLICY exactOps) brokenWorld inbox := by
  intro inbox
  have hraised : (respondAll exactEnv (DEFAULT_POLICY exactOps) brokenWorld false
      (group (subject exactEnv) inbox)).1.map Prod.fst = [] ∧
      (respondAll exactEnv (DEFAULT_POLICY exactOps) brokenWorld false
        (group (subject exactEnv) inbox)).2 = some .attr := by
    decide +kernel
  refine ⟨hraised.1, fun h => ?_⟩
  rw [h.1] at hraised
  cases hraised.2

section
variable {F : Type} {env : Env F} {policy : ResponsePolicy F} {beacons beacons' : List Dict}

def warrant (beacon : Dict) : Option Verdict := (evidenceVerdict beacon).toOption.join

def totalWeight (beacons : List Dict) : ℕ := (beacons.map fun b => weight (warrant b)).sum

lemma composeEvidence_of_readable (h : ∀ b ∈ beacons, ∃ ev, evidenceVerdict b = .ok ev) :
    composeEvidence beacons = .ok (totalEvidence (beacons.map warrant)) := by
  refine composeEvidence_eq (mapM_eq_ok fun b hb => ?_)
  obtain ⟨ev, hev⟩ := h b hb
  rw [warrant, hev]
  rfl

lemma map_weight_warrant (beacons : List Dict) :
    ((beacons.map warrant).map weight).sum = totalWeight beacons := by
  rw [map_map]
  rfl

lemma totalEvidence_mono {l l'} (h : (l.map weight).sum ≤ (l'.map weight).sum)
    {ev} (hev : totalEvidence l = some ev) : ∃ ev', totalEvidence l' = some ev' ∧ ev ≤ ev' := by
  unfold totalEvidence at hev ⊢
  dsimp only at hev ⊢
  generalize (l.map weight).sum = n at h hev
  generalize (l'.map weight).sum = n' at h
  split_ifs at hev ⊢ <;> first | omega | (cases hev; exact ⟨_, rfl, by decide⟩)

lemma totalEvidence_ne_none {l} : (∃ ev, totalEvidence l = some ev) ↔ 0 < (l.map weight).sum := by
  unfold totalEvidence
  dsimp only
  split_ifs <;> simp <;> omega

lemma Repeats.mem_iff (h : Repeats beacons beacons') {b} : b ∈ beacons' ↔ b ∈ beacons :=
  ⟨fun hb => h.2 hb, fun hb => h.1.subset hb⟩

lemma Repeats.totalWeight_le (h : Repeats beacons beacons') : totalWeight beacons ≤ totalWeight beacons' := by
  obtain ⟨l, hperm, hsub⟩ := h.1
  rw [totalWeight, totalWeight, ← (hperm.map _).sum_eq]
  exact (hsub.map _).sum_le_sum fun _ _ => Nat.zero_le _

lemma totalWeight_pos : 0 < totalWeight beacons ↔ ∃ b ∈ beacons, weight (warrant b) ≠ 0 := by
  rw [Nat.pos_iff_ne_zero, totalWeight, Ne, sum_eq_zero_iff]
  simp

lemma evidence_iff (h : ∀ b ∈ beacons, ∃ ev, evidenceVerdict b = .ok ev) :
    (∃ ev, composeEvidence beacons = .ok (some ev)) ↔ ∃ b ∈ beacons, weight (warrant b) ≠ 0 := by
  simp only [composeEvidence_of_readable h, ok.injEq]
  rw [totalEvidence_ne_none, map_weight_warrant, totalWeight_pos]

lemma Readable.congr (hmem : ∀ b, b ∈ beacons' ↔ b ∈ beacons) (h : Readable env policy beacons) :
    Readable env policy beacons' := by
  have hwarrants : ∀ b ∈ beacons', ∃ ev, evidenceVerdict b = .ok ev := fun b hb => h.warrants b ((hmem b).1 hb)
  have hset : (beacons'.map kindClass).toFinset = (beacons.map kindClass).toFinset := by
    ext k
    simp only [mem_toFinset, mem_map, hmem]
  refine ⟨hwarrants, fun b hb => h.norms b ((hmem b).1 hb), fun hn b hb => ?_, fun hn hev => ?_⟩
  · simp only [hmem] at hn
    exact h.iris hn b ((hmem b).1 hb)
  · rw [evidence_iff hwarrants] at hev
    simp only [hmem] at hn hev
    rw [hset]
    obtain ⟨hhash, hsorted⟩ := h.kinds hn ((evidence_iff h.warrants).2 hev)
    exact ⟨fun b hb => hhash b ((hmem b).1 hb), hsorted⟩

lemma foldl_min_mem (laws : List Verdict) (law : Verdict) : laws.foldl min law ∈ law :: laws := by
  induction laws generalizing law with
  | nil => exact mem_cons_self
  | cons l laws ih =>
    have h := ih (min law l)
    rw [foldl_cons]
    cases mem_cons.1 h with
    | inl h =>
      rw [h]
      rcases min_choice law l with h | h <;> simp [h]
    | inr h => exact mem_cons_of_mem _ (mem_cons_of_mem _ h)

lemma effectiveLaw_eq_ok (hne : beacons ≠ []) {law} : effectiveLaw policy beacons = .ok law ↔
    (∀ b ∈ beacons, ∃ l, policy.lawFor (kindClass b) = .ok l ∧ law ≤ l) ∧
      ∃ b ∈ beacons, policy.lawFor (kindClass b) = .ok law := by
  have hspec : ∀ law, effectiveLaw policy beacons = .ok law →
      (∀ b ∈ beacons, ∃ l, policy.lawFor (kindClass b) = .ok l ∧ law ≤ l) ∧
        ∃ b ∈ beacons, policy.lawFor (kindClass b) = .ok law := by
    intro law h
    refine ⟨fun b hb => ?_, ?_⟩
    · obtain ⟨l, hl⟩ := lawFor_returns.2 (effectiveLaw_returns.1 ⟨law, h⟩ b hb)
      exact ⟨l, hl, effectiveLaw_le h hb hl⟩
    · obtain ⟨laws, hlaws, h⟩ := bind_eq_ok.1 h
      have hall := forall₂_of_mapM_eq_ok hlaws
      cases laws with
      | nil => exact absurd (forall₂_nil_right_iff.1 hall) hne
      | cons l laws =>
        cases h
        exact exists_mem_of_forall₂ hall.flip (foldl_min_mem laws l)
  refine ⟨hspec law, fun h => ?_⟩
  obtain ⟨hall, b, hb, hlaw⟩ := h
  obtain ⟨law', hlaw'⟩ := (@effectiveLaw_returns F policy beacons).2 fun b hb => by
    obtain ⟨l, hl, -⟩ := hall b hb
    exact lawFor_returns.1 ⟨l, hl⟩
  obtain ⟨-, c, hc, hc'⟩ := hspec law' hlaw'
  obtain ⟨l, hl, hle⟩ := hall c hc
  cases hl.symm.trans hc'
  rw [hlaw', le_antisymm (effectiveLaw_le hlaw' hb hlaw) hle]

lemma Repeats.ne_nil (h : Repeats beacons beacons') (hne : beacons ≠ []) : beacons' ≠ [] :=
  fun hnil => hne (subperm_nil.1 (hnil ▸ h.1))

lemma Repeats.effectiveLaw_eq (h : Repeats beacons beacons') (hne : beacons ≠ []) {law}
    (hlaw : effectiveLaw policy beacons = .ok law) : effectiveLaw policy beacons' = .ok law := by
  rw [effectiveLaw_eq_ok hne] at hlaw
  rw [effectiveLaw_eq_ok (h.ne_nil hne)]
  simpa only [h.mem_iff] using hlaw

lemma Decided.unique {v v' a a'} (h : Decided env policy beacons v a)
    (h' : Decided env policy beacons v' a') : v = v' ∧ a = a' := by
  cases h with
  | fenced hf =>
    cases h' with
    | fenced _ => exact ⟨rfl, rfl⟩
    | unwarranted hn _ | reasoned hn _ _ => exact absurd hf hn
  | unwarranted hn hev =>
    cases h' with
    | fenced hf => exact absurd hf hn
    | unwarranted _ _ => exact ⟨rfl, rfl⟩
    | reasoned _ hev' _ => cases hev.symm.trans hev'
  | reasoned hn hev hlaw =>
    cases h' with
    | fenced hf => exact absurd hf hn
    | unwarranted _ hev' => cases hev.symm.trans hev'
    | reasoned _ hev' hlaw' =>
      cases hev.symm.trans hev'
      cases hlaw.symm.trans hlaw'
      exact ⟨rfl, rfl⟩

lemma conclusion_eq_some (hne : beacons ≠ []) {x} :
    conclusion env policy beacons = some x ↔ Readable env policy beacons ∧ Decided env policy beacons x.1 x.2 := by
  rw [← decideComposed_returns hne, conclusion]
  cases h : decideComposed env policy beacons with
  | error e => simp [Except.toOption]
  | ok r =>
    have hdecided := (decideComposed_eq_ok hne h).1
    simp only [Except.toOption, Option.map_some, Option.some.injEq, ok.injEq, exists_eq', true_and]
    refine ⟨fun hx => hx ▸ hdecided, fun hx => ?_⟩
    obtain ⟨hv, ha⟩ := hdecided.unique hx
    exact Prod.ext hv ha

/-- Where the evidence reaches the law, more of it makes no difference. -/
lemma Decided.repeats (hne : beacons ≠ []) (hr : Repeats beacons beacons')
    (hread : ∀ b ∈ beacons, ∃ ev, evidenceVerdict b = .ok ev)
    (hlaw : ∀ law ev, effectiveLaw policy beacons = .ok law → composeEvidence beacons = .ok (some ev) →
      law ≤ ev ∨ composeEvidence beacons' = composeEvidence beacons)
    {v a} (h : Decided env policy beacons v a) : Decided env policy beacons' v a := by
  have hread' : ∀ b ∈ beacons', ∃ ev, evidenceVerdict b = .ok ev := fun b hb => hread b (hr.mem_iff.1 hb)
  cases h with
  | fenced hf =>
    simp only [← hr.mem_iff] at hf
    exact .fenced hf
  | unwarranted hn hev =>
    have hnone : ¬ 0 < totalWeight beacons' := by
      rw [totalWeight_pos]
      simp only [hr.mem_iff]
      rw [← evidence_iff hread]
      simp [hev]
    rw [← map_weight_warrant, ← totalEvidence_ne_none, not_exists] at hnone
    simp only [← hr.mem_iff] at hn
    refine .unwarranted hn ?_
    rw [composeEvidence_of_readable hread', Option.eq_none_iff_forall_ne_some.2 hnone]
  | @reasoned law ev hn hev hl =>
    simp only [← hr.mem_iff] at hn
    have hl' := hr.effectiveLaw_eq hne hl
    cases hlaw law ev hl hev with
    | inr heq => exact .reasoned hn (heq.trans hev) hl'
    | inl hle =>
      rw [composeEvidence_of_readable hread, ok.injEq] at hev
      have hweight := hr.totalWeight_le
      rw [← map_weight_warrant, ← map_weight_warrant] at hweight
      obtain ⟨ev', hev', hle'⟩ := totalEvidence_mono hweight hev
      rw [min_eq_left hle, ← min_eq_left (hle.trans hle')]
      exact .reasoned hn (by rw [composeEvidence_of_readable hread', hev']) hl'

lemma sealed_of_repeated (hread : ∀ b ∈ beacons, ∃ ev, evidenceVerdict b = .ok ev) {b}
    (hb : b ∈ beacons) (hweight : weight (warrant b) ≠ 0) :
    Repeats beacons (b :: b :: beacons) ∧ composeEvidence (b :: b :: beacons) = .ok (some .sealed) := by
  have hmem : b :: b :: beacons ⊆ beacons := by simp [hb]
  refine ⟨⟨(sublist_cons_of_sublist _ (sublist_cons_self ..)).subperm, hmem⟩, ?_⟩
  rw [composeEvidence_of_readable fun c hc => hread c (hmem hc)]
  have hsum : 3 ≤ (((b :: b :: beacons).map warrant).map weight).sum := by
    have hle : weight (warrant b) ≤ totalWeight beacons := single_le_sum (by simp) _ (mem_map_of_mem hb)
    rw [map_weight_warrant, totalWeight, map_cons, map_cons, sum_cons, sum_cons]
    rw [totalWeight] at hle
    omega
  rw [totalEvidence, if_neg (by omega), if_pos hsum]

lemma composeEvidence_perm (hread : ∀ b ∈ beacons, ∃ ev, evidenceVerdict b = .ok ev)
    (hp : beacons'.Perm beacons) : composeEvidence beacons' = composeEvidence beacons := by
  rw [composeEvidence_of_readable hread, composeEvidence_of_readable fun b hb => hread b (hp.mem_iff.1 hb),
    totalEvidence, ((hp.map _).map _).sum_eq, totalEvidence]

/-- The same beacons, some of them repeated, lead to the same conclusion where the evidence that is added makes
no difference. -/
lemma conclusion_repeats (hne : beacons ≠ []) (hr : Repeats beacons beacons')
    (h : Readable env policy beacons → (∃ x ∈ beacons, Fenced env policy x) ∨
      ∀ law ev, effectiveLaw policy beacons = .ok law → composeEvidence beacons = .ok (some ev) →
        law ≤ ev ∨ composeEvidence beacons' = composeEvidence beacons) :
    conclusion env policy beacons' = conclusion env policy beacons := by
  have hne' := hr.ne_nil hne
  cases hconclusion : conclusion env policy beacons with
  | none =>
    refine Option.eq_none_iff_forall_ne_some.2 fun x hx => ?_
    -- The repeated beacons are read as the others are.
    have hread := ((conclusion_eq_some hne').1 hx).1.congr fun c => (hr.mem_iff (b := c)).symm
    obtain ⟨r, hr'⟩ := (decideComposed_returns hne).2 hread
    rw [conclusion, hr'] at hconclusion
    cases hconclusion
  | some x =>
    obtain ⟨hread, hdecided⟩ := (conclusion_eq_some hne).1 hconclusion
    refine (conclusion_eq_some hne').2 ⟨hread.congr fun _ => hr.mem_iff, ?_⟩
    rcases h hread with hf | h
    · obtain ⟨hv, ha⟩ := hdecided.unique (.fenced hf)
      rw [hv, ha]
      simp only [← hr.mem_iff] at hf
      exact .fenced hf
    · exact hdecided.repeats hne hr hread.warrants h
end

/-- Python `decide_composed`: the order of the beacons makes no difference, and repetition makes none exactly if
nothing is decided, a beacon is fenced, or the evidence reaches the law. -/
theorem repetitionInert_iff {F : Type} (env : Env F) (policy : ResponsePolicy F) (b : Dict)
    (bs : List Dict) :
    (∀ beacons', beacons'.Perm (b :: bs) → conclusion env policy beacons' = conclusion env policy (b :: bs)) ∧
    (RepetitionInert env policy (b :: bs) ↔
      (¬∃ r, decideComposed env policy (b :: bs) = .ok r) ∨ (∃ x ∈ b :: bs, Fenced env policy x) ∨
        ∀ law ev, effectiveLaw policy (b :: bs) = .ok law → composeEvidence (b :: bs) = .ok (some ev) →
          law ≤ ev) := by
  have hne : b :: bs ≠ [] := cons_ne_nil b bs
  refine ⟨fun beacons' hp => ?_, ?_⟩
  · exact conclusion_repeats hne ⟨hp.symm.subperm, hp.subset⟩ fun hread =>
      .inr fun _ _ _ _ => .inr (composeEvidence_perm hread.warrants hp)
  rw [decideComposed_returns hne]
  constructor
  · intro hinert
    by_contra h
    push Not at h
    obtain ⟨hread, hfence, law, ev, hlaw, hev, hlt⟩ := h
    have hn : ¬∃ x ∈ b :: bs, Fenced env policy x := by
      push Not
      exact hfence
    obtain ⟨c, hc, hweight⟩ := (evidence_iff hread.warrants).1 ⟨ev, hev⟩
    obtain ⟨hr, hsealed⟩ := sealed_of_repeated hread.warrants hc hweight
    have hbefore := (conclusion_eq_some hne (x := ((min law ev : Verdict), policy.actionFor (min law ev)))).2
      ⟨hread, .reasoned hn hev hlaw⟩
    have hn' : ¬∃ x ∈ c :: c :: b :: bs, Fenced env policy x := by simpa only [hr.mem_iff] using hn
    have hafter := (conclusion_eq_some (cons_ne_nil _ _)
      (x := ((min law .sealed : Verdict), policy.actionFor (min law .sealed)))).2
      ⟨hread.congr fun _ => hr.mem_iff, .reasoned hn' hsealed (hr.effectiveLaw_eq hne hlaw)⟩
    have heq := (hafter.symm.trans (hinert _ hr)).trans hbefore
    have htop : law ≤ .sealed := by cases law <;> decide
    have hverdict := WithBot.coe_injective (congrArg Prod.fst (Option.some.inj heq))
    rw [min_eq_left htop, min_eq_right hlt.le] at hverdict
    exact absurd hverdict hlt.ne'
  · intro h beacons' hr
    refine conclusion_repeats hne hr fun hread => ?_
    rcases h with h | hf | h
    · exact absurd hread h
    · exact .inl hf
    · exact .inr fun law ev hlaw hev => .inl (h law ev hlaw hev)

def flakyBeacon : Dict :=
  .ofList [("kind_class", .str "mirror_drift"), ("system", .str "svc"),
    ("evidence", .dict (.ofList [("detector", .str "probe")]))]

/-- Seen twice, it is fixed without a canary. -/
theorem repeated_beacon_corroborates :
    conclusion exactEnv (DEFAULT_POLICY exactOps) [flakyBeacon] =
        some ((Verdict.probable : WithBot Verdict), .canaryFix) ∧
      conclusion exactEnv (DEFAULT_POLICY exactOps) [flakyBeacon, flakyBeacon] =
        some ((Verdict.sealed : WithBot Verdict), .autoFix) ∧
      ¬ RepetitionInert exactEnv (DEFAULT_POLICY exactOps) [flakyBeacon] := by
  have honce : conclusion exactEnv (DEFAULT_POLICY exactOps) [flakyBeacon] =
      some ((Verdict.probable : WithBot Verdict), .canaryFix) := by decide +kernel
  have htwice : conclusion exactEnv (DEFAULT_POLICY exactOps) [flakyBeacon, flakyBeacon] =
      some ((Verdict.sealed : WithBot Verdict), .autoFix) := by decide +kernel
  refine ⟨honce, htwice, fun h => ?_⟩
  have heq := h [flakyBeacon, flakyBeacon] ⟨(sublist_cons_self ..).subperm, by simp⟩
  rw [honce, htwice] at heq
  exact absurd heq (by decide)

end SocioWorkspace.Respond
