import SocioWorkspace.Omnirisk.Rollup

/-!
# Trees that declare their own roll-up

The walker of `gbrg/governance/omnirisk_allocation.py` compares what an inner node declares with what it
computes, and holds the declared duration against the band of the leaf durations. The roll-up is outside of the
band where the total value is not positive or a value is negative.
-/

namespace SocioWorkspace.Omnirisk
open RoseTree List

/-- The violations that compare a declared figure with the roll-up. -/
def Violation.aggregation : Violation ℚ → Bool
  | conservation .. => true
  | bounds .. => true
  | weighted .. => true
  | _ => false

def Quiet (vs : List (Violation ℚ)) : Prop := ∀ v ∈ vs, v.aggregation = false

@[simp] lemma quiet_nil : Quiet [] := fun _ h => nomatch h

@[simp] lemma quiet_singleton {v} : Quiet [v] ↔ v.aggregation = false := List.forall_mem_singleton

@[simp] lemma quiet_append {vs ws} : Quiet (vs ++ ws) ↔ Quiet vs ∧ Quiet ws := List.forall_mem_append

lemma quiet_ite {c : Prop} [Decidable c] {vs ws} (hv : Quiet vs) (hw : Quiet ws) :
    Quiet (if c then vs else ws) := by
  split
  · exact hv
  · exact hw

section
variable {flags : Flags} {ref : String} {data : NodeData ℚ}

lemma quiet_ownChecks : Quiet (ownChecks data) := by
  have hregime : Quiet (validateRegime data.ref data) := by
    unfold validateRegime
    split
    · exact quiet_singleton.2 rfl
    · exact quiet_singleton.2 rfl
    · exact quiet_ite quiet_nil (quiet_singleton.2 rfl)
  have hclass : Quiet (assetClassOk data.ref data) := by
    unfold assetClassOk
    split
    · exact quiet_ite quiet_nil (quiet_singleton.2 rfl)
    · exact quiet_singleton.2 rfl
  have hstructure : Quiet (validateStructure data.ref data) := by
    unfold validateStructure
    split
    · exact quiet_nil
    · refine quiet_ite ?_ quiet_nil
      split
      · exact quiet_ite quiet_nil (quiet_singleton.2 rfl)
      · exact quiet_singleton.2 rfl
  exact quiet_append.2 ⟨quiet_append.2 ⟨hregime, hclass⟩, hstructure⟩

lemma quiet_leafAgg : Quiet (leafAgg ref data).2 := quiet_ite (quiet_singleton.2 rfl) quiet_nil

lemma quiet_coherenceGate {children} : Quiet (coherenceGate flags ref children) := by
  intro v hv
  obtain ⟨c, -, hc⟩ := mem_filterMap.1 hv
  split at hc
  · split at hc
    · cases hc
      rfl
    · cases hc
  · cases hc

lemma quiet_checkHomogeneity {aggs} : Quiet (checkHomogeneity ref aggs flags.rescale) := by
  refine quiet_ite quiet_nil ?_
  refine quiet_append.2 ⟨quiet_append.2 ⟨?_, ?_⟩, ?_⟩
  · exact quiet_ite (quiet_singleton.2 rfl) quiet_nil
  · exact forall_mem_map.2 fun _ _ => rfl
  · exact quiet_ite (quiet_singleton.2 rfl) quiet_nil

/-- A figure within the band of some inputs, up to the tolerance. -/
def Banded (inputs : List ℚ) (d : ℚ) : Prop := (∃ x ∈ inputs, x - TOL ≤ d) ∧ ∃ x ∈ inputs, d ≤ x + TOL

variable {name : String} {d : ℚ}

lemma quiet_checkWeighted_nil : Quiet (checkWeighted ref name d d []) := by
  have hz : ¬RECONCILE_TOL < |d - d| := by
    rw [sub_self, abs_zero]
    decide +kernel
  show Quiet (if RECONCILE_TOL < |d - d| then _ else [])
  rw [if_neg hz]
  exact quiet_nil

lemma quiet_checkWeighted {inputs} (hne : inputs ≠ []) :
    Quiet (checkWeighted ref name d d inputs) ↔ Banded inputs d := by
  obtain ⟨lo, hlo⟩ := Option.ne_none_iff_exists'.1 (mt min?_eq_none_iff.1 hne)
  obtain ⟨hi, hhi⟩ := Option.ne_none_iff_exists'.1 (mt max?_eq_none_iff.1 hne)
  obtain ⟨hlomem, hlole⟩ := min?_eq_some_iff.1 hlo
  obtain ⟨himem, hhile⟩ := max?_eq_some_iff.1 hhi
  have hband : Banded inputs d ↔ lo - TOL ≤ d ∧ d ≤ hi + TOL := by
    refine ⟨?_, fun h => ⟨⟨lo, hlomem, h.1⟩, hi, himem, h.2⟩⟩
    intro ⟨⟨x, hx, hxd⟩, y, hy, hdy⟩
    exact ⟨(sub_le_sub_right (hlole x hx) TOL).trans hxd, hdy.trans (add_le_add_left (hhile y hy) TOL)⟩
  rw [hband, checkWeighted, hlo, hhi]
  by_cases hout : d < lo - TOL ∨ hi + TOL < d
  · simp only [if_pos hout, quiet_singleton, Violation.aggregation, Bool.true_eq_false, false_iff]
    intro ⟨h1, h2⟩
    exact hout.elim (not_lt.2 h1) (not_lt.2 h2)
  · simp only [if_neg hout]
    obtain ⟨h1, h2⟩ := not_or.1 hout
    exact iff_of_true quiet_checkWeighted_nil ⟨not_lt.1 h1, not_lt.1 h2⟩

structure DeclaresOwn (data : NodeData ℚ) (a : NodeAgg ℚ) : Prop where
  ec : ∀ x, data.risk.economicCapital = some x → x = a.ec
  duration : ∀ x, data.term.duration = some x → x = a.duration
  convexity : ∀ x, data.term.convexity = some x → x = a.convexity
  averageLife : ∀ x, data.term.averageLife = some x → x = a.averageLife

variable {aggs : List (NodeAgg ℚ)}

/-- At a node that declares its own roll-up only the band of the duration is compared. -/
lemma quiet_checkRollUp (h : DeclaresOwn data (rollUp data.ref data aggs))
    (hne : (rollUp data.ref data aggs).leafDurations ≠ []) :
    Quiet (checkRollUp flags data.ref data aggs) ↔ (data.term.duration ≠ none →
      Banded (rollUp data.ref data aggs).leafDurations (rollUp data.ref data aggs).duration) := by
  simp only [checkRollUp, quiet_append]
  refine ⟨?_, ?_⟩
  · rintro ⟨⟨⟨⟨-, hq⟩, -⟩, -⟩, -⟩ hsome
    obtain ⟨d, hd⟩ := Option.ne_none_iff_exists'.1 hsome
    simp only [hd, ← h.duration d hd] at hq
    rw [← h.duration d hd]
    exact (quiet_checkWeighted hne).1 hq
  · intro hband
    refine ⟨⟨⟨⟨⟨⟨quiet_checkHomogeneity, ?_⟩, ?_⟩, ?_⟩, ?_⟩, ?_⟩, ?_⟩
    · exact quiet_ite (quiet_singleton.2 rfl) quiet_nil
    · cases he : data.risk.economicCapital with
      | none => exact quiet_nil
      | some ec =>
        have hz : ¬TOL < |ec - (rollUp data.ref data aggs).ec| := by
          rw [h.ec ec he, sub_self, abs_zero]
          decide +kernel
        simp only [figures_abs, if_neg hz, quiet_nil]
    · cases hd : data.term.duration with
      | none => exact quiet_nil
      | some d =>
        have hb := hband (by simp [hd])
        rw [← h.duration d hd] at hb ⊢
        exact (quiet_checkWeighted hne).2 hb
    · cases hc : data.term.convexity with
      | none => exact quiet_nil
      | some c =>
        rw [← h.convexity c hc]
        exact quiet_checkWeighted_nil
    · cases hl : data.term.averageLife with
      | none => exact quiet_nil
      | some l =>
        rw [← h.averageLife l hl]
        exact quiet_checkWeighted_nil
    · exact quiet_ite (quiet_singleton.2 rfl) quiet_nil

end

/-- Every inner node declares nothing but what the walker computes for it. -/
def SelfConsistent (flags : Flags) (t : Node ℚ) : Prop :=
  ∀ n ∈ t.subtrees, n.children ≠ [] → ∀ a vs, walk flags n = .ok (a, vs) → DeclaresOwn n.label a

/-- The duration of the leaves below a node lies in their band; where the total value is not positive, the
band has to hold 0. -/
def InBand (n : Node ℚ) : Prop :=
  let value := n.weight (·.value)
  let carried := n.moment (·.value) (·.duration) - n.lost (·.value) (·.duration)
  if 0 < value then
    (∃ l ∈ n.leaves, value * (l.duration - TOL) ≤ carried) ∧
      ∃ l ∈ n.leaves, carried ≤ value * (l.duration + TOL)
  else (∃ l ∈ n.leaves, l.duration ≤ TOL) ∧ ∃ l ∈ n.leaves, -TOL ≤ l.duration

lemma agg_leafDurations (t : Node ℚ) : (agg t).leafDurations = t.leaves.map (·.duration) := by
  rw [List.map_eq_flatMap]
  exact fold_flatMap NodeAgg.leafDurations (fun _ _ => rfl) t

lemma banded_iff_inBand {n} (hn : n.children ≠ []) :
    Banded (agg n).leafDurations (agg n).duration ↔ InBand n := by
  simp only [Banded, InBand, agg_leafDurations, List.mem_map, exists_exists_and_eq_and]
  by_cases hv : 0 < n.weight (·.value)
  · have hcarried : n.moment (·.value) (·.duration) - n.lost (·.value) (·.duration) =
        n.weight (·.value) * (agg n).duration :=
      sub_eq_of_eq_add (duration_isAverage.weight_mul_add_lost n).symm
    simp only [if_pos hv, hcarried, mul_le_mul_iff_right₀ hv]
  · have hzero : (agg n).duration = 0 := by
      rw [duration_isAverage.eq_bare hv, bare, if_neg (by simpa using hn)]
    simp only [if_neg hv, hzero, sub_nonpos, neg_le_iff_add_nonneg]

variable {flags : Flags}

lemma quiet_nodeChecks {n} (h : n.children ≠ [] → DeclaresOwn n.label (agg n)) :
    Quiet (nodeChecks flags n) ↔
      (n.children ≠ [] → n.label.term.duration ≠ none → InBand n) := by
  cases n with
  | node data cs =>
    by_cases hcs : cs = []
    · subst hcs
      rw [nodeChecks_leaf, quiet_append]
      exact iff_of_true ⟨quiet_ownChecks, quiet_leafAgg⟩ fun hn => (hn rfl).elim
    · have hagg : agg (.node data cs) = rollUp data.ref data (cs.map agg) := agg_node data hcs
      have hdecl : DeclaresOwn data (agg (.node data cs)) := h hcs
      have hne : (agg (.node data cs)).leafDurations ≠ [] := by
        rw [agg_leafDurations]
        simpa using leaves_ne_nil _
      rw [hagg] at hdecl hne
      rw [nodeChecks_inner data hcs, quiet_append, quiet_append, quiet_checkRollUp hdecl hne, ← hagg,
        banded_iff_inBand (n := .node data cs) hcs]
      exact ⟨fun hq _ => hq.2.2, fun hq => ⟨quiet_ownChecks, quiet_coherenceGate, hq hcs⟩⟩

/-- A tree that declares its own roll-up passes the two checks exactly if every inner node that declares a
duration is in band. -/
theorem selfConsistent_iff {flags : Flags} {t : Node ℚ} {a vs} (hw : walk flags t = .ok (a, vs))
    (hc : SelfConsistent flags t) :
    Quiet vs ↔ ∀ n ∈ t.subtrees, n.children ≠ [] → n.label.term.duration ≠ none → InBand n := by
  have hown : ∀ n ∈ t.subtrees, n.children ≠ [] → DeclaresOwn n.label (agg n) := by
    intro n hn hch
    have href : ∀ s ∈ n.subtrees, s.label.ref ≠ "" :=
      fun s hs => (walk_returns t).1 ⟨_, hw⟩ s (subtrees_trans hs hn)
    obtain ⟨⟨b, vb⟩, hb⟩ : ∃ r, walk flags n = .ok r := (walk_returns n).2 href
    rw [← (walk_spec n b vb hb).1]
    exact hc n hn hch b vb hb
  have hlog : Quiet vs ↔ ∀ n ∈ t.subtrees, Quiet (nodeChecks flags n) := by
    simp only [Quiet, (walk_logged t a vs hw).2]
    exact ⟨fun h n hn v hv => h v ⟨n, hn, hv⟩, fun h v ⟨n, hn, hv⟩ => h n hn v hv⟩
  rw [hlog]
  exact forall₂_congr fun n hn => quiet_nodeChecks (hown n hn)

def declaredRoot (duration : ℚ) : NodeData ℚ where
  nodeRef := some "desk"
  label := ⟨some REQUIRED_REGIME_KEYS, some "credit", none⟩
  risk := ⟨none, none, none, some 0, none, none, none, none, none⟩
  term := ⟨some duration, some 0, some 0, none, none, none, none⟩

def declaredDesk (long short : ℚ × ℚ) (duration : ℚ) : Node ℚ :=
  .node (declaredRoot duration)
    ([creditPosition "long" long.1 long.2, creditPosition "short" short.1 short.2].map (.node · []))

lemma selfConsistent_desk {long short} {duration : ℚ}
    (hec : 0 = (agg (declaredDesk long short duration)).ec)
    (hd : duration = (agg (declaredDesk long short duration)).duration)
    (hc : 0 = (agg (declaredDesk long short duration)).convexity)
    (hl : 0 = (agg (declaredDesk long short duration)).averageLife) :
    SelfConsistent flags (declaredDesk long short duration) := by
  intro n hn hch a vs hw
  cases mem_subtrees_node.1 hn with
  | inl hroot =>
    subst hroot
    rw [(walk_spec _ a vs hw).1]
    refine ⟨?_, ?_, ?_, ?_⟩
    · rintro x ⟨⟩
      exact hec
    · rintro x ⟨⟩
      exact hd
    · rintro x ⟨⟩
      exact hc
    · rintro x ⟨⟩
      exact hl
  | inr hbelow =>
    obtain ⟨c, hc, hnc⟩ := hbelow
    obtain ⟨l, -, rfl⟩ := mem_map.1 hc
    obtain rfl : n = .node l [] := mem_singleton.1 hnc
    exact (hch rfl).elim

def noFlags : Flags := ⟨false, false, false⟩

theorem selfConsistent_iff_desk : ∃ a vs,
    walk noFlags (declaredDesk (10, 5) (10, 2) (7 / 2)) = .ok (a, vs) ∧
    SelfConsistent noFlags (declaredDesk (10, 5) (10, 2) (7 / 2)) ∧
    (Quiet vs ↔ ∀ n ∈ (declaredDesk (10, 5) (10, 2) (7 / 2)).subtrees, n.children ≠ [] →
      n.label.term.duration ≠ none → InBand n) := by
  have hw : walk noFlags (declaredDesk (10, 5) (10, 2) (7 / 2)) = .ok (_, _) := rfl
  have hc : SelfConsistent noFlags (declaredDesk (10, 5) (10, 2) (7 / 2)) :=
    selfConsistent_desk (by decide +kernel) (by decide +kernel) (by decide +kernel) (by decide +kernel)
  exact ⟨_, _, hw, hc, selfConsistent_iff hw hc⟩

/-- The desk declares what the walker computes, 0 and 32, and is rejected because the positions have
durations 5 and 2. -/
theorem own_duration_rejected :
    (SelfConsistent noFlags (declaredDesk (0, 5) (0, 2) 0) ∧
      ((walk noFlags (declaredDesk (0, 5) (0, 2) 0)).toOption.map fun r =>
        (r.1.duration, r.2.filter (·.aggregation) |>.map (·.text .decimal))) =
        some (0, ["REJECTED: node 'desk' duration 0.0 is outside its children's [2.0, 5.0] (a weighted average is bounded by its inputs)"])) ∧
    (SelfConsistent noFlags (declaredDesk (10, 5) (-9, 2) 32) ∧
      ((walk noFlags (declaredDesk (10, 5) (-9, 2) 32)).toOption.map fun r =>
        (r.1.duration, r.2.filter (·.aggregation) |>.map (·.text .decimal))) =
        some (32, ["REJECTED: node 'desk' duration 32.0 is outside its children's [2.0, 5.0] (a weighted average is bounded by its inputs)"])) := by
  refine ⟨⟨?_, ?_⟩, ?_, ?_⟩
  · exact selfConsistent_desk (by decide +kernel) (by decide +kernel) (by decide +kernel) (by decide +kernel)
  · decide +kernel
  · exact selfConsistent_desk (by decide +kernel) (by decide +kernel) (by decide +kernel) (by decide +kernel)
  · decide +kernel

end SocioWorkspace.Omnirisk
