import SocioWorkspace.Lib.Basic
import SocioWorkspace.Mesh.Threat

/-!
# What the resolved signal says about the reports

`aggregate_vantages` of `automation/mesh_threat.py`: over exact fractions, and for `aggregate_seen_iff` over all
fractions whose mean lies between them.

`aggregateVantages_eq` writes `aggregate_vantages` out. `aggregate_robust` says that honest reporters in the
majority bound the resolved signal, and `aggregate_seen_iff` when a level that every report reaches is reached
by all.
-/

namespace SocioWorkspace.Mesh
open Median SocioWorkspace.Lists List

section
variable {F : Type} {reports honest liars : List (VantageReport F)}
  (hperm : reports.Perm (honest ++ liars)) (hmajority : liars.length < honest.length)
include hperm hmajority

lemma reports_ne_nil : reports ≠ [] := by
  rintro rfl
  obtain ⟨rfl, -⟩ := append_eq_nil_iff.1 (nil_perm.1 hperm)
  exact Nat.not_lt_zero _ hmajority

lemma median_of_honest {α : Type} [LinearOrder α] [Zero α] {mean : α → α → α}
    (hmean : Between mean) (figure : VantageReport F → α) :
    (∃ r ∈ honest, figure r ≤ median mean (reports.map figure)) ∧
      ∃ r ∈ honest, median mean (reports.map figure) ≤ figure r := by
  have hfigures := hperm.map figure
  rw [map_append] at hfigures
  obtain ⟨⟨a, ha, hle⟩, b, hb, hge⟩ := median_of_majority hmean hfigures (by simpa using hmajority)
  obtain ⟨r, hr, rfl⟩ := mem_map.1 ha
  obtain ⟨r', hr', rfl⟩ := mem_map.1 hb
  exact ⟨⟨r, hr, hle⟩, r', hr', hge⟩

lemma length_lt_of_honest {p : VantageReport F → Bool} (h : ∀ r ∈ honest, p r = true) :
    reports.length < 2 * reports.countP p := by
  rw [hperm.countP_eq, hperm.length_eq, countP_append, length_append, countP_eq_length.2 h]
  omega

lemma exists_suspects (h : reports.length < 2 * reports.countP (·.partitionSuspected)) :
    ∃ r ∈ honest, r.partitionSuspected = true := by
  by_contra hnone
  push Not at hnone
  have hcount := length_lt_of_honest hperm hmajority (p := fun r => !r.partitionSuspected)
    fun r hr => by simpa using hnone r hr
  obtain ⟨r, -, hr, hr'⟩ := exists_of_majorities h hcount
  rw [hr] at hr'
  cases hr'

end

local instance atLeastTwo_two : Nat.AtLeastTwo 2 := ⟨le_rfl⟩

section
variable {F : Type} [LinearOrder F] [Add F] [Div F] [Zero F] [One F] [OfNat F 2]
  {reports : List (VantageReport F)} {quorum : ℤ}

def alone (r : VantageReport F) : ThreatSignals F := aggregateVantages [r] 1

lemma alone_eq (r : VantageReport F) :
    alone r = ⟨r.unreachableFraction, r.anomaliesSeen, r.partitionSuspected, 1⟩ := by
  rw [alone, aggregateVantages, aggregateWith, if_neg (by simp)]
  cases h : r.partitionSuspected <;> simp [median, upper, h]

lemma aggregateVantages_eq (hquorum : quorum ≤ reports.length) (hne : reports ≠ []) :
    aggregateVantages reports quorum =
      { unreachableFraction := median half (reports.map (·.unreachableFraction))
        anomalies := median halfCount (reports.map (·.anomaliesSeen))
        partition := reports.length < 2 * reports.countP (·.partitionSuspected)
        vantages := reports.length } := by
  rw [aggregateVantages, aggregateWith, if_neg]
  rintro (hfew | hnil)
  · exact absurd hquorum (not_le.2 hfew)
  · exact hne hnil

lemma vantages_ne_zero (hquorum : quorum ≤ reports.length) (hne : reports ≠ []) :
    (aggregateVantages reports quorum).vantages ≠ 0 := by
  rw [aggregateVantages_eq hquorum hne]
  exact (length_pos_iff.2 hne).ne'

end

lemma between_halfCount : Between halfCount := between_tdiv

section
variable {F : Type} [Field F] [LinearOrder F] [IsStrictOrderedRing F]
  {reports honest liars : List (VantageReport F)} {policy : ThreatPolicy F} {quorum : ℤ}
  (hperm : reports.Perm (honest ++ liars)) (hmajority : liars.length < honest.length)
  (hquorum : quorum ≤ reports.length)
include hperm hmajority hquorum

/-- A level that the resolved signal reaches is reached by an honest report alone. -/
lemma exists_reaches {level} (h : (aggregateVantages reports quorum).Reaches policy level) :
    ∃ r ∈ honest, (alone r).Reaches policy level := by
  obtain ⟨-, u, hu, hule⟩ := median_of_honest hperm hmajority between_half fun r => r.unreachableFraction
  obtain ⟨-, a, ha, hale⟩ := median_of_honest hperm hmajority between_halfCount fun r => r.anomaliesSeen
  rw [aggregateVantages_eq hquorum (reports_ne_nil hperm hmajority)] at h
  -- the hostile signals first: they make a mesh elevated too
  have hhostile : ∀ {partition n}, (partition = true → reports.length <
        2 * reports.countP (·.partitionSuspected)) →
      ThreatSignals.Hostile ⟨median half (reports.map (·.unreachableFraction)),
        median halfCount (reports.map (·.anomaliesSeen)), partition, n⟩ policy →
      ∃ r ∈ honest, (alone r).Hostile policy := by
    intro partition n hp h
    rcases h with h | h | h
    · obtain ⟨r, hr, hs⟩ := exists_suspects hperm hmajority (hp h)
      exact ⟨r, hr, by rw [alone_eq]; exact .inl hs⟩
    · exact ⟨u, hu, by rw [alone_eq]; exact .inr (.inl (h.trans hule))⟩
    · exact ⟨a, ha, by rw [alone_eq]; exact .inr (.inr (h.trans hale))⟩
  cases level with
  | calm => exact ⟨u, hu, trivial⟩
  | hostile => exact hhostile of_decide_eq_true h
  | elevated =>
    rcases h with h | h | h
    · obtain ⟨r, hr, hh⟩ := hhostile of_decide_eq_true h
      exact ⟨r, hr, .inl hh⟩
    · refine ⟨u, hu, .inr (.inl ?_)⟩
      rw [alone_eq]
      exact h.trans hule
    · refine ⟨a, ha, .inr (.inr ?_)⟩
      rw [alone_eq]
      exact h.trans hale

/-- With a strict majority of honest reports the signal lies within their range, and its level is at most
that of one of them. -/
theorem aggregate_robust (policy : ThreatPolicy F) :
    let sig := aggregateVantages reports quorum
    ((∃ r ∈ honest, r.unreachableFraction ≤ sig.unreachableFraction) ∧
      ∃ r ∈ honest, sig.unreachableFraction ≤ r.unreachableFraction) ∧
    ((∃ r ∈ honest, r.anomaliesSeen ≤ sig.anomalies) ∧ ∃ r ∈ honest, sig.anomalies ≤ r.anomaliesSeen) ∧
    (∀ b, (∀ r ∈ honest, r.partitionSuspected = b) → sig.partition = b) ∧
    ∃ r ∈ honest, rawLevel sig policy ≤ rawLevel (alone r) policy := by
  have hne := reports_ne_nil hperm hmajority
  have heq := aggregateVantages_eq hquorum hne
  refine ⟨?_, ?_, ?_, ?_⟩
  · rw [heq]
    exact median_of_honest hperm hmajority between_half fun r => r.unreachableFraction
  · rw [heq]
    exact median_of_honest hperm hmajority between_halfCount fun r => r.anomaliesSeen
  · intro b hb
    rw [heq]
    cases b with
    | true => exact decide_eq_true (length_lt_of_honest hperm hmajority hb)
    | false =>
      refine decide_eq_false fun h => ?_
      obtain ⟨r, hr, hs⟩ := exists_suspects hperm hmajority h
      rw [hb r hr] at hs
      cases hs
  · obtain ⟨r, hr, hreaches⟩ := exists_reaches hperm hmajority hquorum
      ((le_rawLevel_iff (vantages_ne_zero hquorum hne)).1 (le_refl (rawLevel _ policy)))
    refine ⟨r, hr, (le_rawLevel_iff ?_).2 hreaches⟩
    rw [alone_eq]
    exact Nat.one_ne_zero

end

def twoHonest : List (VantageReport ℚ) := [⟨"m0", 1 / 20, 0, false⟩, ⟨"m1", 1 / 10, 1, false⟩]

def oneLiar : List (VantageReport ℚ) := [⟨"liar", 1, 50, true⟩]

/-- The liar does not raise the level above that of the honest vantages. -/
theorem aggregate_robust_liar :
    (∃ r ∈ twoHonest, rawLevel (aggregateVantages (oneLiar ++ twoHonest) 3) declaredPolicy ≤
      rawLevel (alone r) declaredPolicy) ∧
    (aggregateVantages (oneLiar ++ twoHonest) 3).partition = false := by
  have hperm : (oneLiar ++ twoHonest).Perm (twoHonest ++ oneLiar) := perm_append_comm
  have hquorum : (3 : ℤ) ≤ (oneLiar ++ twoHonest).length := by decide
  have h := aggregate_robust hperm (by decide) hquorum declaredPolicy
  exact ⟨h.2.2.2, h.2.2.1 false (by simp [twoHonest])⟩

section
variable {F : Type} [LinearOrder F] [Add F] [Div F] [Zero F] [One F] [OfNat F 2]
  {reports : List (VantageReport F)} {policy : ThreatPolicy F} {quorum : ℤ} {level : Level}

section
variable (policy : ThreatPolicy F) (reports : List (VantageReport F))

/-- Most vantages suspect a partition, or most report a figure that reaches its bound, or half of them do
and the mean of the middle figures does. -/
def HostileCorroborated : Prop :=
  reports.length < 2 * reports.countP (·.partitionSuspected) ∨
  Reached half policy.hostileMinUnreachable (reports.map (·.unreachableFraction)) ∨
  Reached halfCount policy.hostileMinAnomalies (reports.map (·.anomaliesSeen))

def Corroborated : Level → Prop
  | .calm => True
  | .elevated => HostileCorroborated policy reports ∨
    Reached half policy.elevatedMinUnreachable (reports.map (·.unreachableFraction)) ∨
    Reached halfCount policy.elevatedMinAnomalies (reports.map (·.anomaliesSeen))
  | .hostile => HostileCorroborated policy reports

end

variable (hhalf : Between (half : F → F → F)) (hquorum : quorum ≤ reports.length)
include hhalf hquorum

lemma le_aggregate_iff (hne : reports ≠ []) :
    level ≤ rawLevel (aggregateVantages reports quorum) policy ↔
      Corroborated policy reports level := by
  have hmap : ∀ {α : Type} (figure : VantageReport F → α), reports.map figure ≠ [] :=
    fun figure h => hne (map_eq_nil_iff.1 h)
  rw [le_rawLevel_iff (vantages_ne_zero hquorum hne), aggregateVantages_eq hquorum hne]
  have hhostile : ThreatSignals.Hostile ⟨median half (reports.map (·.unreachableFraction)),
      median halfCount (reports.map (·.anomaliesSeen)),
      decide (reports.length < 2 * reports.countP (·.partitionSuspected)), reports.length⟩ policy ↔
      HostileCorroborated policy reports :=
    or_congr decide_eq_true_iff
      (or_congr (le_median_iff hhalf (hmap _)) (le_median_iff between_halfCount (hmap _)))
  cases level with
  | calm => exact Iff.rfl
  | hostile => exact hhostile
  | elevated =>
    exact or_congr hhostile
      (or_congr (le_median_iff hhalf (hmap _)) (le_median_iff between_halfCount (hmap _)))

/-- Python `aggregate_vantages` and `_raw_level`, for counts below `2 ^ 52`, whose means are exact: a level that
every report reaches alone is reached by all together just when one of its signals is corroborated. -/
theorem aggregate_seen_iff {mean : ℤ → ℤ → ℤ}
    (hmean : ∀ a b : ℤ, |a| < 2 ^ 52 → |b| < 2 ^ 52 → mean a b = halfCount a b)
    (hsmall : ∀ r ∈ reports, |r.anomaliesSeen| < 2 ^ 52) :
    ((∀ r ∈ reports, level ≤ rawLevel (aggregateWith mean [r] 1) policy) →
      level ≤ rawLevel (aggregateWith mean reports quorum) policy) ↔
    ((∀ r ∈ reports, level ≤ rawLevel (alone r) policy) →
      reports = [] ∨ Corroborated policy reports level) := by
  have hexact : ∀ {reports' : List (VantageReport F)} {quorum' : ℤ}, reports' ⊆ reports → reports' ≠ [] →
      aggregateWith mean reports' quorum' = aggregateVantages reports' quorum' := by
    intro reports' quorum' hsub hne
    have hmedian : median mean (reports'.map (·.anomaliesSeen)) =
        median halfCount (reports'.map (·.anomaliesSeen)) := by
      refine median_congr (forall_mem_map.2 fun a ha => forall_mem_map.2 fun b hb => ?_) (by simpa using hne)
      exact hmean _ _ (hsmall a (hsub ha)) (hsmall b (hsub hb))
    rw [aggregateVantages, aggregateWith, aggregateWith, hmedian]
  refine imp_congr (forall₂_congr fun r hr => ?_) ?_
  · rw [alone, hexact (cons_subset.2 ⟨hr, nil_subset _⟩) (cons_ne_nil _ _)]
  by_cases hne : reports = []
  · refine iff_of_true ?_ (.inl hne)
    rw [aggregateWith, if_pos (.inr hne), rawLevel_blind rfl]
    exact level.le_hostile
  · rw [hexact (List.Subset.refl _) hne, le_aggregate_iff hhalf hquorum hne]
    exact (or_iff_right hne).symm

end

def threeReasons : List (VantageReport ℚ) :=
  [⟨"a", 3 / 10, 0, false⟩, ⟨"b", 0, 3, false⟩, ⟨"c", 0, 0, true⟩]

/-- If two of four vantages agree on the reason then the mean of the middle figures corroborates it. -/
theorem aggregate_seen_iff_two : Level.hostile ≤ rawLevel (aggregateWith halfCount
    [⟨"a", 3 / 10, 0, false⟩, ⟨"b", 3 / 10, 3, false⟩, ⟨"c", 1 / 5, 7, true⟩,
      (⟨"d", 0, 4, false⟩ : VantageReport ℚ)] 3) declaredPolicy := by
  refine (aggregate_seen_iff between_half (by decide) (fun _ _ _ _ => rfl) (by decide)).2
    (fun _ => .inr (.inr (.inl (.inr ?_)))) ?_
  · decide +kernel
  · decide +kernel

/-- Three vantages that each see a hostile mesh for another reason are resolved to calm. -/
theorem three_reasons_averaged_away :
    (∀ r ∈ threeReasons, rawLevel (alone r) declaredPolicy = .hostile) ∧
    rawLevel (aggregateWith halfCount threeReasons 3) declaredPolicy = .calm := by
  decide +kernel

end SocioWorkspace.Mesh
