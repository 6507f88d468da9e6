import Mathlib.Data.List.GetD
import Mathlib.Data.List.Sort
import Mathlib.Algebra.Order.Field.Basic
import Mathlib.Tactic.Linarith

/-!
# Medians

The median of a list as Python's `statistics.median` computes it: the middle value of an odd number
of values, and some mean of the two middle values of an even number. What is known of the mean is
only that it lies between the two (`Between`), so that both the exact half and a half rounded to an
integer are covered.
-/

namespace SocioWorkspace.Median
open List
universe u

section
variable {α : Type u} [LE α] [DecidableLE α] [Zero α]

/-- The lower one of the two middle values; the middle value of an odd number of values. -/
def lower (xs : List α) : α := (xs.insertionSort (· ≤ ·)).getD ((xs.length - 1) / 2) 0

/-- The upper one of the two middle values; the middle value of an odd number of values. -/
def upper (xs : List α) : α := (xs.insertionSort (· ≤ ·)).getD (xs.length / 2) 0

/-- Python `statistics.median`, with the mean of the two middle values as a parameter. -/
def median (mean : α → α → α) (xs : List α) : α :=
  if xs.length % 2 = 1 then upper xs else mean (lower xs) (upper xs)

end

def Between {α : Type u} [LE α] (mean : α → α → α) : Prop := ∀ a b, a ≤ b → a ≤ mean a b ∧ mean a b ≤ b

lemma between_half {K : Type u} [Field K] [LinearOrder K] [IsStrictOrderedRing K] :
    Between fun a b : K => (a + b) / 2 :=
  fun a b h => ⟨by linarith, by linarith⟩

lemma between_tdiv : Between fun a b : ℤ => (a + b).tdiv 2 := by
  intro a b h
  show a ≤ (a + b).tdiv 2 ∧ (a + b).tdiv 2 ≤ b
  rw [Int.tdiv_eq_ediv]
  split
  · omega
  · rw [show Int.sign 2 = 1 from rfl]
    omega

section
variable {α : Type u} [LinearOrder α] {p : α → Bool}

lemma get_iff_countP (hp : ∀ a b, a ≤ b → p a = true → p b = true) {s : List α}
    (hs : s.Pairwise (· ≤ ·)) {i} (hi : i < s.length) : p s[i] = true ↔ s.length ≤ i + s.countP p := by
  induction s generalizing i with
  | nil => exact absurd hi (Nat.not_lt_zero i)
  | cons a s ih =>
    have hall : p a = true → ∀ b ∈ a :: s, p b = true := by
      intro ha b hb
      cases mem_cons.1 hb with
      | inl h => exact h ▸ ha
      | inr h => exact hp a b (rel_of_pairwise_cons hs h) ha
    by_cases ha : p a = true
    · rw [countP_eq_length.2 (hall ha)]
      exact iff_of_true (hall ha _ (getElem_mem hi)) (Nat.le_add_left _ _)
    · have hle := countP_le_length (p := p) (l := s)
      rw [countP_cons_of_neg ha, length_cons]
      cases i with
      | zero => exact iff_of_false ha (by omega)
      | succ i =>
        rw [getElem_cons_succ, ih hs.of_cons (Nat.lt_of_succ_lt_succ hi)]
        omega

variable [Zero α] {mean : α → α → α} {xs : List α}

section
variable (hp : ∀ a b, a ≤ b → p a = true → p b = true)
include hp

lemma sorted_iff {i} (hi : i < xs.length) :
    p ((xs.insertionSort (· ≤ ·)).getD i 0) = true ↔ xs.length ≤ i + xs.countP p := by
  have hlen := length_insertionSort (· ≤ ·) xs
  rw [← hlen] at hi
  rw [getD_eq_getElem _ _ hi, get_iff_countP hp (pairwise_insertionSort _ _) hi, hlen,
    (perm_insertionSort _ xs).countP_eq]

lemma lower_iff (hne : xs ≠ []) : p (lower xs) = true ↔ xs.length < 2 * xs.countP p := by
  have hpos := length_pos_iff.2 hne
  rw [lower, sorted_iff hp (by omega)]
  omega

lemma upper_iff (hne : xs ≠ []) : p (upper xs) = true ↔ xs.length ≤ 2 * xs.countP p := by
  have hpos := length_pos_iff.2 hne
  rw [upper, sorted_iff hp (by omega)]
  omega

end

lemma le_lower_iff (hne : xs ≠ []) {t} : t ≤ lower xs ↔ xs.length < 2 * xs.countP (t ≤ ·) := by
  rw [← lower_iff (fun a b hab ha => ?_) hne, decide_eq_true_iff]
  exact decide_eq_true ((of_decide_eq_true ha).trans hab)

lemma le_upper_iff (hne : xs ≠ []) {t} : t ≤ upper xs ↔ xs.length ≤ 2 * xs.countP (t ≤ ·) := by
  rw [← upper_iff (fun a b hab ha => ?_) hne, decide_eq_true_iff]
  exact decide_eq_true ((of_decide_eq_true ha).trans hab)

/-- A median takes the mean of values of the list only. -/
lemma median_congr {mean' : α → α → α} (h : ∀ a ∈ xs, ∀ b ∈ xs, mean a b = mean' a b) (hne : xs ≠ []) :
    median mean xs = median mean' xs := by
  have hmem : ∀ i < xs.length, (xs.insertionSort (· ≤ ·)).getD i 0 ∈ xs := by
    intro i hi
    rw [getD_eq_getElem _ _ (by rwa [length_insertionSort])]
    exact (mem_insertionSort _).1 (getElem_mem _)
  have hpos := length_pos_iff.2 hne
  rw [median, median, h (lower xs) (hmem _ (by omega)) (upper xs) (hmem _ (by omega))]

lemma lower_le_upper (hne : xs ≠ []) : lower xs ≤ upper xs := by
  rw [le_upper_iff hne]
  exact Nat.le_of_lt ((le_lower_iff hne).1 le_rfl)

lemma lower_le_median (hmean : Between mean) (hne : xs ≠ []) : lower xs ≤ median mean xs := by
  rw [median]
  split
  · exact lower_le_upper hne
  · exact (hmean _ _ (lower_le_upper hne)).1

lemma median_le_upper (hmean : Between mean) (hne : xs ≠ []) : median mean xs ≤ upper xs := by
  rw [median]
  split
  · exact le_rfl
  · exact (hmean _ _ (lower_le_upper hne)).2

/-- The median lies between two values of any strict majority. -/
theorem median_of_majority (hmean : Between mean) {most rest}
    (hperm : xs.Perm (most ++ rest)) (hmost : rest.length < most.length) :
    (∃ a ∈ most, a ≤ median mean xs) ∧ ∃ a ∈ most, median mean xs ≤ a := by
  have hlen : xs.length = most.length + rest.length := by
    rw [hperm.length_eq, length_append]
  have hne : xs ≠ [] := length_pos_iff.1 (by omega)
  constructor
  · -- to lie above some value of the majority is a property that goes up, and the majority has it
    have hcount := hperm.countP_eq fun x => decide (∃ a ∈ most, a ≤ x)
    have hall : most.countP (fun x => decide (∃ a ∈ most, a ≤ x)) = most.length :=
      countP_eq_length.2 fun x hx => decide_eq_true ⟨x, hx, le_rfl⟩
    rw [countP_append, hall] at hcount
    have hlower : decide (∃ a ∈ most, a ≤ lower xs) = true := by
      refine (lower_iff (p := fun x => decide (∃ a ∈ most, a ≤ x)) (fun x y hxy hx => ?_) hne).2 (by omega)
      obtain ⟨a, ha, hax⟩ := of_decide_eq_true hx
      exact decide_eq_true ⟨a, ha, hax.trans hxy⟩
    obtain ⟨a, ha, hle⟩ := of_decide_eq_true hlower
    exact ⟨a, ha, hle.trans (lower_le_median hmean hne)⟩
  · by_contra hnone
    push Not at hnone
    -- to lie above the whole majority is one that no value of the majority has
    have hcount := hperm.countP_eq fun x => decide (∀ a ∈ most, a < x)
    have hzero : most.countP (fun x => decide (∀ a ∈ most, a < x)) = 0 :=
      countP_eq_zero.2 fun x hx h => lt_irrefl x (of_decide_eq_true h x hx)
    have hrest := countP_le_length (p := fun x => decide (∀ a ∈ most, a < x)) (l := rest)
    rw [countP_append, hzero] at hcount
    have hupper : decide (∀ a ∈ most, a < upper xs) = true :=
      decide_eq_true fun a ha => (hnone a ha).trans_le (median_le_upper hmean hne)
    have hhalf := (upper_iff (p := fun x => decide (∀ a ∈ most, a < x)) (fun x y hxy hx =>
      decide_eq_true fun a ha => (of_decide_eq_true hx a ha).trans_le hxy) hne).1 hupper
    omega

/-- Most values reach a bound, or half of them do and the mean of the middle values does. -/
def Reached (mean : α → α → α) (t : α) (xs : List α) : Prop :=
  xs.length < 2 * xs.countP (t ≤ ·) ∨ xs.length = 2 * xs.countP (t ≤ ·) ∧ t ≤ mean (lower xs) (upper xs)

/-- When a median reaches a bound. -/
theorem le_median_iff (hmean : Between mean) (hne : xs ≠ []) {t} :
    t ≤ median mean xs ↔ Reached mean t xs := by
  constructor
  · intro ht
    have hhalf := (le_upper_iff hne).1 (ht.trans (median_le_upper hmean hne))
    cases Nat.lt_or_eq_of_le hhalf with
    | inl hmost => exact .inl hmost
    | inr heq =>
      have heven : ¬ xs.length % 2 = 1 := by omega
      rw [median, if_neg heven] at ht
      exact .inr ⟨heq, ht⟩
  · intro h
    cases h with
    | inl hmost => exact ((le_lower_iff hne).2 hmost).trans (lower_le_median hmean hne)
    | inr hhalf =>
      have heven : ¬ xs.length % 2 = 1 := by omega
      rw [median, if_neg heven]
      exact hhalf.2

end

end SocioWorkspace.Median
