import Mathlib

/-!
# Tails of the binomial distribution

`tail n k p` is the probability that at least `k` of `n` independent trials succeed, each with probability
`p`. All monotonicity follows from Pascal's rule (`tail_succ_succ`). Near `p = 0` the threshold decides
(`exists_tail_lt`).
-/

namespace SocioWorkspace.Binomial
open Finset Nat
universe u

section Ring
variable {α : Type u} [CommRing α] (n k : ℕ) (p : α)

/-- At least `k` of `n` trials succeed. -/
def tail : α := ∑ j ∈ Finset.Ico k (n + 1), n.choose j * p ^ j * (1 - p) ^ (n - j)

lemma tail_zero : tail n 0 p = 1 := by
  have hsum := add_pow p (1 - p) n
  rw [add_sub_cancel, one_pow] at hsum
  rw [tail, ← range_eq_Ico]
  refine (sum_congr rfl fun j _ => ?_).trans hsum.symm
  ring

variable {n k}

lemma tail_of_lt (h : n < k) : tail n k p = 0 := by
  rw [tail, Finset.Ico_eq_empty (by omega), sum_empty]

lemma tail_succ_succ : tail (n + 1) (k + 1) p = p * tail n k p + (1 - p) * tail n (k + 1) p := by
  by_cases hk : k ≤ n
  · -- the last term of the second tail is zero, so that both sums run over the same trials
    have hrest : (1 - p) * tail n (k + 1) p =
        ∑ j ∈ Finset.Ico k (n + 1), n.choose (j + 1) * p ^ (j + 1) * (1 - p) ^ (n - j) := by
      have htop : tail n (k + 1) p = ∑ j ∈ Finset.Ico (k + 1) (n + 1 + 1),
          n.choose j * p ^ j * (1 - p) ^ (n - j) := by
        rw [sum_Ico_succ_top (by omega), choose_succ_self]
        simp [tail]
      rw [htop, ← sum_Ico_add', mul_sum]
      refine sum_congr rfl fun j hj => ?_
      obtain ⟨-, hj⟩ := mem_Ico.1 hj
      rcases Nat.lt_or_ge j n with hlt | hge
      · have hsub : n - j = n - (j + 1) + 1 := by omega
        rw [hsub, pow_succ]
        ring
      · rw [choose_eq_zero_of_lt (by omega)]
        simp
    rw [hrest, tail, tail, ← sum_Ico_add', mul_sum, ← sum_add_distrib]
    refine sum_congr rfl fun j _ => ?_
    rw [choose_succ_succ, cast_add, Nat.add_sub_add_right, pow_succ]
    ring
  · rw [tail_of_lt p (by omega), tail_of_lt p (by omega), tail_of_lt p (by omega)]
    ring

lemma tail_one (h : k ≤ n) : tail n k (1 : α) = 1 := by
  induction n generalizing k with
  | zero =>
    obtain rfl := le_zero.1 h
    exact tail_zero 0 1
  | succ n ih =>
    cases k with
    | zero => exact tail_zero (n + 1) 1
    | succ k => rw [tail_succ_succ, ih (le_of_succ_le_succ h), sub_self, zero_mul, add_zero, one_mul]

lemma tail_zero_right (h : 1 ≤ k) : tail n k (0 : α) = 0 := by
  refine sum_eq_zero fun j hj => ?_
  obtain ⟨hj, -⟩ := mem_Ico.1 hj
  rw [zero_pow (by omega), mul_zero, zero_mul]

end Ring

section Ordered
variable {α : Type u} [CommRing α] [LinearOrder α] [IsStrictOrderedRing α] {n k : ℕ} {p : α}

section
variable (h0 : 0 ≤ p) (h1 : p ≤ 1)
include h0 h1

lemma tail_nonneg : 0 ≤ tail n k p := by
  have hq : 0 ≤ 1 - p := sub_nonneg.2 h1
  exact sum_nonneg fun j _ => by positivity

lemma tail_succ_le : tail n (k + 1) p ≤ tail n k p := by
  have hq : 0 ≤ 1 - p := sub_nonneg.2 h1
  refine sum_le_sum_of_subset_of_nonneg ?_ fun j _ _ => by positivity
  exact Finset.Ico_subset_Ico_left (le_succ k)

lemma tail_le_one : tail n k p ≤ 1 := by
  induction k with
  | zero => exact (tail_zero n p).le
  | succ k ih => exact (tail_succ_le h0 h1).trans ih

lemma tail_le_tail_succ : tail n k p ≤ tail (n + 1) k p := by
  cases k with
  | zero => rw [tail_zero, tail_zero]
  | succ k =>
    have hstep := mul_le_mul_of_nonneg_left (tail_succ_le (n := n) (k := k) h0 h1) h0
    rw [tail_succ_succ]
    linarith

lemma tail_succ_succ_le : tail (n + 1) (k + 1) p ≤ tail n k p := by
  have hstep := mul_le_mul_of_nonneg_left (tail_succ_le (n := n) (k := k) h0 h1) (sub_nonneg.2 h1)
  rw [tail_succ_succ]
  linarith

lemma tail_add_mono (k : ℕ) {m m'} (h : m ≤ m') : tail (k + m) k p ≤ tail (k + m') k p := by
  induction m', h using le_induction with
  | base => exact le_rfl
  | succ m' _ ih => exact ih.trans (tail_le_tail_succ h0 h1)

lemma tail_add_anti (m : ℕ) {k k'} (h : k ≤ k') : tail (k' + m) k' p ≤ tail (k + m) k p := by
  induction k', h using le_induction with
  | base => exact le_rfl
  | succ k' _ ih =>
    rw [Nat.add_right_comm]
    exact (tail_succ_succ_le h0 h1).trans ih

end

lemma tail_mono {q} (h0 : 0 ≤ p) (hpq : p ≤ q) (h1 : q ≤ 1) : tail n k p ≤ tail n k q := by
  induction n generalizing k with
  | zero =>
    cases k with
    | zero => rw [tail_zero, tail_zero]
    | succ k => rw [tail_of_lt p (by omega), tail_of_lt q (by omega)]
  | succ n ih =>
    cases k with
    | zero => rw [tail_zero, tail_zero]
    | succ k =>
      have hstep := mul_le_mul_of_nonneg_left (tail_succ_le (n := n) (k := k) h0 (hpq.trans h1))
        (sub_nonneg.2 hpq)
      have hfirst := mul_le_mul_of_nonneg_left (ih (k := k)) (h0.trans hpq)
      have hrest := mul_le_mul_of_nonneg_left (ih (k := k + 1)) (sub_nonneg.2 h1)
      rw [tail_succ_succ, tail_succ_succ]
      linarith

lemma tail_le_pow (h0 : 0 ≤ p) (h1 : p ≤ 1) : tail n k p ≤ 2 ^ n * p ^ k := by
  induction n generalizing k with
  | zero =>
    cases k with
    | zero => simp [tail_zero]
    | succ k =>
      rw [tail_of_lt p (by omega)]
      positivity
  | succ n ih =>
    cases k with
    | zero =>
      rw [tail_zero, pow_zero, mul_one]
      exact one_le_pow₀ one_le_two
    | succ k =>
      have hfirst := mul_le_mul_of_nonneg_left (ih (k := k)) h0
      have hrest := mul_le_of_le_one_left (tail_nonneg (n := n) (k := k + 1) h0 h1)
        (sub_le_self 1 h0)
      calc
        tail (n + 1) (k + 1) p = p * tail n k p + (1 - p) * tail n (k + 1) p := tail_succ_succ p
        _ ≤ p * (2 ^ n * p ^ k) + 2 ^ n * p ^ (k + 1) := add_le_add hfirst (hrest.trans ih)
        _ = 2 ^ (n + 1) * p ^ (k + 1) := by ring

lemma pow_mul_le_tail (h0 : 0 ≤ p) (h1 : p ≤ 1) (k m : ℕ) : p ^ k * (1 - p) ^ m ≤ tail (k + m) k p := by
  have hq : 0 ≤ 1 - p := sub_nonneg.2 h1
  have hterm : p ^ k * (1 - p) ^ m ≤ (k + m).choose k * p ^ k * (1 - p) ^ (k + m - k) := by
    have hone : (1 : α) ≤ (k + m).choose k := by
      exact_mod_cast choose_pos (Nat.le_add_right k m)
    rw [Nat.add_sub_cancel_left, mul_assoc]
    exact le_mul_of_one_le_left (by positivity) hone
  refine hterm.trans (single_le_sum (f := fun j =>
    ((k + m).choose j : α) * p ^ j * (1 - p) ^ (k + m - j)) (fun j _ => by positivity) ?_)
  exact mem_Ico.2 ⟨le_rfl, by omega⟩

end Ordered

section Field
variable {α : Type u} [Field α] [LinearOrder α] [IsStrictOrderedRing α]

lemma exists_small {a b} (ha : 0 ≤ a) (hb : 0 ≤ b) :
    ∃ ε : α, 0 < ε ∧ ε ≤ 1 ∧ a * ε < 1 / 2 ∧ b * ε ≤ 1 / 2 := by
  have hpos : 0 < 2 * a + 2 * b + 1 := by positivity
  refine ⟨1 / (2 * a + 2 * b + 1), by positivity, ?_, ?_, ?_⟩
  · rw [div_le_one hpos]
    linarith
  · rw [mul_one_div, div_lt_div_iff₀ hpos two_pos]
    linarith
  · rw [mul_one_div, div_le_div_iff₀ hpos two_pos]
    linarith

/-- A code with a higher threshold is the weaker one when almost every trial fails, also with more
attempts. -/
theorem exists_tail_lt {k m r k₀ m₀ r₀} (hk : k₀ < k) (hr₀ : 1 ≤ r₀) :
    ∃ f : α, 0 ≤ f ∧ f ≤ 1 ∧ tail (k + m) k (1 - f ^ r) < tail (k₀ + m₀) k₀ (1 - f ^ r₀) := by
  -- the failure probability is one minus a small `ε`
  obtain ⟨ε, hε, hε1, hbig, hsmall⟩ := exists_small (a := 2 ^ (k + m) * (r : α) ^ k)
    (b := (r₀ * m₀ : ℕ)) (by positivity) (by positivity)
  have hf0 : 0 ≤ 1 - ε := sub_nonneg.2 hε1
  have hf1 : 1 - ε ≤ 1 := sub_le_self 1 hε.le
  have hpow (i : ℕ) : 1 - i * ε ≤ (1 - ε) ^ i := by
    have hbernoulli := one_add_mul_le_pow (a := -ε) (by linarith) i
    rw [← sub_eq_add_neg] at hbernoulli
    linarith
  have hpow1 (i : ℕ) : (1 - ε) ^ i ≤ 1 := pow_le_one₀ hf0 hf1
  refine ⟨1 - ε, hf0, hf1, ?_⟩
  have hweak : tail (k + m) k (1 - (1 - ε) ^ r) < ε ^ k₀ * (1 / 2) := by
    have hp0 : 0 ≤ 1 - (1 - ε) ^ r := sub_nonneg.2 (hpow1 r)
    have hp1 : 1 - (1 - ε) ^ r ≤ 1 := sub_le_self 1 (by positivity)
    calc
      tail (k + m) k (1 - (1 - ε) ^ r) ≤ 2 ^ (k + m) * (1 - (1 - ε) ^ r) ^ k := tail_le_pow hp0 hp1
      _ ≤ 2 ^ (k + m) * (r * ε) ^ k := by
        gcongr
        linarith [hpow r]
      _ = 2 ^ (k + m) * (r : α) ^ k * ε ^ k := by rw [mul_pow, mul_assoc]
      _ ≤ 2 ^ (k + m) * (r : α) ^ k * ε ^ (k₀ + 1) := by
        gcongr ?_ * ?_
        exact pow_le_pow_of_le_one hε.le hε1 hk
      _ = ε ^ k₀ * (2 ^ (k + m) * (r : α) ^ k * ε) := by ring
      _ < ε ^ k₀ * (1 / 2) := by gcongr
  have hstrong : ε ^ k₀ * (1 / 2) ≤ tail (k₀ + m₀) k₀ (1 - (1 - ε) ^ r₀) := by
    have hp0 : 0 ≤ 1 - (1 - ε) ^ r₀ := sub_nonneg.2 (hpow1 r₀)
    have hp1 : 1 - (1 - ε) ^ r₀ ≤ 1 := sub_le_self 1 (by positivity)
    have hsucceeds : ε ≤ 1 - (1 - ε) ^ r₀ := by
      have hfirst := pow_le_of_le_one hf0 hf1 (one_le_iff_ne_zero.1 hr₀)
      linarith
    have hspare : 1 / 2 ≤ (1 - (1 - (1 - ε) ^ r₀)) ^ m₀ := by
      rw [sub_sub_cancel, ← pow_mul]
      linarith [hpow (r₀ * m₀)]
    calc
      ε ^ k₀ * (1 / 2) ≤ (1 - (1 - ε) ^ r₀) ^ k₀ * (1 - (1 - (1 - ε) ^ r₀)) ^ m₀ := by gcongr
      _ ≤ _ := pow_mul_le_tail hp0 hp1 k₀ m₀
  exact hweak.trans_le hstrong

end Field

end SocioWorkspace.Binomial
