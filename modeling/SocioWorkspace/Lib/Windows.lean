import Mathlib.Algebra.Order.Ring.Int
import Mathlib.Data.Finset.Card
import Mathlib.Data.Int.ModEq
import Mathlib.Data.Nat.Count
import Mathlib.Tactic.Ring

/-!
# Windows of consecutive times

How often a property of integer times holds within a window, for a property that recurs with a period:
its times are one residue class. A digit in front of the time, as in a mixed-radix clock, multiplies the
period.
-/

namespace SocioWorkspace.Windows
open Finset Int

/-- How many of the `n` times from `e` on have the property. -/
def hits (S : ℤ → Prop) [DecidablePred S] (e : ℤ) (n : ℕ) : ℕ := Nat.count (fun i => S (e + i)) n

/-- The times of the property are one residue class modulo the period. -/
def Recurs (p : ℕ) (S : ℤ → Prop) : Prop := ∃ r : ℤ, 0 ≤ r ∧ r < p ∧ ∀ t, S t ↔ t % p = r

section
variable {p p' : ℕ} {S S' : ℤ → Prop}

lemma Recurs.pos (h : Recurs p S) : 0 < p := by
  obtain ⟨r, h0, hlt, -⟩ := h
  omega

lemma recurs_one (h : ∀ t, S t) : Recurs 1 S := by
  refine ⟨0, le_rfl, by simp, fun t => ?_⟩
  rw [iff_true_left (h t), Nat.cast_one, emod_one]

lemma digits_lt {c p : ℕ} {i r : ℤ} (hi : i < c) (hr : r < p) : i + c * r < ((c * p : ℕ) : ℤ) := by
  have hle : (c : ℤ) * r ≤ c * (p - 1) := mul_le_mul_of_nonneg_left (by omega) (by omega)
  rw [mul_sub, mul_one] at hle
  rw [Nat.cast_mul]
  omega

/-- A remainder modulo a product: the digit of the first factor, and the remainder of the quotient. -/
lemma emod_mul_eq (t : ℤ) {c q : ℕ} (hc : 0 < c) (hq : 0 < q) :
    t % ((c * q : ℕ) : ℤ) = t % c + c * (t / c % q) := by
  have hc' : (0 : ℤ) < c := by exact_mod_cast hc
  have hq' : (0 : ℤ) < q := by exact_mod_cast hq
  have hpos : (0 : ℤ) < ((c * q : ℕ) : ℤ) := by exact_mod_cast Nat.mul_pos hc hq
  have hdigit := emod_nonneg t hc'.ne'
  have hrest := emod_nonneg (t / c) hq'.ne'
  have hsum : t % c + c * (t / c % q) + ((c * q : ℕ) : ℤ) * (t / c / q) = t := by
    rw [Nat.cast_mul, add_assoc, mul_assoc, ← mul_add, emod_add_mul_ediv, emod_add_mul_ediv]
  refine ((Int.ediv_emod_unique hpos).2 ⟨hsum, ?_, ?_⟩).2
  · exact add_nonneg hdigit (mul_nonneg hc'.le hrest)
  · exact digits_lt (emod_lt_of_pos t hc') (emod_lt_of_pos _ hq')

/-- A digit in front of the time multiplies the period by its radix. -/
lemma Recurs.digit (h : Recurs p S) {c i : ℕ} (hi : i < c) :
    Recurs (c * p) fun t => t % c = i ∧ S (t / c) := by
  have hp := h.pos
  obtain ⟨r, h0, hlt, hS⟩ := h
  have hc : (0 : ℤ) < c := by omega
  refine ⟨i + c * r, add_nonneg (by omega) (mul_nonneg hc.le h0), ?_, fun t => ?_⟩
  · exact digits_lt (by omega) hlt
  · refine (and_congr_right fun _ => hS _).trans ?_
    rw [emod_mul_eq t (by omega) hp]
    refine ⟨fun h => by rw [h.1, h.2], fun h => ?_⟩
    -- both sides are a remainder modulo `c` and a multiple of `c`
    have hdigits := (Int.ediv_emod_unique hc).2
      ⟨h, emod_nonneg t hc.ne', emod_lt_of_pos t hc⟩
    have hself : (i + c * r) / (c : ℤ) = r ∧ (i + c * r) % (c : ℤ) = i :=
      (Int.ediv_emod_unique hc).2 ⟨rfl, by omega, by omega⟩
    exact ⟨hdigits.2.symm.trans hself.2, hdigits.1.symm.trans hself.1⟩

lemma Recurs.existsUnique (h : Recurs p S) (e : ℤ) : ∃! t, (e ≤ t ∧ t < e + p) ∧ S t := by
  have hp : (0 : ℤ) < p := by exact_mod_cast h.pos
  obtain ⟨r, h0, hlt, hS⟩ := h
  refine ⟨e + (r - e) % p, ⟨⟨?_, ?_⟩, ?_⟩, ?_⟩
  · exact le_add_of_nonneg_right (emod_nonneg _ hp.ne')
  · exact add_lt_add_right (emod_lt_of_pos _ hp) e
  · rw [hS, add_emod_emod, add_sub_cancel, emod_eq_of_lt h0 hlt]
  · intro t ht
    obtain ⟨⟨hle, hlt'⟩, ht⟩ := ht
    have hsub : (t - e) % p = (r - e) % p := by
      rw [← (hS t).1 ht, emod_sub_emod]
    rw [← hsub, emod_eq_of_lt (by omega) (by omega), add_sub_cancel]

variable [DecidablePred S] [DecidablePred S']

lemma hits_add (e : ℤ) (m n : ℕ) : hits S e (m + n) = hits S e m + hits S (e + m) n := by
  rw [hits, Nat.count_add]
  simp only [Nat.cast_add, ← add_assoc]
  rfl

lemma Recurs.hits_period (h : Recurs p S) (e : ℤ) : hits S e p = 1 := by
  obtain ⟨t, ⟨⟨hle, hlt⟩, ht⟩, hunique⟩ := h.existsUnique e
  rw [hits, Nat.count_eq_card_filter_range, card_eq_one]
  refine ⟨(t - e).toNat, ext fun i => ?_⟩
  rw [mem_filter, mem_range, mem_singleton]
  refine ⟨fun hi => ?_, fun hi => ?_⟩
  · have hit := hunique (e + i) ⟨⟨by omega, by omega⟩, hi.2⟩
    omega
  · have hit : e + (i : ℤ) = t := by omega
    exact ⟨by omega, hit ▸ ht⟩

lemma Recurs.hits_mul (h : Recurs p S) (e : ℤ) (q : ℕ) : hits S e (q * p) = q := by
  induction q with
  | zero => rw [Nat.zero_mul]; rfl
  | succ q ih => rw [Nat.succ_mul, hits_add, ih, h.hits_period]

lemma hits_mul_congr {n} (h : ∀ e, hits S e n = hits S' e n) (e : ℤ) (q : ℕ) :
    hits S e (q * n) = hits S' e (q * n) := by
  induction q with
  | zero => rw [Nat.zero_mul]; rfl
  | succ q ih => rw [Nat.succ_mul, hits_add, hits_add, ih, h]

/-- Properties that are met equally often in windows of some length have the same period. -/
lemma Recurs.period_eq (h : Recurs p S) (h' : Recurs p' S') {n} (hn : 0 < n)
    (heven : ∀ e, hits S e n = hits S' e n) : p = p' := by
  have hcount := hits_mul_congr heven 0 (p * p')
  have hleft : p * p' * n = n * p' * p := by ring
  have hright : n * p' * p = n * p * p' := by ring
  rw [hleft, h.hits_mul, hright, h'.hits_mul] at hcount
  exact (Nat.eq_of_mul_eq_mul_left hn hcount).symm

end

end SocioWorkspace.Windows
