import Mathlib

/-!
# Fields from a generator

A finite group with an additive map under which one element runs through all elements but 0. The
powers of the generator are the iterates of the map at that element, and a multiplication that adds
exponents makes the group a field.
-/

namespace SocioWorkspace
open Function Finset
variable {V : Type*} [AddCommGroup V] [Fintype V]

/-- An additive map, and an element that returns to itself after all elements but 0. -/
structure Generator (V : Type*) [AddCommGroup V] [Fintype V] where
  step : V →+ V
  one : V
  order : ℕ
  one_ne_zero : one ≠ 0
  period : minimalPeriod step one = order
  card : Fintype.card V = order + 1

namespace Generator
variable (g : Generator V)

def exp (i : ℕ) : V := g.step^[i] g.one

@[simp] lemma exp_zero : g.exp 0 = g.one := rfl

lemma exp_succ (i : ℕ) : g.exp (i + 1) = g.step (g.exp i) := iterate_succ_apply' _ _ _

lemma iterate_exp (i j : ℕ) : g.step^[i] (g.exp j) = g.exp (i + j) := (iterate_add_apply _ _ _ _).symm

lemma exp_order : g.exp g.order = g.one := by
  rw [exp, ← g.period]
  exact iterate_minimalPeriod

lemma exp_add_order (i : ℕ) : g.exp (i + g.order) = g.exp i := by
  rw [← g.iterate_exp, exp_order]
  rfl

lemma iterate_zero_eq (i : ℕ) : g.step^[i] (0 : V) = 0 := iterate_map_zero g.step i

lemma order_pos : 0 < g.order := by
  by_contra h
  have hc : Fintype.card V = 1 := by rw [g.card, Nat.eq_zero_of_not_pos h]
  obtain ⟨x, hx⟩ := Fintype.card_eq_one_iff.1 hc
  exact g.one_ne_zero ((hx g.one).trans (hx 0).symm)

lemma exp_mul_order (i : ℕ) : g.exp (i * g.order) = g.one := by
  induction i with
  | zero => rw [Nat.zero_mul, exp_zero]
  | succ i ih => rw [Nat.succ_mul, exp_add_order, ih]

lemma exp_ne_zero (i : ℕ) : g.exp i ≠ 0 := by
  intro h
  -- once at 0 the iterates stay there, and would not come back to one
  have hle : i ≤ i * g.order := Nat.le_mul_of_pos_right i g.order_pos
  have hmul := g.exp_mul_order i
  rw [← Nat.sub_add_cancel hle, ← g.iterate_exp, h, iterate_zero_eq] at hmul
  exact g.one_ne_zero hmul.symm

lemma exp_inj {i j} (hi : i < g.order) (hj : j < g.order) (h : g.exp i = g.exp j) : i = j := by
  rw [← g.period] at hi hj
  exact iterate_injOn_Iio_minimalPeriod hi hj h

/-- Every element but 0 is a power of the generator. -/
theorem exists_exp {a} (ha : a ≠ 0) : ∃ i < g.order, g.exp i = a := by
  classical
  -- the powers are as many as the elements but 0
  have hsub : (range g.order).image g.exp ⊆ univ.erase 0 := by
    intro b hb
    obtain ⟨i, -, rfl⟩ := mem_image.1 hb
    exact mem_erase.2 ⟨g.exp_ne_zero i, mem_univ _⟩
  have hcard : (univ.erase (0 : V)).card ≤ ((range g.order).image g.exp).card := by
    rw [card_erase_of_mem (mem_univ _), card_univ, g.card,
      card_image_of_injOn, card_range, Nat.add_sub_cancel]
    intro i hi j hj h
    exact g.exp_inj (mem_range.1 hi) (mem_range.1 hj) h
  have hmem : a ∈ (range g.order).image g.exp := by
    rw [eq_of_subset_of_card_le hsub hcard]
    exact mem_erase.2 ⟨ha, mem_univ _⟩
  obtain ⟨i, hi, h⟩ := mem_image.1 hmem
  exact ⟨i, mem_range.1 hi, h⟩

/-- A multiplication in which a power of the generator iterates the map. -/
structure IsMul (mul : V → V → V) : Prop where
  zero_mul : ∀ b, mul 0 b = 0
  exp_mul : ∀ i b, mul (g.exp i) b = g.step^[i] b

namespace IsMul
variable {g} {mul : V → V → V} (h : g.IsMul mul)
include h

lemma mul_zero (a : V) : mul a 0 = 0 := by
  by_cases ha : a = 0
  · rw [ha, h.zero_mul]
  · obtain ⟨i, -, rfl⟩ := g.exists_exp ha
    rw [h.exp_mul, iterate_zero_eq]

lemma exp_mul_exp (i j : ℕ) : mul (g.exp i) (g.exp j) = g.exp (i + j) := by
  rw [h.exp_mul, iterate_exp]

theorem comm (a b : V) : mul a b = mul b a := by
  by_cases ha : a = 0
  · rw [ha, h.zero_mul, h.mul_zero]
  · by_cases hb : b = 0
    · rw [hb, h.zero_mul, h.mul_zero]
    · obtain ⟨i, -, rfl⟩ := g.exists_exp ha
      obtain ⟨j, -, rfl⟩ := g.exists_exp hb
      rw [h.exp_mul_exp, h.exp_mul_exp, Nat.add_comm]

theorem assoc (a b c : V) : mul (mul a b) c = mul a (mul b c) := by
  by_cases ha : a = 0
  · rw [ha, h.zero_mul, h.zero_mul, h.zero_mul]
  · by_cases hb : b = 0
    · rw [hb, h.zero_mul, h.mul_zero, h.zero_mul]
    · obtain ⟨i, -, rfl⟩ := g.exists_exp ha
      obtain ⟨j, -, rfl⟩ := g.exists_exp hb
      rw [h.exp_mul_exp, h.exp_mul, h.exp_mul, h.exp_mul, iterate_add_apply]

lemma one_mul (a : V) : mul g.one a = a := h.exp_mul 0 a

theorem mul_add (a b c : V) : mul a (b + c) = mul a b + mul a c := by
  by_cases ha : a = 0
  · rw [ha, h.zero_mul, h.zero_mul, h.zero_mul, add_zero]
  · obtain ⟨i, -, rfl⟩ := g.exists_exp ha
    rw [h.exp_mul, h.exp_mul, h.exp_mul]
    exact iterate_map_add g.step i b c

/-- The inverse of a power is the power that is left to the order. -/
theorem exp_mul_exp_sub {i} (hi : i ≤ g.order) : mul (g.exp i) (g.exp (g.order - i)) = g.one := by
  rw [h.exp_mul_exp, Nat.add_sub_cancel' hi, exp_order]

end IsMul

end Generator

end SocioWorkspace
