import Mathlib

/-!
# Polynomials as lists of coefficients

A list of coefficients stands for the polynomial with these coefficients, lowest first: what the operations of
an array program on such lists amount to, and how Lagrange's formula recovers the coefficients from values.
-/

namespace SocioWorkspace.ListPoly
open Polynomial List

section
variable {R : Type*} [CommSemiring R]

noncomputable def toPoly : List R → R[X]
  | [] => 0
  | c :: cs => C c + X * toPoly cs

@[simp] lemma toPoly_nil : toPoly ([] : List R) = 0 := rfl

lemma toPoly_cons (c : R) (cs : List R) : toPoly (c :: cs) = C c + X * toPoly cs := rfl

lemma coeff_toPoly (l : List R) (n : ℕ) : (toPoly l).coeff n = l.getD n 0 := by
  induction l generalizing n with
  | nil => simp
  | cons c cs ih =>
    cases n with
    | zero => simp [toPoly_cons]
    | succ n => simp [toPoly_cons, ih]

lemma degree_toPoly_lt (l : List R) : (toPoly l).degree < l.length := by
  rw [degree_lt_iff_coeff_zero]
  intro m hm
  rw [coeff_toPoly, getD_eq_default _ _ hm]

lemma toPoly_inj {l l' : List R} (hlen : l.length = l'.length) (h : toPoly l = toPoly l') : l = l' := by
  refine ext_getElem hlen fun n hn hn' => ?_
  have hc := congrArg (coeff · n) h
  simp only [coeff_toPoly] at hc
  rwa [getD_eq_getElem _ _ hn, getD_eq_getElem _ _ hn'] at hc

lemma eval_toPoly (l : List R) (x : R) : (toPoly l).eval x = l.foldr (fun c acc => acc * x + c) 0 := by
  induction l with
  | nil => simp
  | cons c cs ih =>
    rw [toPoly_cons, eval_add, eval_C, eval_mul, eval_X, ih, foldr_cons, mul_comm x, add_comm]

lemma toPoly_replicate_zero (n : ℕ) : toPoly (List.replicate n (0 : R)) = 0 := by
  induction n with
  | zero => rfl
  | succ n ih => rw [replicate_succ, toPoly_cons, ih, C_0, mul_zero, add_zero]

lemma toPoly_modify {l i} (hi : i < l.length) (c : R) :
    toPoly (l.modify i (· + c)) = toPoly l + C c * X ^ i := by
  induction l generalizing i with
  | nil => simp at hi
  | cons d ds ih =>
    cases i with
    | zero =>
      rw [modify_zero_cons, toPoly_cons, toPoly_cons, C_add]
      ring
    | succ i =>
      rw [modify_succ_cons, toPoly_cons, toPoly_cons, ih (by simpa using hi)]
      ring

def addAll (out : List R) (ps : List (ℕ × R)) : List R := ps.foldl (fun out p => out.modify p.1 (· + p.2)) out

@[simp] lemma length_addAll (out : List R) (ps : List (ℕ × R)) : (addAll out ps).length = out.length := by
  induction ps generalizing out with
  | nil => rfl
  | cons p ps ih => exact (ih _).trans (length_modify _ _ _)

lemma toPoly_addAll {out : List R} {ps} (h : ∀ p ∈ ps, p.1 < out.length) :
    toPoly (addAll out ps) = toPoly out + (ps.map fun p => C p.2 * X ^ p.1).sum := by
  induction ps generalizing out with
  | nil => simp [addAll]
  | cons p ps ih =>
    rw [forall_mem_cons] at h
    have hrec := @ih (out.modify p.1 (· + p.2)) fun q hq => by
      rw [length_modify]
      exact h.2 q hq
    rw [map_cons, sum_cons, ← add_assoc, ← toPoly_modify h.1]
    exact hrec

lemma sum_zipIdx (l : List R) (n : ℕ) :
    ((l.zipIdx n).map fun p => C p.1 * X ^ p.2).sum = X ^ n * toPoly l := by
  induction l generalizing n with
  | nil => simp
  | cons c cs ih =>
    rw [zipIdx_cons, map_cons, sum_cons, ih, toPoly_cons]
    ring

end

section
variable {K : Type*} [Field K]

lemma prod_erase_range (n i : ℕ) {M : Type*} [CommMonoid M] (f : ℕ → M) :
    ∏ j ∈ (Finset.range n).erase i, f j = (((List.range n).filter (· ≠ i)).map f).prod := by
  rw [← prod_toFinset f (List.nodup_range.filter _)]
  congr 1
  ext j
  simp [and_comm]

/-- The term of Lagrange's formula for the point at a position and a value there. -/
noncomputable def lagrangeTerm (xs : List K) (i : ℕ) (y : K) : K[X] :=
  C (y * (((List.range xs.length).filter (· ≠ i)).map fun j => xs.getD i 0 - xs.getD j 0).prod⁻¹)
    * (((List.range xs.length).filter (· ≠ i)).map fun j => X - C (xs.getD j 0)).prod

lemma C_mul_basis (xs : List K) (i : ℕ) (y : K) :
    C y * Lagrange.basis (Finset.range xs.length) (fun i => xs.getD i 0) i = lagrangeTerm xs i y := by
  simp only [Lagrange.basis, Lagrange.basisDivisor, Finset.prod_mul_distrib, ← map_prod,
    Finset.prod_inv_distrib]
  rw [prod_erase_range, prod_erase_range, lagrangeTerm, C_mul, mul_assoc]

/-- Lagrange's formula for points in a list. -/
theorem toPoly_eq_lagrange {xs block : List K} (hxs : xs.Nodup) (hlen : block.length = xs.length) :
    toPoly block = ((List.range xs.length).map fun i =>
      lagrangeTerm xs i ((toPoly block).eval (xs.getD i 0))).sum := by
  have hinj : Set.InjOn (fun i => xs.getD i 0) (Finset.range xs.length) := by
    intro i hi j hj h
    have hi' := Finset.mem_range.1 hi
    have hj' := Finset.mem_range.1 hj
    simp only [getD_eq_getElem _ _ hi', getD_eq_getElem _ _ hj'] at h
    exact hxs.getElem_inj_iff.1 h
  have hdeg : (toPoly block).degree < (Finset.range xs.length).card := by
    rw [Finset.card_range, ← hlen]
    exact degree_toPoly_lt block
  calc toPoly block
      = ∑ i ∈ Finset.range xs.length, C ((toPoly block).eval (xs.getD i 0))
          * Lagrange.basis (Finset.range xs.length) (fun i => xs.getD i 0) i :=
        Lagrange.eq_interpolate hinj hdeg
    _ = _ := by
        rw [Finset.sum_congr rfl fun i _ => C_mul_basis xs i _, ← toFinset_range, sum_toFinset _ nodup_range]

/-- The monic polynomial with the given zeros. -/
noncomputable def vanishing (xs : List K) : K[X] := (xs.map fun x => X - C x).prod

lemma vanishing_cons (x : K) (xs : List K) : vanishing (x :: xs) = (X - C x) * vanishing xs := by
  rw [vanishing, map_cons, prod_cons, ← vanishing]

lemma monic_vanishing (xs : List K) : (vanishing xs).Monic := by
  induction xs with
  | nil => exact monic_one
  | cons x xs ih =>
    rw [vanishing_cons]
    exact (monic_X_sub_C x).mul ih

lemma natDegree_vanishing (xs : List K) : (vanishing xs).natDegree = xs.length := by
  induction xs with
  | nil => exact natDegree_one
  | cons x xs ih =>
    rw [vanishing_cons, (monic_X_sub_C x).natDegree_mul (monic_vanishing xs), natDegree_X_sub_C, ih,
      length_cons, Nat.add_comm]

lemma eval_vanishing {xs : List K} {x} (hx : x ∈ xs) : (vanishing xs).eval x = 0 := by
  rw [vanishing, eval_list_prod, map_map]
  refine prod_eq_zero (mem_map.2 ⟨x, hx, ?_⟩)
  rw [Function.comp_apply, eval_sub, eval_X, eval_C, sub_self]

/-- Distinct zeros, as many as the degree allows, determine a polynomial up to a factor. -/
lemma eq_C_mul_vanishing {xs : List K} (hxs : xs.Nodup) {p} (hdeg : p.natDegree ≤ xs.length)
    (hzero : ∀ x ∈ xs, p.eval x = 0) : ∃ c, p = C c * vanishing xs := by
  by_cases hp : p = 0
  · exact ⟨0, by rw [hp, C_0, zero_mul]⟩
  · have hroots : (xs : Multiset K) ≤ p.roots := by
      rw [Multiset.le_iff_subset (Multiset.coe_nodup.2 hxs)]
      intro x hx
      exact (mem_roots hp).2 (hzero x (Multiset.mem_coe.1 hx))
    obtain ⟨q, hq⟩ := (Multiset.prod_X_sub_C_dvd_iff_le_roots hp (xs : Multiset K)).2 hroots
    rw [Multiset.map_coe, Multiset.prod_coe, ← vanishing] at hq
    have hdegq : q.natDegree = 0 := by
      have hq0 : q ≠ 0 := by
        rintro rfl
        exact hp (hq.trans (mul_zero _))
      rw [hq, (monic_vanishing xs).natDegree_mul' hq0, natDegree_vanishing] at hdeg
      omega
    refine ⟨q.coeff 0, ?_⟩
    rw [hq, mul_comm, ← eq_C_of_natDegree_eq_zero hdegq]

lemma natDegree_toPoly_le {l : List K} {n} (h : l.length = n + 1) : (toPoly l).natDegree ≤ n := by
  rw [natDegree_le_iff_coeff_eq_zero]
  intro m hm
  rw [coeff_toPoly, getD_eq_default _ _ (by omega)]

/-- Lists with the same values at distinct points, one fewer than their length, agree wherever the vanishing
polynomial has no term. -/
theorem getD_eq_of_eval_eq {xs l l' : List K} (hxs : xs.Nodup) (hl : l.length = xs.length + 1)
    (hl' : l'.length = xs.length + 1) (hval : ∀ x ∈ xs, (toPoly l').eval x = (toPoly l).eval x)
    {j} (hj : (vanishing xs).coeff j = 0) : l'.getD j 0 = l.getD j 0 := by
  have hdeg : (toPoly l' - toPoly l).natDegree ≤ xs.length := by
    rw [← max_self xs.length]
    exact natDegree_sub_le_of_le (natDegree_toPoly_le hl') (natDegree_toPoly_le hl)
  obtain ⟨c, hc⟩ := eq_C_mul_vanishing hxs hdeg fun x hx => by
    rw [eval_sub, hval x hx, sub_self]
  have hcoeff := congrArg (coeff · j) hc
  simp only [coeff_sub, coeff_toPoly, coeff_C_mul, hj, mul_zero] at hcoeff
  exact sub_eq_zero.1 hcoeff

end

end SocioWorkspace.ListPoly
