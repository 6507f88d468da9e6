import Mathlib.Data.Int.Bitwise
import SocioWorkspace.Holographic.Ida

/-!
# Points chosen by the caller

`disperse` of `automation/holographic_ida.py` takes an explicit list of points and tests that they are
distinct and not 0, as ints. The tables of the field are Python lists, so that an int from -256 to -1 is
looked up as well, counted from the end.

`interpolateInt_eq` compares the arithmetic on ints with that of the field, and `reconstructAt_of_blocks` lifts
it to all blocks. `recovers_iff` says which points give the content back: different bytes, or any for `k = 1`.
-/

namespace SocioWorkspace.Holographic
open ListPoly List Polynomial Except

/-- Python `_LOG[b]`; a negative index counts from the end. -/
def logAt (b : ℤ) : Except IdaError ℕ :=
  if 0 ≤ b ∧ b < 256 then .ok (LOG.getD b.toNat 0)
  else if -256 ≤ b ∧ b < 0 then .ok (LOG.getD (256 + b).toNat 0)
  else .error .index

/-- Python `_mul` of a byte and an int. -/
def mulInt (a : Gf256) (b : ℤ) : Except IdaError Gf256 :=
  if a = 0 ∨ b = 0 then .ok 0 else do return EXP.getD (log a + (← logAt b)) 0

/-- Python `_eval_poly` at an int. -/
def evalPolyInt (coeffs : Bytes) (x : ℤ) : Except IdaError Gf256 :=
  coeffs.reverse.foldlM (fun acc c => do return (← mulInt acc x) + c) 0

/-- Python `_poly_mul` of bytes and ints. -/
def polyMulInt (a : Bytes) (b : List ℤ) : Except IdaError Bytes :=
  a.zipIdx.foldlM
    (fun out (ai, i) =>
      if ai = 0 then .ok out
      else do
        let row ← b.zipIdx.mapM fun (bj, j) => do return (i + j, ← mulInt ai bj)
        return addAll out row)
    (List.replicate (a.length + b.length - 1) 0)

def basisInt (xs : List ℤ) (i : ℕ) (js : List ℕ) : Except IdaError (Bytes × Gf256) :=
  js.foldlM
    (fun (num, denom) j =>
      if j = i then .ok (num, denom)
      else do
        let num ← polyMulInt num [xs.getD j 0, 1]
        let denom ← mulInt denom ((xs.getD i 0).xor (xs.getD j 0))
        return (num, denom))
    ([1], 1)

def addTermInt (xs : List ℤ) (ys : Bytes) (coeffs : Bytes) (i : ℕ) : Except IdaError Bytes := do
  let basis ← basisInt xs i (List.range xs.length)
  let scale := mul (ys.getD i 0) (← inv basis.2)
  return addAll coeffs (basis.1.zipIdx.map fun (c, d) => (d, mul c scale))

/-- Python `_interpolate_coeffs`. -/
def interpolateInt (xs : List ℤ) (ys : Bytes) : Except IdaError Bytes :=
  (List.range xs.length).foldlM (addTermInt xs ys) (List.replicate xs.length 0)

structure DispersalAt where
  k : ℕ
  n : ℕ
  origLen : ℕ
  xs : List ℤ
  fragments : List (ℤ × Bytes)
deriving DecidableEq

def appendValues (frags : List (ℤ × Bytes)) (block : Bytes) : Except IdaError (List (ℤ × Bytes)) :=
  frags.mapM fun (x, b) => do return (x, b ++ [← evalPolyInt block x])

/-- Python `disperse`. -/
def disperseAt (leaf : Bytes) (k n : ℕ) (xs : Option (List ℤ)) : Except IdaError DispersalAt :=
  if 1 ≤ k ∧ k ≤ n ∧ n ≤ 255 then
    let points := xs.getD ((List.range' 1 n).map Nat.cast)
    if points.length ≠ n ∨ points.dedup.length ≠ n ∨ 0 ∈ points then
      .error (.value "xs must be n distinct nonzero points")
    else do
      let frags ← (blocks k (padded k leaf)).foldlM appendValues (points.map (·, []))
      return ⟨k, n, leaf.length, points, frags⟩
  else .error (.value "require 1 <= k <= n <= 255")

def byteAtInt (fragments : List (ℤ × Bytes)) (pos : ℕ) (x : ℤ) : Except IdaError Gf256 :=
  match (fragments.lookup x).bind (·[pos]?) with
  | some y => .ok y
  | none => .error .index

/-- Python `reconstruct`. -/
def reconstructAt (fragments : List (ℤ × Bytes)) (k origLen : ℕ) : Except IdaError Bytes :=
  let xs := (fragments.map (·.1)).insertionSort (· ≤ ·)
  if xs.length < k then
    .error (.value ("need " ++ toString k ++ " fragments to reconstruct; got "
      ++ toString xs.length))
  else
    match xs.take k with
    | [] => .error .index
    | x :: rest => do
      let flen := ((fragments.lookup x).getD []).length
      let out ← (List.range flen).mapM fun pos => do
        let ys ← (x :: rest).mapM (byteAtInt fragments pos)
        interpolateInt (x :: rest) ys
      return out.flatten.take origLen

def InTable (x : ℤ) : Prop := -256 ≤ x ∧ x ≤ 255

instance (x : ℤ) : Decidable (InTable x) := inferInstanceAs (Decidable (_ ∧ _))

def element (x : ℤ) : Gf256 := if x = -256 then 1 else ⟨BitVec.ofInt 8 x⟩

variable {x : ℤ}

lemma element_eq (hx : x ≠ -256) : element x = ⟨BitVec.ofInt 8 x⟩ := if_neg hx

lemma log_zero : LOG.getD 0 0 = 0 := by decide +kernel

lemma log_one : log 1 = 0 := LOG_exp (i := 0) (by decide)

lemma toNat_bits_element (hx : x ≠ -256) : ((element x).bits.toNat : ℤ) = x % 256 := by
  rw [element, if_neg hx, BitVec.toNat_ofInt, Int.toNat_of_nonneg (Int.emod_nonneg x (by decide))]
  rfl

lemma element_ne_zero (hx : InTable x) (h0 : x ≠ 0) : element x ≠ 0 := by
  intro h
  by_cases hx' : x = -256
  · subst hx'
    exact absurd h (by decide)
  · have hn := toNat_bits_element hx'
    rw [h] at hn
    change (0 : ℤ) = x % 256 at hn
    obtain ⟨hlo, hhi⟩ := hx
    omega

lemma logAt_eq (hx : InTable x) (h0 : x ≠ 0) : logAt x = .ok (log (element x)) := by
  obtain ⟨hlo, hhi⟩ := hx
  rw [logAt]
  split_ifs with hpos hneg
  · have hn := toNat_bits_element (x := x) (by omega)
    rw [log, show x.toNat = (element x).bits.toNat by omega]
  · by_cases hx' : x = -256
    · subst hx'
      show ok (LOG.getD 0 0) = .ok (log 1)
      rw [log_zero, log_one]
    · have hn := toNat_bits_element hx'
      rw [log, show (256 + x).toNat = (element x).bits.toNat by omega]
  · omega

lemma logAt_error (hx : ¬ InTable x) : logAt x = .error .index := by
  rw [InTable] at hx
  rw [logAt, if_neg (by omega), if_neg (by omega)]

lemma mulInt_eq (hx : InTable x) (a : Gf256) : mulInt a x = .ok (mul a (element x)) := by
  by_cases h0 : x = 0
  · subst h0
    rw [mulInt, if_pos (.inr rfl), mul, if_pos (.inr rfl)]
  · rw [mulInt, mul, logAt_eq hx h0]
    by_cases ha : a = 0
    · rw [if_pos (.inl ha), if_pos (.inl ha)]
    · rw [if_neg (not_or.2 ⟨ha, h0⟩), if_neg (not_or.2 ⟨ha, element_ne_zero hx h0⟩)]
      rfl

lemma mulInt_ne_ok (hx : ¬ InTable x) {a} (ha : a ≠ 0) (r : Gf256) : mulInt a x ≠ .ok r := by
  have h0 : x ≠ 0 := by
    rintro rfl
    exact hx (by decide)
  rw [mulInt, if_neg (not_or.2 ⟨ha, h0⟩), logAt_error hx]
  intro h
  cases h

section
variable {x y : ℤ}

lemma xor_ne_zero (h : x ≠ y) : x.xor y ≠ 0 := by
  cases x with
  | ofNat m =>
    cases y with
    | ofNat n =>
      intro h0
      exact h (congrArg Int.ofNat (Nat.xor_eq_zero_iff.1 (Int.ofNat.inj h0)))
    | negSucc n => exact Int.negSucc_ne_zero _
  | negSucc m =>
    cases y with
    | ofNat n => exact Int.negSucc_ne_zero _
    | negSucc n =>
      intro h0
      exact h (congrArg Int.negSucc (Nat.xor_eq_zero_iff.1 (Int.ofNat.inj h0)))

lemma inTable_iff : InTable x ↔ ∃ m < 2 ^ 8, x = .ofNat m ∨ x = .negSucc m := by
  constructor
  · rintro ⟨hlo, hhi⟩
    cases x with
    | ofNat m =>
      change (m : ℤ) ≤ 255 at hhi
      exact ⟨m, by omega, .inl rfl⟩
    | negSucc m => exact ⟨m, by omega, .inr rfl⟩
  · rintro ⟨m, hm, rfl | rfl⟩
    · change -256 ≤ (m : ℤ) ∧ (m : ℤ) ≤ 255
      omega
    · exact ⟨by omega, by omega⟩

lemma inTable_xor (hx : InTable x) (hy : InTable y) : InTable (x.xor y) := by
  obtain ⟨m, hm, hx⟩ := inTable_iff.1 hx
  obtain ⟨n, hn, hy⟩ := inTable_iff.1 hy
  refine inTable_iff.2 ⟨m ^^^ n, Nat.xor_lt_two_pow hm hn, ?_⟩
  rcases hx with rfl | rfl
  · rcases hy with rfl | rfl
    · exact .inl rfl
    · exact .inr rfl
  · rcases hy with rfl | rfl
    · exact .inr rfl
    · exact .inl rfl

lemma ofInt_xor (w : ℕ) (x y : ℤ) : BitVec.ofInt w (x.xor y) = BitVec.ofInt w x ^^^ BitVec.ofInt w y := by
  cases x with
  | ofNat m =>
    cases y with
    | ofNat n =>
      simp only [Int.xor, Int.ofNat_eq_natCast, BitVec.ofInt_natCast, BitVec.ofNat_xor]
    | negSucc n =>
      simp only [Int.xor, Int.ofNat_eq_natCast, BitVec.ofInt_natCast, BitVec.ofNat_xor,
        BitVec.ofInt_negSucc_eq_not_ofNat, BitVec.not_xor_right]
  | negSucc m =>
    cases y with
    | ofNat n =>
      simp only [Int.xor, Int.ofNat_eq_natCast, BitVec.ofInt_natCast, BitVec.ofNat_xor,
        BitVec.ofInt_negSucc_eq_not_ofNat, BitVec.not_xor_left]
    | negSucc n =>
      simp only [Int.xor, BitVec.ofInt_natCast, BitVec.ofNat_xor,
        BitVec.ofInt_negSucc_eq_not_ofNat, ← BitVec.not_xor_left, ← BitVec.not_xor_right,
        BitVec.not_not]

end

lemma element_xor {x y} (hx : x ≠ -256) (hy : y ≠ -256) (hne : element x ≠ element y) :
    element (x.xor y) = element x - element y := by
  have hbits := ofInt_xor 8 x y
  rw [element_eq hx, element_eq hy] at hne ⊢
  have hlow : x.xor y ≠ -256 := by
    intro h
    rw [h] at hbits
    refine hne (Gf256.ext_bits (BitVec.xor_eq_zero_iff.1 ?_))
    exact hbits.symm.trans (by decide)
  rw [element_eq hlow, hbits]
  exact (Gf256.sub_eq_add _ _).symm

/-- Seen from -256, which stands for 1, every point looks as if it was compared with 0. -/
lemma element_xor_low (hx : InTable x) (hx' : x ≠ -256) (h0 : x ≠ 0) :
    element (x.xor (-256)) = element x := by
  have hbits := ofInt_xor 8 x (-256)
  rw [show BitVec.ofInt 8 (-256) = 0#8 by decide, BitVec.xor_zero] at hbits
  have hne := element_ne_zero hx h0
  rw [element_eq hx'] at hne ⊢
  have hlow : x.xor (-256) ≠ -256 := by
    intro h
    rw [h] at hbits
    exact hne (Gf256.ext_bits (hbits.symm.trans (by decide)))
  rw [element_eq hlow, hbits]

section
open Polynomial

lemma evalPolyInt_eq {x} (hx : InTable x) (coeffs : Bytes) :
    evalPolyInt coeffs x = .ok (evalPoly coeffs (element x)) := by
  rw [evalPolyInt, evalPoly]
  refine foldlM_eq_ok (fun c _ acc => ?_) 0
  rw [mulInt_eq hx]
  rfl

lemma evalPolyInt_singleton (c : Gf256) (x : ℤ) : evalPolyInt [c] x = .ok c := by
  show (do return (← mulInt 0 x) + c) = ok c
  rw [mulInt, if_pos (.inl rfl)]
  exact congrArg ok (zero_add c)

lemma polyMulInt_eq {b} (hb : ∀ x ∈ b, InTable x) (a : Bytes) :
    polyMulInt a b = .ok (polyMul a (b.map element)) := by
  rw [polyMulInt, polyMul, length_map]
  refine foldlM_eq_ok (fun p _ out => ?_) _
  obtain ⟨ai, i⟩ := p
  by_cases ha : ai = 0
  · simp only [ha, if_true]
  · simp only [ha, if_false]
    rw [mapM_eq_ok (g := fun q => (i + q.2, mul ai (element q.1))), zipIdx_map, map_map]
    · rfl
    · intro q hq
      rw [mulInt_eq (hb q.1 (fst_mem_of_mem_zipIdx hq))]
      rfl

lemma polyMulInt_ne_ok {x} (hx : ¬ InTable x) {num} (h : toPoly num ≠ 0) (r : Bytes) :
    polyMulInt num [x, 1] ≠ .ok r := by
  have hcoeff : ∃ a ∈ num, a ≠ 0 := by
    by_contra hall
    push Not at hall
    apply h
    rw [eq_replicate_of_mem hall, toPoly_replicate_zero]
  obtain ⟨a, ha, hne⟩ := hcoeff
  obtain ⟨i, hi, he⟩ := getElem_of_mem ha
  refine foldlM_ne_ok (I := fun _ => True) (fun _ _ _ _ _ => trivial) ⟨(a, i), ?_, ?_⟩ trivial r
  · rw [← he]
    exact mk_mem_zipIdx_iff_getElem?.2 (getElem?_eq_getElem hi)
  · intro out c _ hok
    simp only [hne, if_false] at hok
    obtain ⟨row, hrow, -⟩ := bind_eq_ok.1 hok
    obtain ⟨p, hp, -⟩ := bind_eq_ok.1 hrow
    obtain ⟨y, hy, -⟩ := bind_eq_ok.1 hp
    exact mulInt_ne_ok hx hne y hy

def basisElement (xs : List ℤ) (i : ℕ) (js : List ℕ) : Bytes × Gf256 :=
  basisWith (fun j => element (xs.getD j 0)) (fun j => element ((xs.getD i 0).xor (xs.getD j 0))) i js

/-- All that the interpolation looks up is in the table. -/
def Tabled (xs : List ℤ) : Prop := ∀ x ∈ xs, ∀ y ∈ xs, x ≠ y → InTable x ∧ InTable (x.xor y)

section
variable {xs : List ℤ} {i j : ℕ}

section
variable (h : Tabled xs) (hxs : xs.Nodup) (hi : i < xs.length)
include h hxs hi

lemma Tabled.getD (hj : j < xs.length)
    (hne : j ≠ i) : InTable (xs.getD j 0) ∧ InTable ((xs.getD i 0).xor (xs.getD j 0)) ∧
      xs.getD i 0 ≠ xs.getD j 0 := by
  rw [getD_eq_getElem _ _ hi, getD_eq_getElem _ _ hj]
  have hdiff : xs[i] ≠ xs[j] := fun he => hne ((hxs.getElem_inj_iff).1 he).symm
  refine ⟨(h _ (getElem_mem hj) _ (getElem_mem hi) hdiff.symm).1, ?_, hdiff⟩
  exact (h _ (getElem_mem hi) _ (getElem_mem hj) hdiff).2

lemma basisInt_eq : basisInt xs i (range xs.length) = .ok (basisElement xs i (range xs.length)) := by
  rw [basisInt, basisElement, basisWith]
  refine foldlM_eq_ok (fun j hj b => ?_) _
  obtain ⟨num, denom⟩ := b
  dsimp only
  split_ifs with hji
  · rfl
  · obtain ⟨hz, hf, -⟩ := h.getD hxs hi (mem_range.1 hj) hji
    rw [polyMulInt_eq (forall_mem_cons.2 ⟨hz, by decide⟩), mulInt_eq hf]
    rfl

lemma addTermInt_eq (ys coeffs : Bytes) :
    addTermInt xs ys coeffs i =
      .ok (termWith (basisElement xs i (range xs.length)) (ys.getD i 0) coeffs) := by
  have hne : (basisElement xs i (range xs.length)).2 ≠ 0 := by
    rw [basisElement, (basisWith_spec _ _ i _).2.2]
    refine prod_ne_zero fun h0 => ?_
    obtain ⟨j, hj, he⟩ := mem_map.1 h0
    obtain ⟨hjr, hji⟩ := mem_filter.1 hj
    obtain ⟨-, hf, hdiff⟩ := h.getD hxs hi (mem_range.1 hjr) (of_decide_eq_true hji)
    exact element_ne_zero hf (xor_ne_zero hdiff) he
  rw [addTermInt, basisInt_eq h hxs hi]
  show (do let s ← inv _; return _) = _
  rw [Gf256.inv_eq hne]
  rfl

end

lemma interpolateInt_spec (h : Tabled xs) (hxs : xs.Nodup) (ys : Bytes) :
    ∃ coeffs, interpolateInt xs ys = .ok coeffs ∧ coeffs.length = xs.length ∧
      toPoly coeffs = ((range xs.length).map fun i =>
        C (ys.getD i 0 * (basisElement xs i (range xs.length)).2⁻¹) *
          toPoly (basisElement xs i (range xs.length)).1).sum := by
  have hfit : ∀ i ∈ range xs.length, (basisElement xs i (range xs.length)).1.length ≤ xs.length :=
    fun i hi => length_basisWith _ _ (mem_range.1 hi)
  obtain ⟨hl, hp⟩ := toPoly_terms (fun i => ys.getD i 0) _ hfit (length_replicate (a := (0 : Gf256)))
  refine ⟨_, foldlM_eq_ok (fun i hi coeffs => addTermInt_eq h hxs (mem_range.1 hi) ys coeffs) _, hl, ?_⟩
  rw [hp, toPoly_replicate_zero, zero_add]

/-- Different points are different bytes, and their difference is looked up as such. -/
def Separates (xs : List ℤ) : Prop :=
  ∀ x ∈ xs, ∀ y ∈ xs, x ≠ y → element x ≠ element y ∧ element (x.xor y) = element x - element y

/-- The interpolation returns the coefficients of the block. -/
theorem interpolateInt_eq (ht : Tabled xs) (hs : Separates xs) (hxs : xs.Nodup) {block}
    (hlen : block.length = xs.length) :
    interpolateInt xs (xs.map fun x => evalPoly block (element x)) = .ok block := by
  obtain ⟨coeffs, hok, hl, hp⟩ := interpolateInt_spec ht hxs (xs.map fun x => evalPoly block (element x))
  have hnodup : (xs.map element).Nodup :=
    hxs.map_on fun x hx y hy he => by_contra fun hne => (hs x hx y hy hne).1 he
  have hget : ∀ j < xs.length, (xs.map element).getD j 0 = element (xs.getD j 0) := by
    intro j hj
    rw [getD_eq_getElem _ _ (by rwa [length_map]), getElem_map, getD_eq_getElem _ _ hj]
  have hterm : ∀ i ∈ range xs.length,
      C ((xs.map fun x => evalPoly block (element x)).getD i 0 *
          (basisElement xs i (range xs.length)).2⁻¹) *
        toPoly (basisElement xs i (range xs.length)).1 =
      lagrangeTerm (xs.map element) i ((toPoly block).eval ((xs.map element).getD i 0)) := by
    intro i hi
    have hi' := mem_range.1 hi
    obtain ⟨hnum, -, hden⟩ := basisWith_spec (fun j => element (xs.getD j 0))
      (fun j => element ((xs.getD i 0).xor (xs.getD j 0))) i (range xs.length)
    rw [basisElement, hnum, hden, lagrangeTerm, length_map, hget i hi',
      getD_eq_getElem _ _ (by rwa [length_map]), getElem_map, evalPoly_eq,
      getD_eq_getElem _ _ hi']
    congr 1
    · congr 3
      refine congrArg prod (map_congr_left fun j hj => ?_)
      obtain ⟨hjr, hji⟩ := mem_filter.1 hj
      obtain ⟨-, -, hdiff⟩ := ht.getD hxs hi' (mem_range.1 hjr) (of_decide_eq_true hji)
      rw [hget j (mem_range.1 hjr)]
      rw [getD_eq_getElem _ _ hi'] at hdiff
      rw [getD_eq_getElem _ _ (mem_range.1 hjr)] at hdiff ⊢
      exact (hs _ (getElem_mem _) _ (getElem_mem _) hdiff).2
    · refine congrArg prod (map_congr_left fun j hj => ?_)
      rw [hget j (mem_range.1 (mem_filter.1 hj).1)]
  rw [hok]
  refine congrArg ok (toPoly_inj (hl.trans hlen.symm) ?_)
  have hlagrange := toPoly_eq_lagrange hnodup (hlen.trans (length_map _).symm)
  rw [length_map] at hlagrange
  rw [hp, map_congr_left hterm, ← hlagrange]

end

end

/-- What `disperse` accepts. -/
structure AcceptedPoints (k n : ℕ) (xs : List ℤ) : Prop where
  pos : 1 ≤ k
  le : k ≤ n
  small : n ≤ 255
  length : xs.length = n
  nodup : xs.Nodup
  nonzero : 0 ∉ xs

section
variable {k n : ℕ} {xs : List ℤ} {leaf : Bytes}

lemma disperseAt_eq (h : AcceptedPoints k n xs) : disperseAt leaf k n (some xs) = (do
    let frags ← (blocks k (padded k leaf)).foldlM appendValues (xs.map (·, []))
    return ⟨k, n, leaf.length, xs, frags⟩) := by
  have hpoints : ¬ (xs.length ≠ n ∨ xs.dedup.length ≠ n ∨ 0 ∈ xs) := by
    rw [h.nodup.dedup, not_or, not_or, not_not]
    exact ⟨h.length, h.length, h.nonzero⟩
  rw [disperseAt, if_pos ⟨h.pos, h.le, h.small⟩]
  exact if_neg hpoints

lemma accepted_of_disperseAt {d} (h : disperseAt leaf k n (some xs) = .ok d) : AcceptedPoints k n xs := by
  unfold disperseAt at h
  rw [Option.getD_some] at h
  by_cases hk : 1 ≤ k ∧ k ≤ n ∧ n ≤ 255
  · rw [if_pos hk] at h
    by_cases hpoints : xs.length ≠ n ∨ xs.dedup.length ≠ n ∨ 0 ∈ xs
    · simp only [hpoints, if_true] at h
      cases h
    · rw [not_or, not_or, not_not, not_not] at hpoints
      obtain ⟨hlen, hdedup, h0⟩ := hpoints
      refine ⟨hk.1, hk.2.1, hk.2.2, hlen, ?_, h0⟩
      rw [← dedup_eq_self]
      exact (dedup_sublist xs).eq_of_length (hdedup.trans hlen.symm)
  · rw [if_neg hk] at h
    cases h

lemma foldlM_appendValues {value : ℤ → Bytes → Gf256} (bs : List Bytes)
    (h : ∀ x ∈ xs, ∀ b ∈ bs, evalPolyInt b x = .ok (value x b)) (pre : ℤ → Bytes) :
    bs.foldlM appendValues (xs.map fun x => (x, pre x)) =
      .ok (xs.map fun x => (x, pre x ++ bs.map (value x))) := by
  induction bs generalizing pre with
  | nil =>
    simp only [map_nil, append_nil]
    rfl
  | cons b bs ih =>
    have hround : appendValues (xs.map fun x => (x, pre x)) b =
        .ok (xs.map fun x => (x, pre x ++ [value x b])) := by
      rw [appendValues, mapM_eq_ok (g := fun p => (p.1, p.2 ++ [value p.1 b])), map_map]
      · rfl
      · intro p hp
        obtain ⟨x, hx, rfl⟩ := mem_map.1 hp
        dsimp only
        rw [h x hx b mem_cons_self]
        rfl
    have hrest := ih (fun x hx c hc => h x hx c (mem_cons_of_mem b hc))
      fun x => pre x ++ [value x b]
    rw [foldlM_cons, hround]
    refine hrest.trans ?_
    simp only [append_assoc, singleton_append, map_cons]

lemma evalPolyInt_block {x block} (h : InTable x ∨ block.length = 1) :
    evalPolyInt block x = .ok (evalPoly block (element x)) := by
  cases h with
  | inl hx => exact evalPolyInt_eq hx block
  | inr hlen =>
    obtain ⟨c, rfl⟩ := length_eq_one_iff.1 hlen
    rw [evalPolyInt_singleton, evalPoly_eq]
    simp [toPoly_cons]

lemma fragments_eq {d} (h : disperseAt leaf k n (some xs) = .ok d)
    (htable : k = 1 ∨ ∀ x ∈ xs, InTable x) : d.fragments = xs.map fun x =>
      (x, (blocks k (padded k leaf)).map fun block => evalPoly block (element x)) := by
  have hacc := accepted_of_disperseAt h
  have hvalues : ∀ x ∈ xs, ∀ b ∈ blocks k (padded k leaf),
      evalPolyInt b x = .ok (evalPoly b (element x)) := by
    intro x hx b hb
    refine evalPolyInt_block (htable.symm.imp (fun ht => ht x hx) fun hk => ?_)
    rw [length_of_mem_blocks (dvd_length_padded hacc.pos leaf) hb, hk]
  rw [disperseAt_eq hacc, foldlM_appendValues _ hvalues fun _ => []] at h
  cases h
  rfl

variable {origLen : ℕ} {fs : List (ℤ × Bytes)}

lemma byteAtInt_eq_ok {pos x y} :
    byteAtInt fs pos x = .ok y ↔ ∃ b, fs.lookup x = some b ∧ b[pos]? = some y := by
  rw [← Option.bind_eq_some_iff, byteAtInt]
  cases (fs.lookup x).bind (·[pos]?) with
  | none => simp
  | some y' => simp

section
variable (hk : 1 ≤ k) (hnodup : (fs.map (·.1)).Nodup) (hlen : k ≤ fs.length)
include hk hnodup hlen

lemma reconstructAt_rounds {flen} (hflen : ∀ p ∈ fs, p.2.length = flen) : reconstructAt fs k origLen = (do
      let out ← (range flen).mapM fun pos => do
        interpolateInt (usedIds fs k) (← (usedIds fs k).mapM (byteAtInt fs pos))
      return out.flatten.take origLen) := by
  have hsorted : k ≤ ((fs.map (·.1)).insertionSort (· ≤ ·)).length := by
    rwa [length_insertionSort, length_map]
  unfold reconstructAt
  simp only [not_lt.2 hsorted, if_false]
  rw [← usedIds]
  cases hids : usedIds fs k with
  | nil =>
    have hcount := length_usedIds hlen
    rw [hids, length_nil] at hcount
    omega
  | cons x rest =>
    obtain ⟨b, hb, hlookup⟩ := mem_of_mem_usedIds hnodup (hids ▸ mem_cons_self)
    simp only [hlookup, Option.getD_some, hflen _ hb]

/-- Fragments that hold the values of blocks at separated points reconstruct the blocks. -/
theorem reconstructAt_of_blocks (htabled : Tabled (usedIds fs k)) (hsep : Separates (usedIds fs k))
    {bs : List Bytes} (hblocks : ∀ b ∈ bs, b.length = k)
    (hvalues : ∀ p ∈ fs, p.2 = bs.map fun block => evalPoly block (element p.1)) :
    reconstructAt fs k origLen = .ok (bs.flatten.take origLen) := by
  have hround : ∀ pos ∈ range bs.length, (do
      interpolateInt (usedIds fs k) (← (usedIds fs k).mapM (byteAtInt fs pos))) =
        ok (bs.getD pos []) := by
    intro pos hpos
    rw [mem_range] at hpos
    have hbytes : (usedIds fs k).mapM (byteAtInt fs pos) = .ok ((usedIds fs k).map fun x =>
        evalPoly (bs.getD pos []) (element x)) := by
      refine mapM_eq_ok fun x hx => ?_
      obtain ⟨b, hb, hlookup⟩ := mem_of_mem_usedIds hnodup hx
      refine byteAtInt_eq_ok.2 ⟨b, hlookup, ?_⟩
      rw [show b = _ from hvalues _ hb, getElem?_map, getElem?_eq_getElem hpos,
        getD_eq_getElem _ _ hpos, Option.map_some]
    rw [hbytes]
    refine interpolateInt_eq htabled hsep (nodup_usedIds hnodup) ?_
    rw [length_usedIds hlen, getD_eq_getElem _ _ hpos]
    exact hblocks _ (getElem_mem hpos)
  have hflen : ∀ p ∈ fs, p.2.length = bs.length := by
    intro p hp
    rw [hvalues p hp, length_map]
  rw [reconstructAt_rounds hk hnodup hlen hflen, mapM_eq_ok hround, map_getD_range]
  rfl

end

def oneBlock (k : ℕ) : Bytes := 1 :: List.replicate (k - 1) 0

lemma length_oneBlock {k} (hk : 1 ≤ k) : (oneBlock k).length = k := by
  rw [oneBlock, length_cons, length_replicate]
  omega

lemma toPoly_oneBlock (k : ℕ) : toPoly (oneBlock k) = 1 := by
  rw [oneBlock, toPoly_cons, toPoly_replicate_zero, mul_zero, add_zero, Polynomial.C_1]

lemma evalPolyInt_oneBlock (k : ℕ) (x : ℤ) : evalPolyInt (oneBlock k) x = .ok 1 := by
  have hzeros : (replicate (k - 1) (0 : Gf256)).foldlM
      (fun acc c => do return (← mulInt acc x) + c) 0 = ok 0 := by
    induction k - 1 with
    | zero => rfl
    | succ m ih => exact ih
  rw [evalPolyInt, oneBlock, reverse_cons, reverse_replicate, foldlM_append, hzeros]
  rfl

variable {ids : List ℤ}

lemma blocks_oneBlock (hk : 1 ≤ k) : blocks k (padded k (oneBlock k)) = [oneBlock k] := by
  have hlen := length_oneBlock hk
  have hpad : padded k (oneBlock k) = oneBlock k := by
    rw [padded, hlen, Nat.mod_self, Nat.sub_zero, Nat.mod_self, replicate_zero, append_nil]
  have hcount : (k + k - 1) / k = 1 := by
    rw [Nat.div_eq_of_lt_le] <;> omega
  rw [hpad, blocks, hlen, hcount]
  show [((oneBlock k).drop (0 * k)).take k] = _
  rw [Nat.zero_mul, drop_zero, take_of_length_le hlen.le]

lemma disperseAt_oneBlock (h : AcceptedPoints k n xs) :
    disperseAt (oneBlock k) k n (some xs) = .ok ⟨k, n, k, xs, xs.map (·, [1])⟩ := by
  let value : ℤ → Bytes → Gf256 := fun _ _ => 1
  have hvalue : ∀ x ∈ xs, ∀ b ∈ [oneBlock k], evalPolyInt b x = .ok (value x b) := by
    intro x _ b hb
    rw [mem_singleton.1 hb]
    exact evalPolyInt_oneBlock k x
  rw [disperseAt_eq h, blocks_oneBlock h.pos, length_oneBlock h.pos,
    foldlM_appendValues [oneBlock k] hvalue fun _ => []]
  rfl

lemma ids_ones (ids : List ℤ) : (ids.map fun x => (x, ([1] : Bytes))).map (·.1) = ids := by
  rw [map_map]
  exact map_id _

lemma reconstructAt_ones (hk : 1 ≤ k) (hnodup : ids.Nodup) (hlen : ids.length = k) :
    reconstructAt (ids.map (·, [1])) k k =
      (interpolateInt (ids.insertionSort (· ≤ ·)) (replicate k 1)).map (·.take k) := by
  have hused : usedIds (ids.map (·, [1])) k = ids.insertionSort (· ≤ ·) := by
    rw [usedIds, ids_ones, take_of_length_le]
    rw [length_insertionSort, hlen]
  have hbytes : (ids.insertionSort (· ≤ ·)).mapM (byteAtInt (ids.map (·, [1])) 0) =
      .ok (replicate k 1) := by
    rw [mapM_eq_ok (g := fun _ => 1), map_const', length_insertionSort, hlen]
    intro x hx
    have hx' := (perm_insertionSort _ _).subset hx
    refine byteAtInt_eq_ok.2 ⟨[1], (SortedMap.lookup_eq_some ?_).2 (mem_map_of_mem hx'), rfl⟩
    rwa [ids_ones]
  have hflen : ∀ p ∈ ids.map fun x => (x, ([1] : Bytes)), p.2.length = 1 := by
    intro p hp
    obtain ⟨x, -, rfl⟩ := mem_map.1 hp
    rfl
  rw [reconstructAt_rounds hk (by rwa [ids_ones]) (by rw [length_map, hlen]) hflen, hused,
    range_one, mapM_cons, mapM_nil, hbytes]
  change (interpolateInt (ids.insertionSort (· ≤ ·)) (replicate k 1) >>= _) >>= _ = _
  cases interpolateInt (ids.insertionSort (· ≤ ·)) (replicate k 1) with
  | error e => rfl
  | ok c => exact congrArg (fun l => ok (take k l)) flatten_singleton

/-- A point outside of the table is looked up in the round of any other point. -/
lemma interpolateInt_ne_ok {i j} (hi : i < ids.length) (hj : j < ids.length) (hne : j ≠ i)
    (hx : ¬ InTable (ids.getD j 0)) (ys c : Bytes) : interpolateInt ids ys ≠ .ok c := by
  have hpoly : ∀ x (num num' : Bytes), toPoly num ≠ 0 → polyMulInt num [x, 1] = .ok num' →
      toPoly num' ≠ 0 := by
    intro x num num' hnum hok
    have hx : InTable x := by_contra fun hx => polyMulInt_ne_ok hx hnum num' hok
    rw [polyMulInt_eq (forall_mem_cons.2 ⟨hx, by decide⟩)] at hok
    cases hok
    rw [toPoly_polyMul]
    refine mul_ne_zero hnum fun h0 => ?_
    -- the second factor is monic
    have hcoeff := congrArg (coeff · 1) h0
    simp only [coeff_toPoly, coeff_zero] at hcoeff
    change element 1 = 0 at hcoeff
    exact absurd hcoeff (by decide)
  have hbasis : ∀ r, basisInt ids i (range ids.length) ≠ .ok r := by
    refine foldlM_ne_ok (I := fun b : Bytes × Gf256 => toPoly b.1 ≠ 0) ?_ ⟨j, mem_range.2 hj, ?_⟩ ?_
    · rintro m ⟨num, denom⟩ ⟨num', denom'⟩ hnum hok
      dsimp only at hok
      split_ifs at hok
      · cases hok
        exact hnum
      · obtain ⟨num₁, hnum₁, hok⟩ := bind_eq_ok.1 hok
        obtain ⟨denom₁, -, hok⟩ := bind_eq_ok.1 hok
        cases hok
        exact hpoly _ num _ hnum hnum₁
    · rintro ⟨num, denom⟩ r hnum hok
      dsimp only at hok
      rw [if_neg hne] at hok
      obtain ⟨num', hnum', -⟩ := bind_eq_ok.1 hok
      exact polyMulInt_ne_ok hx hnum num' hnum'
    · simp [toPoly_cons]
  refine foldlM_ne_ok (I := fun _ => True) (fun _ _ _ _ _ => trivial) ⟨i, mem_range.2 hi, ?_⟩ trivial c
  intro coeffs r _ hok
  obtain ⟨basis, hb, -⟩ := bind_eq_ok.1 hok
  exact hbasis basis hb

lemma eval_ones (htabled : Tabled ids) (hnodup : ids.Nodup)
    (h : (interpolateInt ids (replicate ids.length 1)).map (·.take ids.length) =
      .ok (oneBlock ids.length)) (e : Gf256) :
    1 = ∑ i ∈ Finset.range ids.length,
      (∏ j ∈ (Finset.range ids.length).erase i, element ((ids.getD i 0).xor (ids.getD j 0)))⁻¹ *
        ∏ j ∈ (Finset.range ids.length).erase i, (e - element (ids.getD j 0)) := by
  obtain ⟨coeffs, hok, hl, hp⟩ := interpolateInt_spec htabled hnodup (replicate ids.length 1)
  rw [hok] at h
  obtain rfl : coeffs = oneBlock ids.length := by
    rw [← ok.inj h]
    exact (take_of_length_le hl.le).symm
  rw [toPoly_oneBlock, ← sum_toFinset _ nodup_range, toFinset_range] at hp
  have heval := congrArg (eval e) hp
  rw [eval_one, eval_finsetSum] at heval
  rw [heval]
  refine Finset.sum_congr rfl fun i hi => ?_
  obtain ⟨hnum, -, hden⟩ := basisWith_spec (fun j => element (ids.getD j 0))
    (fun j => element ((ids.getD i 0).xor (ids.getD j 0))) i (range ids.length)
  rw [eval_mul, eval_C, basisElement, hnum, hden,
    getD_replicate _ (Finset.mem_range.1 hi), one_mul, prod_erase_range, prod_erase_range,
    eval_list_prod, map_map]
  simp only [Function.comp_def, eval_sub, eval_X, eval_C]

/-- With -256 among the points the constant 1 is not recovered: elsewhere the value is off by a factor. -/
lemma low_point (hnodup : ids.Nodup) (h0 : 0 ∉ ids) (htable : ∀ x ∈ ids, InTable x)
    (hbytes : ∀ i < ids.length, ∀ j < ids.length, i ≠ j →
      element (ids.getD i 0) ≠ element (ids.getD j 0)) {q m} (hq : q < ids.length)
    (hm : m < ids.length) (hqm : q ≠ m) (hlow : ids.getD m 0 = -256)
    (heval : 1 = ∑ i ∈ Finset.range ids.length,
      (∏ j ∈ (Finset.range ids.length).erase i, element ((ids.getD i 0).xor (ids.getD j 0)))⁻¹ *
        ∏ j ∈ (Finset.range ids.length).erase i,
          (element (ids.getD q 0) - element (ids.getD j 0))) : (1 : Gf256) = 0 := by
  have hget : ∀ {j}, j < ids.length → ids.getD j 0 ∈ ids := by
    intro j hj
    rw [getD_eq_getElem _ _ hj]
    exact getElem_mem hj
  have hhigh : ∀ j < ids.length, j ≠ m → ids.getD j 0 ≠ -256 := by
    intro j hj hjm he
    rw [← hlow, getD_eq_getElem _ _ hj, getD_eq_getElem _ _ hm, hnodup.getElem_inj_iff] at he
    exact hjm he
  have hq0 : ids.getD q 0 ≠ 0 := fun he => h0 (he ▸ hget hq)
  have hmem : m ∈ (Finset.range ids.length).erase q := Finset.mem_erase.2 ⟨hqm.symm, Finset.mem_range.2 hm⟩
  have hrest : ∀ j ∈ ((Finset.range ids.length).erase q).erase m,
      element ((ids.getD q 0).xor (ids.getD j 0)) = element (ids.getD q 0) - element (ids.getD j 0) ∧
      element (ids.getD q 0) - element (ids.getD j 0) ≠ 0 := by
    intro j hj
    obtain ⟨hjm, hj⟩ := Finset.mem_erase.1 hj
    obtain ⟨hjq, hj⟩ := Finset.mem_erase.1 hj
    have hne := hbytes q hq j (Finset.mem_range.1 hj) hjq.symm
    exact ⟨element_xor (hhigh q hq hqm) (hhigh j (Finset.mem_range.1 hj) hjm) hne, sub_ne_zero.2 hne⟩
  rw [Finset.sum_eq_single q, ← Finset.mul_prod_erase _ _ hmem, ← Finset.mul_prod_erase _ _ hmem,
    Finset.prod_congr rfl fun j hj => (hrest j hj).1, hlow,
    element_xor_low (htable _ (hget hq)) (hhigh q hq hqm) hq0] at heval
  · have hprod := Finset.prod_ne_zero_iff.2 fun j hj => (hrest j hj).2
    have hq1 := element_ne_zero (htable _ (hget hq)) hq0
    rw [eq_comm, inv_mul_eq_one₀ (mul_ne_zero hq1 hprod)] at heval
    have hcancel := mul_right_cancel₀ hprod heval
    exact sub_eq_self.1 hcancel.symm
  · intro i _ hiq
    refine mul_eq_zero_of_right _ (Finset.prod_eq_zero (i := q) ?_ (sub_self _))
    exact Finset.mem_erase.2 ⟨Ne.symm hiq, Finset.mem_range.2 hq⟩
  · intro hq'
    exact absurd (Finset.mem_range.2 hq) hq'

lemma separated_of_ones (hnodup : ids.Nodup) (h0 : 0 ∉ ids) (hk : 2 ≤ ids.length)
    (h : (interpolateInt ids (replicate ids.length 1)).map (·.take ids.length) =
      .ok (oneBlock ids.length)) : (∀ x ∈ ids, InTable x ∧ x ≠ -256) ∧ (ids.map element).Nodup := by
  have hother : ∀ {j}, j < ids.length → ∃ i < ids.length, i ≠ j := by
    intro j hj
    by_cases hj0 : j = 0
    · exact ⟨1, hk, by omega⟩
    · exact ⟨0, by omega, Ne.symm hj0⟩
  have htable : ∀ x ∈ ids, InTable x := by
    intro x hx
    obtain ⟨j, hj, rfl⟩ := getElem_of_mem hx
    obtain ⟨i, hi, hij⟩ := hother hj
    by_contra hx'
    rw [← getD_eq_getElem ids 0 hj] at hx'
    cases hc : interpolateInt ids (replicate ids.length 1) with
    | error e =>
      rw [hc] at h
      cases h
    | ok c => exact interpolateInt_ne_ok hi hj hij.symm hx' _ c hc
  have htabled : Tabled ids := by
    intro x hx y hy _
    exact ⟨htable x hx, inTable_xor (htable x hx) (htable y hy)⟩
  have heval := eval_ones htabled hnodup h
  -- with two points of one byte every basis polynomial vanishes there
  have hbytes : ∀ i < ids.length, ∀ j < ids.length, i ≠ j →
      element (ids.getD i 0) ≠ element (ids.getD j 0) := by
    intro a ha b hb hab he
    refine one_ne_zero ((heval (element (ids.getD a 0))).trans (Finset.sum_eq_zero fun i _ => ?_))
    refine mul_eq_zero_of_right _ ?_
    by_cases hia : i = a
    · refine Finset.prod_eq_zero (i := b) ?_ (sub_eq_zero.2 he)
      exact Finset.mem_erase.2 ⟨hia ▸ hab.symm, Finset.mem_range.2 hb⟩
    · refine Finset.prod_eq_zero (i := a) ?_ (sub_self _)
      exact Finset.mem_erase.2 ⟨Ne.symm hia, Finset.mem_range.2 ha⟩
  refine ⟨fun x hx => ⟨htable x hx, ?_⟩, hnodup.map_on fun x hx y hy he => ?_⟩
  · rintro rfl
    obtain ⟨m, hm, hlow⟩ := getElem_of_mem hx
    rw [← getD_eq_getElem ids 0 hm] at hlow
    obtain ⟨q, hq, hqm⟩ := hother hm
    exact one_ne_zero (low_point hnodup h0 htable hbytes hq hm hqm hlow (heval _))
  · obtain ⟨a, ha, rfl⟩ := getElem_of_mem hx
    obtain ⟨b, hb, rfl⟩ := getElem_of_mem hy
    by_contra hne
    refine hbytes a ha b hb (fun hab => hne (by simp only [hab])) ?_
    rwa [getD_eq_getElem _ _ ha, getD_eq_getElem _ _ hb]

/-- Whatever leaf is dispersed at the points, any `k` of its fragments reconstruct it. -/
def Recovers (k n : ℕ) (xs : List ℤ) : Prop :=
  ∀ leaf d, disperseAt leaf k n (some xs) = .ok d → ∀ fs ⊆ d.fragments, (fs.map (·.1)).Nodup →
    k ≤ fs.length → reconstructAt fs k d.origLen = .ok leaf

/-- The points are different bytes, with negative ones counted from 256. -/
def DifferentBytes (xs : List ℤ) : Prop := (∀ x ∈ xs, -255 ≤ x ∧ x ≤ 255) ∧ (xs.map (· % 256)).Nodup

variable {x y : ℤ}

lemma element_eq_iff (hx : x ≠ -256) (hy : y ≠ -256) : element x = element y ↔ x % 256 = y % 256 := by
  rw [← toNat_bits_element hx, ← toNat_bits_element hy, Nat.cast_inj]
  exact ⟨fun h => h ▸ rfl, fun h => Gf256.ext_bits (BitVec.eq_of_toNat_eq h)⟩

lemma DifferentBytes.inTable (h : DifferentBytes xs) : ∀ x ∈ xs, InTable x ∧ x ≠ -256 := by
  intro x hx
  have hbounds := h.1 x hx
  rw [InTable]
  omega

lemma DifferentBytes.separated (h : DifferentBytes xs) : Tabled xs ∧ Separates xs := by
  have hrange := h.inTable
  refine ⟨fun x hx y hy _ => ?_, fun x hx y hy hne => ?_⟩
  · exact ⟨(hrange x hx).1, inTable_xor (hrange x hx).1 (hrange y hy).1⟩
  · have hbytes : element x ≠ element y := by
      rw [Ne, element_eq_iff (hrange x hx).2 (hrange y hy).2]
      exact fun he => hne (inj_on_of_nodup_map h.2 hx hy he)
    exact ⟨hbytes, element_xor (hrange x hx).2 (hrange y hy).2 hbytes⟩

lemma recovers_of_differentBytes (h : k = 1 ∨ DifferentBytes xs) : Recovers k n xs := by
  intro leaf d hd fs hfs hnodup hlen
  have hacc := accepted_of_disperseAt hd
  have hfrag := fragments_eq hd (h.imp_right fun hb x hx => (hb.inTable x hx).1)
  have horig : d.origLen = leaf.length := by
    rw [disperseAt_eq hacc] at hd
    obtain ⟨frags, -, hd⟩ := bind_eq_ok.1 hd
    cases hd
    rfl
  have hmem : ∀ p ∈ fs, p.1 ∈ xs ∧
      p.2 = (blocks k (padded k leaf)).map fun block => evalPoly block (element p.1) := by
    intro p hp
    obtain ⟨x, hx, rfl⟩ := mem_map.1 (hfrag ▸ hfs hp)
    exact ⟨hx, rfl⟩
  have hsep : Tabled (usedIds fs k) ∧ Separates (usedIds fs k) := by
    cases h with
    | inl hk =>
      -- a single point is never compared with another one
      have hone : ∀ x ∈ usedIds fs k, ∀ y ∈ usedIds fs k, x = y := by
        obtain ⟨a, ha⟩ := length_eq_one_iff.1 ((length_usedIds hlen).trans hk)
        intro x hx y hy
        rw [ha, mem_singleton] at hx hy
        rw [hx, hy]
      exact ⟨fun x hx y hy hne => absurd (hone x hx y hy) hne,
        fun x hx y hy hne => absurd (hone x hx y hy) hne⟩
    | inr hbytes =>
      have hused : ∀ x ∈ usedIds fs k, x ∈ xs := by
        intro x hx
        obtain ⟨b, hb, -⟩ := mem_of_mem_usedIds hnodup hx
        exact (hmem _ hb).1
      obtain ⟨htabled, hsep⟩ := hbytes.separated
      exact ⟨fun x hx y hy => htabled x (hused x hx) y (hused y hy),
        fun x hx y hy => hsep x (hused x hx) y (hused y hy)⟩
  rw [horig, reconstructAt_of_blocks hacc.pos hnodup hlen hsep.1 hsep.2
    (fun b hb => length_of_mem_blocks (dvd_length_padded hacc.pos leaf) hb)
    (fun p hp => (hmem p hp).2), flatten_blocks hacc.pos, take_padded]

/-- Some `k` of the points contain two given ones. -/
lemma exists_points (hacc : AcceptedPoints k n xs) (hk : 2 ≤ k) (hx : x ∈ xs) (hy : y ∈ xs) :
    ∃ ids : List ℤ, x ∈ ids ∧ y ∈ ids ∧ ids ⊆ xs ∧ ids.Nodup ∧ ids.length = k := by
  have hsub : ({x, y} : Finset ℤ) ⊆ xs.toFinset := by
    intro z hz
    rw [mem_toFinset]
    rcases Finset.mem_insert.1 hz with rfl | hz
    · exact hx
    · exact Finset.mem_singleton.1 hz ▸ hy
  have hcard : xs.toFinset.card = n := (toFinset_card_of_nodup hacc.nodup).trans hacc.length
  obtain ⟨u, hu, hu', hcount⟩ := Finset.exists_subsuperset_card_eq hsub
    (Finset.card_le_two.trans hk) (hcard ▸ hacc.le)
  refine ⟨u.toList, ?_, ?_, fun z hz => ?_, u.nodup_toList, u.length_toList.trans hcount⟩
  · exact Finset.mem_toList.2 (hu (Finset.mem_insert_self x {y}))
  · exact Finset.mem_toList.2 (hu (Finset.mem_insert_of_mem (Finset.mem_singleton_self y)))
  · exact mem_toFinset.1 (hu' (Finset.mem_toList.1 hz))

lemma Recovers.pair (h : Recovers k n xs) (hacc : AcceptedPoints k n xs) (hk : 2 ≤ k)
    (hx : x ∈ xs) (hy : y ∈ xs) : InTable x ∧ x ≠ -256 ∧ (x ≠ y → x % 256 ≠ y % 256) := by
  obtain ⟨ids, hxi, hyi, hsub, hnodup, hlen⟩ := exists_points hacc hk hx hy
  have hrec := h (oneBlock k) _ (disperseAt_oneBlock hacc) (ids.map (·, [1]))
    (map_subset _ hsub) (by rwa [ids_ones]) (by rw [length_map, hlen])
  have hperm := perm_insertionSort (· ≤ ·) ids
  rw [reconstructAt_ones hacc.pos hnodup hlen, ← hlen, ← hperm.length_eq] at hrec
  obtain ⟨htable, hbytes⟩ := separated_of_ones (hperm.nodup_iff.2 hnodup)
    (fun h0 => hacc.nonzero (hsub (hperm.subset h0))) (by rw [hperm.length_eq, hlen]; exact hk) hrec
  have hxs := htable x (hperm.symm.subset hxi)
  have hys := htable y (hperm.symm.subset hyi)
  refine ⟨hxs.1, hxs.2, fun hne he => hne ?_⟩
  refine inj_on_of_nodup_map hbytes (hperm.symm.subset hxi) (hperm.symm.subset hyi) ?_
  exact (element_eq_iff hxs.2 hys.2).2 he

end

/-- Every leaf comes back from any `k` fragments exactly if one is enough or the points are different
bytes. -/
theorem recovers_iff (k n : ℕ) (xs : List ℤ) :
    Recovers k n xs ↔ (AcceptedPoints k n xs → k = 1 ∨ DifferentBytes xs) := by
  constructor
  · intro h hacc
    by_cases hk : k = 1
    · exact .inl hk
    · have hk2 : 2 ≤ k := by
        have hpos := hacc.pos
        omega
      refine .inr ⟨fun x hx => ?_, hacc.nodup.map_on fun x hx y hy he => ?_⟩
      · obtain ⟨htable, hlow, -⟩ := h.pair hacc hk2 hx hx
        obtain ⟨hlo, hhi⟩ := htable
        omega
      · by_contra hne
        exact (h.pair hacc hk2 hx hy).2.2 hne he
  · intro h leaf d hd
    exact recovers_of_differentBytes (h (accepted_of_disperseAt hd)) leaf d hd

/-- Two bytes, dispersed at the points 1 and -255. -/
def congruentPoints : DispersalAt := ⟨2, 2, 2, [1, -255], [(1, [⟨14⟩]), (-255, [⟨14⟩])]⟩

/-- The points 1 and -255 are the byte 1, and so is their difference. -/
lemma interpolateInt_congruent (y : Gf256) : interpolateInt [-255, 1] [y, y] = .ok [0, 0] := by
  have htabled : Tabled [-255, 1] := by
    unfold Tabled
    decide
  have hbasis : basisElement [-255, 1] 1 [0, 1] = basisElement [-255, 1] 0 [0, 1] := by
    decide +kernel
  obtain ⟨coeffs, hok, hlen, hp⟩ := interpolateInt_spec htabled (by decide) [y, y]
  rw [show range ([-255, 1] : List ℤ).length = [0, 1] from rfl, map_cons, map_cons,
    map_nil, sum_cons, sum_singleton, hbasis, ← add_mul, ← Polynomial.C_add] at hp
  rw [hok]
  refine congrArg ok (toPoly_inj hlen (hp.trans ?_))
  change Polynomial.C (y * _ + y * _) * _ = _
  rw [← Gf256.sub_eq_add, sub_self, Polynomial.C_0, zero_mul]
  exact (toPoly_replicate_zero 2).symm

/-- The points 1 and -255 are accepted as distinct, and both fragments reconstruct zeros. -/
theorem congruentPoints_not_recovered :
    disperseAt [⟨7⟩, ⟨9⟩] 2 2 (some [1, -255]) = .ok congruentPoints ∧
      reconstructAt congruentPoints.fragments 2 2 = .ok [⟨0⟩, ⟨0⟩] ∧ ¬ Recovers 2 2 [1, -255] := by
  have hacc : AcceptedPoints 2 2 [1, -255] := ⟨by decide, by decide, by decide, rfl, by decide, by decide⟩
  have hvalues : ∀ x ∈ ([1, -255] : List ℤ), ∀ b ∈ blocks 2 (padded 2 [⟨7⟩, ⟨9⟩]),
      evalPolyInt b x = .ok ⟨14⟩ := by
    have hbytes : ∀ x ∈ ([1, -255] : List ℤ), InTable x ∧ element x = 1 := by decide
    intro x hx b hb
    obtain rfl : b = [⟨7⟩, ⟨9⟩] := mem_singleton.1 hb
    rw [evalPolyInt_eq (hbytes x hx).1, (hbytes x hx).2, evalPoly_eq]
    simp only [toPoly_cons, toPoly_nil, eval_add, eval_mul, eval_C, eval_X, one_mul, mul_zero, add_zero]
    rfl
  have hd : disperseAt [⟨7⟩, ⟨9⟩] 2 2 (some [1, -255]) = .ok congruentPoints := by
    rw [disperseAt_eq hacc, foldlM_appendValues _ hvalues fun _ => []]
    rfl
  have hzeros : reconstructAt congruentPoints.fragments 2 2 = .ok [⟨0⟩, ⟨0⟩] := by
    have hflen : ∀ p ∈ congruentPoints.fragments, p.2.length = 1 := by decide
    have hused : usedIds congruentPoints.fragments 2 = [-255, 1] := by decide
    have hbytes : [-255, 1].mapM (byteAtInt congruentPoints.fragments 0) = .ok [⟨14⟩, ⟨14⟩] := by decide
    have hround : (do
        interpolateInt [-255, 1] (← [-255, 1].mapM (byteAtInt congruentPoints.fragments 0))) =
          ok [0, 0] :=
      bind_eq_ok.2 ⟨_, hbytes, interpolateInt_congruent ⟨14⟩⟩
    rw [reconstructAt_rounds (by decide) (by decide) (by decide) hflen, hused, range_one,
      mapM_cons, mapM_nil, hround]
    rfl
  refine ⟨hd, hzeros, fun h => ?_⟩
  have hleaf := h _ _ hd _ (List.Subset.refl _) (by decide) (by decide)
  rw [show congruentPoints.origLen = 2 from rfl, hzeros] at hleaf
  exact absurd hleaf (by decide)

end SocioWorkspace.Holographic
