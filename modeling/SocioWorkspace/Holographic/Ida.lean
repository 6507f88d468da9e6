import SocioWorkspace.Holographic.Gf256
import SocioWorkspace.Lib.Basic
import SocioWorkspace.Lib.ListPoly
import SocioWorkspace.Lib.SortedMap

/-!
# Information dispersal

Model of `disperse` and `reconstruct` of `automation/holographic_ida.py`: a leaf is cut into blocks
of `k` bytes, a block is a polynomial over GF(2^8), and a fragment holds the values of all blocks at
one point. Lagrange interpolation recovers the blocks from any `k` fragments.
-/

namespace SocioWorkspace.Holographic
open ListPoly List Nat

abbrev Bytes := List Gf256

/-- Python `_eval_poly`. -/
def evalPoly (coeffs : Bytes) (x : Gf256) : Gf256 := coeffs.reverse.foldl (fun acc c => mul acc x + c) 0

/-- Python `_poly_mul`. -/
def polyMul (a b : Bytes) : Bytes :=
  a.zipIdx.foldl
    (fun out (ai, i) =>
      if ai = 0 then out else addAll out (b.zipIdx.map fun (bj, j) => (i + j, mul ai bj)))
    (List.replicate (a.length + b.length - 1) 0)

/-- The numerator and the denominator of a basis polynomial, over some of the points. -/
def basisOver (xs : Bytes) (i : ℕ) (js : List ℕ) : Bytes × Gf256 :=
  js.foldl
    (fun (num, denom) j =>
      if j = i then (num, denom)
      else (polyMul num [xs.getD j 0, 1], mul denom (xs.getD i 0 + xs.getD j 0)))
    ([1], 1)

def addTerm (xs ys : Bytes) (coeffs : Bytes) (i : ℕ) : Except IdaError Bytes := do
  let basis := basisOver xs i (List.range xs.length)
  let scale := mul (ys.getD i 0) (← inv basis.2)
  return addAll coeffs (basis.1.zipIdx.map fun (c, d) => (d, mul c scale))

/-- Python `_interpolate_coeffs`. -/
def interpolateCoeffs (xs ys : Bytes) : Except IdaError Bytes :=
  (List.range xs.length).foldlM (addTerm xs ys) (List.replicate xs.length 0)

def point (x : ℕ) : Gf256 := ⟨BitVec.ofNat 8 x⟩

def padded (k : ℕ) (leaf : Bytes) : Bytes := leaf ++ List.replicate ((k - leaf.length % k) % k) 0

def blocks (k : ℕ) (data : Bytes) : List Bytes :=
  (List.range ((data.length + k - 1) / k)).map fun b => (data.drop (b * k)).take k

def fragment (leaf : Bytes) (k x : ℕ) : Bytes :=
  (blocks k (padded k leaf)).map fun block => evalPoly block (point x)

/-- Python `Dispersal`; the fragments are in the order of the points. -/
structure Dispersal where
  k : ℕ
  n : ℕ
  origLen : ℕ
  xs : List ℕ
  fragments : List (ℕ × Bytes)

/-- Python `disperse` with the default points 1 to `n`. -/
def disperse (leaf : Bytes) (k n : ℕ) : Except IdaError Dispersal :=
  if 1 ≤ k ∧ k ≤ n ∧ n ≤ 255 then
    let points := List.range' 1 n
    .ok ⟨k, n, leaf.length, points, points.map fun x => (x, fragment leaf k x)⟩
  else .error (.value "require 1 <= k <= n <= 255")

def byteAt (fragments : List (ℕ × Bytes)) (pos x : ℕ) : Except IdaError Gf256 :=
  match (fragments.lookup x).bind (·[pos]?) with
  | some y => .ok y
  | none => .error .index

/-- Python `reconstruct`. -/
def reconstruct (fragments : List (ℕ × Bytes)) (k origLen : ℕ) : Except IdaError Bytes :=
  let xs := (fragments.map (·.1)).insertionSort (· ≤ ·)
  if xs.length < k then
    .error (.value ("need " ++ toString k ++ " fragments to reconstruct; got "
      ++ toString xs.length))
  else
    match xs.take k with
    | [] => .error .index
    | x :: rest => do
      let flen := ((fragments.lookup x).getD []).length
      let out ← (List.range flen).mapM fun pos => do
        let ys ← (x :: rest).mapM (byteAt fragments pos)
        interpolateCoeffs ((x :: rest).map point) ys
      return out.flatten.take origLen

section
open Polynomial

lemma evalPoly_eq (coeffs : Bytes) (x : Gf256) : evalPoly coeffs x = (toPoly coeffs).eval x := by
  rw [evalPoly, foldl_reverse, eval_toPoly]
  rfl

lemma toPoly_row {out b ai i} (h : i + b.length ≤ out.length) :
    toPoly (addAll out (b.zipIdx.map fun (bj, j) => (i + j, mul ai bj))) =
      toPoly out + C ai * X ^ i * toPoly b := by
  rw [toPoly_addAll]
  · rw [map_map]
    have hterm : ((b.zipIdx).map ((fun p : ℕ × Gf256 => C p.2 * X ^ p.1) ∘
        fun (bj, j) => (i + j, mul ai bj))) =
        b.zipIdx.map fun p => C ai * X ^ i * (C p.1 * X ^ p.2) := by
      refine map_congr_left fun p _ => ?_
      show C (ai * p.1) * X ^ (i + p.2) = _
      rw [C_mul, pow_add]
      ring
    rw [hterm, sum_map_mul_left, sum_zipIdx, pow_zero, one_mul]
  · intro p hp
    obtain ⟨⟨bj, j⟩, hj, rfl⟩ := mem_map.1 hp
    have hlt := (mem_zipIdx' hj).1
    show i + j < out.length
    omega

lemma toPoly_rows {b} (rows : List (Gf256 × ℕ)) {out} (h : ∀ p ∈ rows, p.2 + b.length ≤ out.length) :
    toPoly (rows.foldl (fun out (ai, i) => if ai = 0 then out
        else addAll out (b.zipIdx.map fun (bj, j) => (i + j, mul ai bj))) out) =
      toPoly out + (rows.map fun p => C p.1 * X ^ p.2).sum * toPoly b := by
  induction rows generalizing out with
  | nil => simp
  | cons p rows ih =>
    obtain ⟨ai, i⟩ := p
    rw [forall_mem_cons] at h
    rw [foldl_cons, map_cons, sum_cons]
    by_cases ha : ai = 0
    · subst ha
      rw [ih (by simpa using h.2)]
      simp
    · simp only [ha, if_false]
      rw [ih (by simpa using h.2), toPoly_row h.1]
      ring

lemma length_polyMul (a b : Bytes) : (polyMul a b).length = a.length + b.length - 1 := by
  refine foldlRecOn (motive := fun out : Bytes => out.length = _) _ _ length_replicate fun out hout p _ => ?_
  by_cases ha : p.1 = 0 <;> simp [ha, hout]

lemma toPoly_polyMul (a b : Bytes) : toPoly (polyMul a b) = toPoly a * toPoly b := by
  rw [polyMul, toPoly_rows, toPoly_replicate_zero, zero_add, sum_zipIdx, pow_zero, one_mul]
  intro p hp
  have hlt := (mem_zipIdx' hp).1
  rw [length_replicate]
  omega

section
variable (zero factor : ℕ → Gf256)

def basisWith (i : ℕ) (js : List ℕ) : Bytes × Gf256 :=
  js.foldl
    (fun (num, denom) j =>
      if j = i then (num, denom) else (polyMul num [zero j, 1], mul denom (factor j)))
    ([1], 1)

lemma basisWith_spec (i : ℕ) (js : List ℕ) :
    toPoly (basisWith zero factor i js).1 = ((js.filter (· ≠ i)).map fun j => X - C (zero j)).prod ∧
    (basisWith zero factor i js).1.length = (js.filter (· ≠ i)).length + 1 ∧
    (basisWith zero factor i js).2 = ((js.filter (· ≠ i)).map factor).prod := by
  induction js using reverseRecOn with
  | nil => exact ⟨by simp [basisWith, toPoly_cons], rfl, rfl⟩
  | append_singleton js j ih =>
    obtain ⟨hp, hl, hd⟩ := ih
    rw [basisWith, foldl_append, ← basisWith, filter_append, foldl_cons, foldl_nil]
    by_cases hj : j = i
    · simp only [hj, if_true, ne_eq, not_true_eq_false, decide_false, filter_cons_of_neg,
        filter_nil, append_nil, Bool.false_eq_true, not_false_eq_true]
      exact ⟨hp, hl, hd⟩
    · simp only [hj, if_false, ne_eq, not_false_eq_true, decide_true, filter_cons_of_pos,
        filter_nil, map_append, map_cons, map_nil, prod_append,
        prod_singleton, length_append, length_singleton]
      refine ⟨?_, ?_, ?_⟩
      · rw [toPoly_polyMul, hp]
        congr 1
        rw [toPoly_cons, toPoly_cons, toPoly_nil, mul_zero, add_zero, C_1, mul_one, add_comm,
          sub_eq_add_neg, ← C_neg]
        rfl
      · rw [length_polyMul, hl]
        rfl
      · rw [hd]
        rfl

lemma length_basisWith {i n} (hi : i < n) : (basisWith zero factor i (range n)).1.length ≤ n := by
  have hcount : ((range n).filter (· ≠ i)).length < (range n).length :=
    length_filter_lt_length_iff_exists.2 ⟨i, mem_range.2 hi, by simp⟩
  rw [length_range] at hcount
  rw [(basisWith_spec zero factor i _).2.1]
  exact hcount

end

def termWith (basis : Bytes × Gf256) (y : Gf256) (coeffs : Bytes) : Bytes :=
  addAll coeffs (basis.1.zipIdx.map fun (c, d) => (d, mul c (mul y basis.2⁻¹)))

lemma toPoly_termWith {basis coeffs} (h : basis.1.length ≤ coeffs.length) (y : Gf256) :
    toPoly (termWith basis y coeffs) = toPoly coeffs + C (y * basis.2⁻¹) * toPoly basis.1 := by
  rw [termWith, toPoly_addAll]
  · congr 1
    rw [map_map]
    have hterm : ∀ scale : Gf256, (basis.1.zipIdx.map
        ((fun p : ℕ × Gf256 => C p.2 * X ^ p.1) ∘ fun (c, d) => (d, mul c scale))) =
        basis.1.zipIdx.map fun p => C scale * (C p.1 * X ^ p.2) := by
      intro scale
      refine map_congr_left fun p _ => ?_
      show C (p.1 * scale) * X ^ p.2 = _
      rw [C_mul]
      ring
    rw [hterm, sum_map_mul_left, sum_zipIdx, pow_zero, one_mul]
    rfl
  · intro p hp
    obtain ⟨⟨c, d⟩, hcd, rfl⟩ := mem_map.1 hp
    exact lt_of_lt_of_le (mem_zipIdx' hcd).1 h

lemma toPoly_terms {basis : ℕ → Bytes × Gf256} {n} (y : ℕ → Gf256) (is : List ℕ)
    (his : ∀ i ∈ is, (basis i).1.length ≤ n) {coeffs} (hlen : coeffs.length = n) :
    (is.foldl (fun coeffs i => termWith (basis i) (y i) coeffs) coeffs).length = n ∧
    toPoly (is.foldl (fun coeffs i => termWith (basis i) (y i) coeffs) coeffs) =
      toPoly coeffs + (is.map fun i => C (y i * (basis i).2⁻¹) * toPoly (basis i).1).sum := by
  induction is generalizing coeffs with
  | nil => exact ⟨hlen, by simp⟩
  | cons i is ih =>
    rw [forall_mem_cons] at his
    obtain ⟨hl, hp⟩ := @ih his.2 (termWith (basis i) (y i) coeffs) ((length_addAll _ _).trans hlen)
    refine ⟨hl, ?_⟩
    rw [foldl_cons, hp, toPoly_termWith (hlen ▸ his.1), map_cons, sum_cons, add_assoc]

lemma basisOver_eq (xs : Bytes) (i : ℕ) (js : List ℕ) : basisOver xs i js =
    basisWith (xs.getD · 0) (fun j => xs.getD i 0 - xs.getD j 0) i js := by
  rw [basisOver, basisWith]
  simp only [Gf256.sub_eq_add]

def term (xs ys : Bytes) (coeffs : Bytes) (i : ℕ) : Bytes :=
  addAll coeffs ((basisOver xs i (List.range xs.length)).1.zipIdx.map fun (c, d) =>
    (d, mul c (mul (ys.getD i 0) (basisOver xs i (List.range xs.length)).2⁻¹)))

/-- The denominators are not 0, since the points are distinct. -/
lemma addTerm_eq {xs ys coeffs} (hxs : xs.Nodup) {i} (hi : i < xs.length) :
    addTerm xs ys coeffs i = .ok (term xs ys coeffs i) := by
  have hne : (basisOver xs i (range xs.length)).2 ≠ 0 := by
    rw [basisOver_eq, (basisWith_spec _ _ i _).2.2]
    refine prod_ne_zero fun h0 => ?_
    obtain ⟨j, hj, h⟩ := mem_map.1 h0
    obtain ⟨hjr, hji⟩ := mem_filter.1 hj
    have hjl := mem_range.1 hjr
    rw [getD_eq_getElem _ _ hi, getD_eq_getElem _ _ hjl, sub_eq_zero, hxs.getElem_inj_iff] at h
    exact of_decide_eq_true hji h.symm
  rw [addTerm, Gf256.inv_eq hne]
  rfl

/-- The interpolation returns the coefficients of the block. -/
theorem interpolateCoeffs_eq {xs block} (hxs : xs.Nodup) (hlen : block.length = xs.length) :
    interpolateCoeffs xs (xs.map (evalPoly block)) = .ok block := by
  rw [interpolateCoeffs, foldlM_eq_ok fun i hi coeffs => addTerm_eq hxs (mem_range.1 hi)]
  have hfit : ∀ i ∈ range xs.length, (basisOver xs i (range xs.length)).1.length ≤ xs.length := by
    intro i hi
    rw [basisOver_eq]
    exact length_basisWith _ _ (mem_range.1 hi)
  obtain ⟨hl, hp⟩ := toPoly_terms (fun i => (xs.map (evalPoly block)).getD i 0) _ hfit
    (length_replicate (a := (0 : Gf256)))
  refine congrArg Except.ok (toPoly_inj (hl.trans hlen.symm) ?_)
  have hvalues : ∀ i ∈ range xs.length,
      (xs.map (evalPoly block)).getD i 0 = (toPoly block).eval (xs.getD i 0) := by
    intro i hi
    have hi' := mem_range.1 hi
    rw [getD_eq_getElem _ _ (by rwa [length_map]), getElem_map, evalPoly_eq, getD_eq_getElem _ _ hi']
  have hterm : ∀ i y, C (y * (basisOver xs i (range xs.length)).2⁻¹) *
      toPoly (basisOver xs i (range xs.length)).1 = lagrangeTerm xs i y := by
    intro i y
    obtain ⟨hnum, -, hden⟩ := basisWith_spec (xs.getD · 0) (fun j => xs.getD i 0 - xs.getD j 0) i
      (range xs.length)
    rw [basisOver_eq, hnum, hden, lagrangeTerm]
  refine hp.trans ?_
  rw [toPoly_replicate_zero, zero_add, map_congr_left fun i hi => by rw [hterm, hvalues i hi],
    ← toPoly_eq_lagrange hxs hlen]

/-- Values at distinct points are those of a block. -/
lemma exists_block {xs ys : Bytes} (hxs : xs.Nodup) (hlen : ys.length = xs.length) :
    ∃ block, block.length = xs.length ∧ xs.map (evalPoly block) = ys := by
  let values : List.Vector Gf256 xs.length → List.Vector Gf256 xs.length :=
    fun block => ⟨xs.map (evalPoly block.1), length_map _⟩
  -- the interpolation is a left inverse, and there are as many blocks as values
  have hinj : Function.Injective values := by
    intro b b' h
    have hv := congrArg Subtype.val h
    have hb := interpolateCoeffs_eq hxs b.2
    rw [show xs.map (evalPoly b.1) = xs.map (evalPoly b'.1) from hv, interpolateCoeffs_eq hxs b'.2] at hb
    exact Subtype.ext (Except.ok.inj hb).symm
  obtain ⟨block, hblock⟩ := Finite.surjective_of_injective hinj ⟨ys, hlen⟩
  exact ⟨block.1, block.2, congrArg Subtype.val hblock⟩

end

lemma dvd_length_padded {k} (hk : 0 < k) (leaf : Bytes) : k ∣ (padded k leaf).length := by
  rw [padded, length_append, length_replicate, dvd_iff_mod_eq_zero, add_mod_mod,
    ← mod_add_mod, Nat.add_sub_cancel' (Nat.le_of_lt (mod_lt _ hk)), mod_self]

lemma take_padded (k : ℕ) (leaf : Bytes) : (padded k leaf).take leaf.length = leaf := take_left

lemma flatten_slices (k c : ℕ) (data : Bytes) :
    ((range c).map fun b => (data.drop (b * k)).take k).flatten = data.take (c * k) := by
  induction c with
  | zero => simp
  | succ c ih =>
    rw [range_succ, map_append, flatten_append, ih, map_singleton, flatten_singleton, succ_mul, take_add]

lemma flatten_blocks {k} (hk : 0 < k) (data : Bytes) : (blocks k data).flatten = data := by
  rw [blocks, flatten_slices]
  apply take_of_length_le
  have h := div_add_mod (data.length + k - 1) k
  have hlt := mod_lt (data.length + k - 1) hk
  rw [Nat.mul_comm] at h
  omega

lemma length_of_mem_blocks {k data} (hd : k ∣ data.length) {block}
    (h : block ∈ blocks k data) : block.length = k := by
  obtain ⟨q, hq⟩ := hd
  obtain ⟨b, hb, rfl⟩ := mem_map.1 h
  rw [mem_range] at hb
  have hk : 0 < k := Nat.pos_of_ne_zero fun h0 => by simp [h0] at hb
  have hbq : b < q := by
    refine lt_of_lt_of_le hb (le_of_lt_succ (Nat.div_lt_of_lt_mul ?_))
    rw [hq, mul_succ]
    omega
  have hle : (b + 1) * k ≤ q * k := Nat.mul_le_mul_right k hbq
  rw [length_take, length_drop, hq, Nat.mul_comm k q]
  rw [succ_mul] at hle
  omega

lemma point_inj {x y} (hx : x ≤ 255) (hy : y ≤ 255) (h : point x = point y) : x = y := by
  have hn := congrArg (fun a => a.bits.toNat) h
  simp only [point, BitVec.toNat_ofNat] at hn
  omega

variable {fs : List (ℕ × Bytes)}

lemma byteAt_eq_ok {pos x y} : byteAt fs pos x = .ok y ↔ ∃ b, fs.lookup x = some b ∧ b[pos]? = some y := by
  rw [← Option.bind_eq_some_iff, byteAt]
  cases (fs.lookup x).bind (·[pos]?) with
  | none => simp
  | some y' => simp

lemma byteAt_eq_error {pos x} : byteAt fs pos x = .error .index ∨ ∃ y, byteAt fs pos x = .ok y := by
  rw [byteAt]
  cases (fs.lookup x).bind (·[pos]?) with
  | none => exact .inl rfl
  | some y => exact .inr ⟨y, rfl⟩

def blockAt (fs : List (ℕ × Bytes)) (ids : List ℕ) (pos : ℕ) : Except IdaError Bytes := do
  let ys ← ids.mapM (byteAt fs pos)
  interpolateCoeffs (ids.map point) ys

section
variable {fs : List (ℕ × Bytes)} {ids : List ℕ} {pos : ℕ}

lemma blockAt_eq (hids : (ids.map point).Nodup) {block} (hlen : block.length = ids.length)
    (h : ∀ x ∈ ids, byteAt fs pos x = .ok (evalPoly block (point x))) : blockAt fs ids pos = .ok block := by
  rw [blockAt, mapM_eq_ok h]
  refine Eq.trans ?_ (interpolateCoeffs_eq hids (hlen.trans (length_map _).symm))
  rw [map_map]
  rfl

lemma blockAt_error (h : ∃ x ∈ ids, byteAt fs pos x = .error .index) :
    blockAt fs ids pos = .error .index := by
  rw [blockAt, mapM_eq_error (fun _ _ => byteAt_eq_error) h]
  rfl

lemma blockAt_returns (hids : (ids.map point).Nodup) (h : ∀ x ∈ ids, ∃ y, byteAt fs pos x = .ok y) :
    ∃ block, block.length = ids.length ∧ blockAt fs ids pos = .ok block ∧
      ∀ x ∈ ids, byteAt fs pos x = .ok (evalPoly block (point x)) := by
  choose! y hy using h
  obtain ⟨block, hlen, hvalues⟩ :=
    @exists_block (ids.map point) (ids.map y) hids (by rw [length_map, length_map])
  rw [length_map] at hlen
  rw [map_map, map_inj_left] at hvalues
  have hbytes : ∀ x ∈ ids, byteAt fs pos x = .ok (evalPoly block (point x)) := by
    intro x hx
    rw [hy x hx, ← hvalues x hx]
    rfl
  exact ⟨block, hlen, blockAt_eq hids hlen hbytes, hbytes⟩

lemma blockAt_eq_error (hids : (ids.map point).Nodup) :
    blockAt fs ids pos = .error .index ∨ ∃ block, blockAt fs ids pos = .ok block := by
  by_cases h : ∃ x ∈ ids, byteAt fs pos x = .error .index
  · exact .inl (blockAt_error h)
  · have hall : ∀ x ∈ ids, ∃ y, byteAt fs pos x = .ok y := by
      intro x hx
      exact byteAt_eq_error.resolve_left fun he => h ⟨x, hx, he⟩
    obtain ⟨block, -, hblock, -⟩ := blockAt_returns hids hall
    exact .inr ⟨block, hblock⟩

end

section
variable {α : Type} [LinearOrder α]

def usedIds (fs : List (α × Bytes)) (k : ℕ) : List α := ((fs.map (·.1)).insertionSort (· ≤ ·)).take k

variable {fs : List (α × Bytes)} {k : ℕ}

lemma mem_of_mem_usedIds (hnodup : (fs.map (·.1)).Nodup) {x} (h : x ∈ usedIds fs k) :
    ∃ b, (x, b) ∈ fs ∧ fs.lookup x = some b := by
  have hx := (perm_insertionSort _ _).subset (mem_of_mem_take h)
  obtain ⟨p, hp, rfl⟩ := mem_map.1 hx
  exact ⟨p.2, hp, (SortedMap.lookup_eq_some hnodup).2 hp⟩

lemma length_usedIds (hlen : k ≤ fs.length) : (usedIds fs k).length = k := by
  rw [usedIds, length_take, length_insertionSort, length_map, Nat.min_eq_left hlen]

lemma nodup_usedIds (hnodup : (fs.map (·.1)).Nodup) : (usedIds fs k).Nodup :=
  ((perm_insertionSort _ _).nodup_iff.2 hnodup).sublist (take_sublist _ _)

end

lemma map_getD_range (bs : List Bytes) : (range bs.length).map (fun pos => bs.getD pos []) = bs := by
  refine ext_getElem (by simp) fun i _ hi => ?_
  rw [getElem_map, getElem_range, getD_eq_getElem _ _ hi]

section
variable {fs : List (ℕ × Bytes)} {k origLen : ℕ}

lemma nodup_points (hnodup : (fs.map (·.1)).Nodup) (hrange : ∀ p ∈ fs, p.1 ≤ 255) :
    ((usedIds fs k).map point).Nodup := by
  refine (nodup_usedIds hnodup).map_on fun y hy z hz h => ?_
  obtain ⟨b, hb, -⟩ := mem_of_mem_usedIds hnodup hy
  obtain ⟨c, hc, -⟩ := mem_of_mem_usedIds hnodup hz
  exact point_inj (hrange _ hb) (hrange _ hc) h

/-- The first used id is the smallest one; its fragment gives the number of rounds. -/
lemma reconstruct_eq_rounds (origLen : ℕ) (hk : 1 ≤ k) (hlen : k ≤ fs.length) :
    ∃ x ∈ usedIds fs k, (∀ p ∈ fs, x ≤ p.1) ∧ reconstruct fs k origLen = (do
      let out ← (range ((fs.lookup x).getD []).length).mapM (blockAt fs (usedIds fs k))
      return out.flatten.take origLen) := by
  have hcount := length_usedIds hlen
  have hsorted : k ≤ ((fs.map (·.1)).insertionSort (· ≤ ·)).length := by
    rwa [length_insertionSort, length_map]
  cases hids : usedIds fs k with
  | nil =>
    rw [hids] at hcount
    exact absurd hcount (Nat.ne_of_lt hk)
  | cons x rest =>
    refine ⟨x, mem_cons_self, fun p hp => ?_, ?_⟩
    · have hmem : p.1 ∈ (fs.map (·.1)).insertionSort (· ≤ ·) :=
        (perm_insertionSort _ _).mem_iff.2 (mem_map_of_mem hp)
      have hpair := pairwise_insertionSort (· ≤ ·) (fs.map (·.1))
      rw [← take_append_drop k ((fs.map (·.1)).insertionSort (· ≤ ·)), ← usedIds, hids,
        cons_append] at hmem hpair
      cases mem_cons.1 hmem with
      | inl he => exact he.ge
      | inr htail => exact rel_of_pairwise_cons hpair htail
    · unfold reconstruct
      simp only [not_lt.2 hsorted, if_false]
      rw [← usedIds, hids]
      rfl

/-- Fragments that hold the values of blocks reconstruct the blocks. -/
theorem reconstruct_of_blocks (hk : 1 ≤ k) (hnodup : (fs.map (·.1)).Nodup) (hlen : k ≤ fs.length)
    {bs : List Bytes} (hblocks : ∀ b ∈ bs, b.length = k) (hvalues : ∀ p ∈ fs, p.1 ≤ 255 ∧
      p.2.take bs.length = bs.map fun block => evalPoly block (point p.1))
    (hfirst : ∀ p ∈ fs, (∀ q ∈ fs, p.1 ≤ q.1) → p.2.length = bs.length) :
    reconstruct fs k origLen = .ok (bs.flatten.take origLen) := by
  obtain ⟨x, hx, hmin, hrec⟩ := reconstruct_eq_rounds origLen hk hlen
  obtain ⟨b, hb, hlookup⟩ := mem_of_mem_usedIds hnodup hx
  have hround : ∀ pos ∈ range bs.length, blockAt fs (usedIds fs k) pos = .ok (bs.getD pos []) := by
    intro pos hpos
    rw [mem_range] at hpos
    apply blockAt_eq (nodup_points hnodup fun p hp => (hvalues p hp).1)
    · rw [length_usedIds hlen, getD_eq_getElem _ _ hpos]
      exact hblocks _ (getElem_mem hpos)
    · intro y hy
      obtain ⟨c, hc, hlookup⟩ := mem_of_mem_usedIds hnodup hy
      refine byteAt_eq_ok.2 ⟨c, hlookup, ?_⟩
      rw [← getElem?_take_of_lt hpos, (hvalues _ hc).2, getElem?_map,
        getElem?_eq_getElem hpos, getD_eq_getElem _ _ hpos, Option.map_some]
  rw [hrec, hlookup, Option.getD_some, hfirst _ hb hmin, mapM_eq_ok hround, map_getD_range]
  rfl

/-- Any `k` true fragments reconstruct the leaf. -/
theorem reconstruct_eq {leaf : Bytes} (hk : 1 ≤ k) (hnodup : (fs.map (·.1)).Nodup) (hlen : k ≤ fs.length)
    (htrue : ∀ p ∈ fs, p.1 ≤ 255 ∧ p.2 = fragment leaf k p.1) :
    reconstruct fs k leaf.length = .ok leaf := by
  have hcount : ∀ p ∈ fs, p.2.length = (blocks k (padded k leaf)).length := by
    intro p hp
    rw [(htrue p hp).2, fragment, length_map]
  rw [reconstruct_of_blocks hk hnodup hlen
    (fun b hb => length_of_mem_blocks (dvd_length_padded hk leaf) hb) (fun p hp => ⟨(htrue p hp).1, ?_⟩)
    (fun p hp _ => hcount p hp), flatten_blocks hk, take_padded]
  rw [← hcount p hp, take_length]
  exact (htrue p hp).2

lemma mem_usedIds (hlen : fs.length = k) {p} (hp : p ∈ fs) : p.1 ∈ usedIds fs k := by
  have hall : ((fs.map (·.1)).insertionSort (· ≤ ·)).length ≤ k := by
    rw [length_insertionSort, length_map, hlen]
  rw [usedIds, take_of_length_le hall]
  exact (perm_insertionSort _ _).mem_iff.2 (mem_map_of_mem hp)

lemma reconstruct_short (hk : 1 ≤ k) (hnodup : (fs.map (·.1)).Nodup) (hlen : fs.length = k)
    (hrange : ∀ p ∈ fs, p.1 ≤ 255) {p q} (hp : p ∈ fs) (hmin : ∀ r ∈ fs, p.1 ≤ r.1)
    (hq : q ∈ fs) (hshort : q.2.length < p.2.length) : reconstruct fs k origLen = .error .index := by
  obtain ⟨x, hx, hle, hrec⟩ := reconstruct_eq_rounds origLen hk hlen.ge
  obtain ⟨b, hb, -⟩ := mem_of_mem_usedIds hnodup hx
  obtain rfl : p.1 = x := le_antisymm (hmin _ hb) (hle _ hp)
  have hlookup : ∀ r ∈ fs, fs.lookup r.1 = some r.2 := fun r hr => (SortedMap.lookup_eq_some hnodup).2 hr
  have hraise : blockAt fs (usedIds fs k) q.2.length = .error .index := by
    refine blockAt_error ⟨q.1, mem_usedIds hlen hq, ?_⟩
    refine byteAt_eq_error.resolve_right ?_
    rintro ⟨y, hy⟩
    obtain ⟨c, hc, hget⟩ := byteAt_eq_ok.1 hy
    obtain rfl := Option.some.inj ((hlookup q hq).symm.trans hc)
    simp at hget
  have hrounds : (range p.2.length).mapM (blockAt fs (usedIds fs k)) = .error .index :=
    mapM_eq_error (fun pos _ => blockAt_eq_error (nodup_points hnodup hrange))
      ⟨_, mem_range.2 hshort, hraise⟩
  rw [hrec, hlookup p hp, Option.getD_some, hrounds]
  rfl

lemma exists_block_at (hnodup : (fs.map (·.1)).Nodup) (hlen : fs.length = k)
    (hrange : ∀ p ∈ fs, p.1 ≤ 255) {pos} (hpos : ∀ q ∈ fs, pos < q.2.length) :
    ∃ block : Bytes, block.length = k ∧
      ∀ q ∈ fs, q.2[pos]? = some (evalPoly block (point q.1)) := by
  have hbyte : ∀ x ∈ usedIds fs k, ∃ y, byteAt fs pos x = .ok y := by
    intro x hx
    obtain ⟨b, hb, hlookup⟩ := mem_of_mem_usedIds hnodup hx
    exact ⟨_, byteAt_eq_ok.2 ⟨b, hlookup, getElem?_eq_getElem (hpos _ hb)⟩⟩
  obtain ⟨block, hcount, -, hvalues⟩ := blockAt_returns (nodup_points hnodup hrange) hbyte
  refine ⟨block, hcount.trans (length_usedIds hlen.ge), fun q hq => ?_⟩
  obtain ⟨b, hb, hget⟩ := byteAt_eq_ok.1 (hvalues q.1 (mem_usedIds hlen hq))
  have hlookup : fs.lookup q.1 = some q.2 := (SortedMap.lookup_eq_some hnodup).2 hq
  obtain rfl := Option.some.inj (hlookup.symm.trans hb)
  exact hget

/-- Answers that are all at least as long as that of the smallest id hold the values of blocks. -/
lemma reconstruct_long (hk : 1 ≤ k) (hnodup : (fs.map (·.1)).Nodup) (hlen : fs.length = k)
    (hrange : ∀ p ∈ fs, p.1 ≤ 255) {p : ℕ × Bytes} (hp : p ∈ fs) (hmin : ∀ r ∈ fs, p.1 ≤ r.1)
    (hlong : ∀ q ∈ fs, p.2.length ≤ q.2.length) :
    ∃ bs : List Bytes, p.2.length = bs.length ∧ (∀ b ∈ bs, b.length = k) ∧
      (∀ q ∈ fs, q.2.take bs.length = bs.map fun block => evalPoly block (point q.1)) ∧
      reconstruct fs k origLen = .ok (bs.flatten.take origLen) := by
  have hblock : ∀ pos < p.2.length, ∃ block : Bytes, block.length = k ∧
      ∀ q ∈ fs, q.2[pos]? = some (evalPoly block (point q.1)) := by
    intro pos hpos
    exact exists_block_at hnodup hlen hrange fun q hq => lt_of_lt_of_le hpos (hlong q hq)
  choose! block hcount hget using hblock
  have hbs : ((range p.2.length).map block).length = p.2.length := by
    rw [length_map, length_range]
  have hblocks : ∀ b ∈ (range p.2.length).map block, b.length = k := by
    intro b hb
    obtain ⟨pos, hpos, rfl⟩ := mem_map.1 hb
    exact hcount pos (mem_range.1 hpos)
  have hvalues : ∀ q ∈ fs, q.2.take ((range p.2.length).map block).length =
      ((range p.2.length).map block).map fun block => evalPoly block (point q.1) := by
    intro q hq
    refine ext_getElem ?_ fun pos h h' => ?_
    · rw [length_take, hbs, length_map, hbs, Nat.min_eq_left (hlong q hq)]
    · rw [length_map, hbs] at h'
      have hq := hget pos h' q hq
      simp only [getElem_take, getElem_map, getElem_range]
      exact Option.some.inj ((getElem?_eq_getElem _).symm.trans hq)
  refine ⟨_, hbs.symm, hblocks, hvalues, ?_⟩
  refine reconstruct_of_blocks hk hnodup hlen.ge hblocks (fun q hq => ⟨hrange q hq, hvalues q hq⟩) ?_
  intro q hq hle
  have hsame : q = p := inj_on_of_nodup_map hnodup hq hp (le_antisymm (hle p hp) (hmin q hq))
  rw [hsame, hbs]

end

end SocioWorkspace.Holographic
