import SocioWorkspace.Holographic.Ida

/-!
# What too few fragments disclose

`automation/holographic_ida.py` promises that fewer than `k` fragments of a leaf reconstruct nothing usable.
With one fragment too few the leaves that fit differ by multiples of the polynomial that vanishes at the
points of the fragments, so that a byte stays open exactly if that polynomial has a term there.
-/

namespace SocioWorkspace.Holographic
open ListPoly List Nat Polynomial

/-- The coefficients of the product of `x + x_j`, as `_interpolate_coeffs` multiplies them. -/
def vanishingCoeffs (ids : List ℕ) : Bytes := ids.foldl (fun num x => polyMul num [point x, 1]) [1]

lemma vanishingCoeffs_spec (ids : List ℕ) :
    toPoly (vanishingCoeffs ids) = vanishing (ids.map point) ∧
      (vanishingCoeffs ids).length = ids.length + 1 := by
  induction ids using reverseRecOn with
  | nil => exact ⟨by simp [vanishingCoeffs, toPoly_cons, vanishing], rfl⟩
  | append_singleton ids x ih =>
    obtain ⟨hpoly, hlen⟩ := ih
    rw [vanishingCoeffs, foldl_concat, ← vanishingCoeffs]
    refine ⟨?_, ?_⟩
    · rw [toPoly_polyMul, hpoly, vanishing, vanishing, map_append, map_append,
        prod_append, map_singleton, map_singleton, prod_singleton]
      congr 1
      rw [toPoly_cons, toPoly_cons, toPoly_nil, mul_zero, add_zero, Polynomial.C_1, mul_one, add_comm,
        sub_eq_add_neg, ← Polynomial.C_neg]
      rfl
    · rw [length_polyMul, hlen, length_append]
      rfl

def slice (k : ℕ) (leaf : Bytes) (b : ℕ) : Bytes := (leaf.drop (b * k)).take k

section
variable {k : ℕ} {leaf leaf' : Bytes} {b : ℕ}

lemma slice_bound (hb : b < leaf.length / k) : b * k + k ≤ leaf.length := by
  have h := Nat.mul_le_mul_right k (succ_le_of_lt hb)
  rw [succ_mul] at h
  exact h.trans (div_mul_le_self _ _)

lemma length_slice (hb : b < leaf.length / k) : (slice k leaf b).length = k := by
  have h := slice_bound hb
  rw [slice, length_take, length_drop]
  omega

lemma getElem?_slice {j} (hj : j < k) : (slice k leaf b)[j]? = leaf[b * k + j]? := by
  rw [slice, getElem?_take_of_lt hj, getElem?_drop]

lemma fragment_eq (hdvd : k ∣ leaf.length) (x : ℕ) : fragment leaf k x =
    (range (leaf.length / k)).map fun b => evalPoly (slice k leaf b) (point x) := by
  have hpad : padded k leaf = leaf := by
    rw [padded, mod_eq_zero_of_dvd hdvd, Nat.sub_zero, mod_self, replicate_zero, append_nil]
  have hcount : (leaf.length + k - 1) / k = leaf.length / k := by
    obtain ⟨q, hq⟩ := hdvd
    rcases Nat.eq_zero_or_pos k with rfl | hk
    · rw [Nat.div_zero, Nat.div_zero]
    · rw [hq, Nat.mul_div_cancel_left q hk, Nat.div_eq_of_lt_le]
      · rw [Nat.mul_comm]
        omega
      · rw [succ_mul, Nat.mul_comm q]
        omega
  rw [fragment, hpad, blocks, hcount, map_map]
  rfl

lemma fragment_eq_iff (hdvd : k ∣ leaf.length) (hlen : leaf'.length = leaf.length) (x : ℕ) :
    fragment leaf' k x = fragment leaf k x ↔ ∀ b < leaf.length / k,
      evalPoly (slice k leaf' b) (point x) = evalPoly (slice k leaf b) (point x) := by
  rw [fragment_eq hdvd, fragment_eq (hlen ▸ hdvd), hlen, map_inj_left]
  simp only [mem_range]

end

/-- Another leaf of the same length differs at the position and has the same fragments. -/
def Undisclosed (k n : ℕ) (ids : List ℕ) (leaf : Bytes) (p : ℕ) : Prop :=
  ∃ leaf' d d', disperse leaf k n = .ok d ∧ disperse leaf' k n = .ok d' ∧
    leaf'.length = leaf.length ∧ leaf'[p]? ≠ leaf[p]? ∧
    ∀ x ∈ ids, d'.fragments.lookup x = d.fragments.lookup x

section
variable {k n : ℕ} {ids : List ℕ} {leaf leaf' : Bytes} {p : ℕ}

lemma lookup_fragments {d} (h : disperse leaf k n = .ok d) {x}
    (hx : x ∈ range' 1 n) : d.fragments.lookup x = some (fragment leaf k x) := by
  unfold disperse at h
  split_ifs at h with hk
  cases h
  refine (SortedMap.lookup_eq_some ?_).2 (mem_map.2 ⟨x, hx, rfl⟩)
  rw [map_map]
  exact (map_id _).symm ▸ nodup_range'

def shifted (k : ℕ) (ids : List ℕ) (leaf : Bytes) (b : ℕ) : Bytes :=
  leaf.mapIdx fun i a => if i / k = b then a + (vanishingCoeffs ids).getD (i % k) 0 else a

lemma slice_shifted (hlen : ids.length + 1 = k) {b c} (hc : c < leaf.length / k) :
    toPoly (slice k (shifted k ids leaf b) c) = toPoly (slice k leaf c) +
      if c = b then toPoly (vanishingCoeffs ids) else 0 := by
  have hk : 0 < k := by omega
  ext j
  rw [coeff_add, coeff_toPoly, coeff_toPoly]
  by_cases hj : j < k
  · have hbound := slice_bound hc
    have hlt : c * k + j < leaf.length := by omega
    have hdiv : (c * k + j) / k = c := by
      rw [Nat.add_comm, add_mul_div_right _ _ hk, div_eq_of_lt hj, Nat.zero_add]
    have hmod : (c * k + j) % k = j := by
      rw [Nat.add_comm, add_mul_mod_self_right, mod_eq_of_lt hj]
    rw [getD_eq_getElem?_getD, getD_eq_getElem?_getD, getElem?_slice hj, getElem?_slice hj,
      shifted, getElem?_mapIdx, getElem?_eq_getElem hlt, hdiv, hmod]
    by_cases hcb : c = b
    · simp [hcb, coeff_toPoly]
    · simp [hcb]
  · have hlong : ∀ l : Bytes, (slice k l c).length ≤ j := by
      intro l
      rw [slice, length_take]
      omega
    rw [getD_eq_default _ _ (hlong _), getD_eq_default _ _ (hlong _), zero_add]
    have hover : (vanishingCoeffs ids).getD j 0 = 0 := by
      refine getD_eq_default _ _ ?_
      rw [(vanishingCoeffs_spec ids).2]
      omega
    split_ifs with hcb
    · rw [coeff_toPoly, hover]
    · rw [coeff_zero]

/-- Where the vanishing polynomial has a term, the byte can be changed. -/
lemma undisclosed_of_coeff (hn : k ≤ n) (hn' : n ≤ 255) (hids : ids ⊆ range' 1 n)
    (hlen : ids.length + 1 = k) (hdvd : k ∣ leaf.length) (hp : p < leaf.length)
    (hcoeff : (vanishingCoeffs ids).getD (p % k) 0 ≠ 0) : Undisclosed k n ids leaf p := by
  have hk : 1 ≤ k ∧ k ≤ n ∧ n ≤ 255 := ⟨by omega, hn, hn'⟩
  have hsame : (shifted k ids leaf (p / k)).length = leaf.length := length_mapIdx
  refine ⟨shifted k ids leaf (p / k), _, _, if_pos hk, if_pos hk, hsame, ?_, ?_⟩
  · rw [shifted, getElem?_mapIdx, getElem?_eq_getElem hp]
    simpa using hcoeff
  · intro x hx
    rw [lookup_fragments (if_pos hk) (hids hx), lookup_fragments (if_pos hk) (hids hx), Option.some.injEq,
      fragment_eq_iff hdvd hsame]
    intro c hc
    rw [evalPoly_eq, evalPoly_eq, slice_shifted hlen hc, eval_add]
    split_ifs
    · rw [(vanishingCoeffs_spec ids).1, eval_vanishing (mem_map_of_mem hx), add_zero]
    · rw [eval_zero, add_zero]

/-- Where it has none, the fragments determine the byte. -/
lemma not_undisclosed_of_coeff (hids : ids ⊆ range' 1 n) (hnodup : ids.Nodup) (hn' : n ≤ 255)
    (hlen : ids.length + 1 = k) (hdvd : k ∣ leaf.length) (hp : p < leaf.length)
    (hcoeff : (vanishingCoeffs ids).getD (p % k) 0 = 0) : ¬ Undisclosed k n ids leaf p := by
  rintro ⟨leaf', d, d', hd, hd', hsame, hdiff, hfrag⟩
  apply hdiff
  have hk : 0 < k := by omega
  have hb : p / k < leaf.length / k := div_lt_div_of_lt_of_dvd hdvd hp
  have hpoints : (ids.map point).Nodup := by
    refine hnodup.map_on fun x hx y hy h => point_inj ?_ ?_ h
    · have hmem := mem_range'_1.1 (hids hx)
      omega
    · have hmem := mem_range'_1.1 (hids hy)
      omega
  have hvalues : ∀ x ∈ ids.map point, (toPoly (slice k leaf' (p / k))).eval x =
      (toPoly (slice k leaf (p / k))).eval x := by
    intro x hx
    obtain ⟨y, hy, rfl⟩ := mem_map.1 hx
    have hy' := hfrag y hy
    rw [lookup_fragments hd' (hids hy), lookup_fragments hd (hids hy), Option.some.injEq,
      fragment_eq_iff hdvd hsame] at hy'
    rw [← evalPoly_eq, ← evalPoly_eq]
    exact hy' _ hb
  rw [← coeff_toPoly, (vanishingCoeffs_spec ids).1] at hcoeff
  have hbyte := getD_eq_of_eval_eq hpoints
    (by rw [length_slice hb, length_map, hlen])
    (by rw [length_slice (hsame ▸ hb), length_map, hlen]) hvalues hcoeff
  have hmod := mod_lt p hk
  have hpos : p / k * k + p % k = p := div_add_mod' p k
  rw [getD_eq_getElem?_getD, getD_eq_getElem?_getD, getElem?_slice hmod, getElem?_slice hmod,
    hpos, getElem?_eq_getElem hp, getElem?_eq_getElem (hsame ▸ hp), Option.getD_some,
    Option.getD_some] at hbyte
  rw [getElem?_eq_getElem hp, getElem?_eq_getElem (hsame ▸ hp), hbyte]

end

/-- One fragment less than needed leaves a byte open exactly if the polynomial that vanishes at the points
has a term at its place. -/
theorem undisclosed_iff {k n : ℕ} (hk : 2 ≤ k) (hn : k ≤ n) (hn' : n ≤ 255) {ids : List ℕ}
    (hids : ids ⊆ List.range' 1 n) (hnodup : ids.Nodup) (hlen : ids.length = k - 1) {leaf : Bytes}
    (hdvd : k ∣ leaf.length) {p : ℕ} (hp : p < leaf.length) :
    Undisclosed k n ids leaf p ↔ (vanishingCoeffs ids).getD (p % k) 0 ≠ 0 := by
  have hlen' : ids.length + 1 = k := by omega
  refine ⟨fun h hcoeff => ?_, undisclosed_of_coeff hn hn' hids hlen' hdvd hp⟩
  exact not_undisclosed_of_coeff hids hnodup hn' hlen' hdvd hp hcoeff h

/-- One of the two fragments that a leaf of two bytes needs leaves the second byte open. -/
theorem undisclosed_second_byte : Undisclosed 2 3 [1] [⟨7⟩, ⟨9⟩] 1 :=
  (undisclosed_iff (by decide) (by decide) (by decide) (by decide) (by decide) (by decide) (by decide)
    (by decide)).2 (by decide +kernel)

/-- The fragments 1, 2 and 3 of a leaf that needs four of them determine its third byte. -/
theorem third_byte_disclosed : ¬ Undisclosed 4 4 [1, 2, 3] [⟨7⟩, ⟨9⟩, ⟨5⟩, ⟨3⟩] 2 :=
  not_undisclosed_of_coeff (by decide) (by decide) (by decide) (by decide) (by decide) (by decide)
    (by decide +kernel)

end SocioWorkspace.Holographic
