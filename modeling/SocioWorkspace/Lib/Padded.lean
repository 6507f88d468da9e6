import Mathlib

/-!
# Padded decimal numbers

The decimal text of a number, filled up with zeros to a given width (Python `f"{n:020d}"`). Texts of
one width are in lexicographic order exactly when their numbers are in order (`padded_lt_iff`).
-/

namespace SocioWorkspace.Padded
open List Nat

def padded (width n : ℕ) : List Char := (Nat.toDigits 10 n).leftpad width '0'

lemma isDigit_of_mem_padded {width n c} (h : c ∈ padded width n) : c.isDigit = true := by
  cases mem_append.1 h with
  | inl h =>
    rw [eq_of_mem_replicate h]
    rfl
  | inr h => exact isDigit_of_mem_toDigits (by omega) (by omega) h

lemma length_padded {width n} (hwidth : 0 < width) (h : n < 10 ^ width) :
    (padded width n).length = width := by
  rw [padded, length_leftpad]
  exact max_eq_left ((length_toDigits_le_iff (by omega) hwidth).2 h)

lemma ofDigitChars_replicate (n : ℕ) : ofDigitChars 10 (replicate n '0') 0 = 0 := by
  induction n with
  | zero => rfl
  | succ n ih =>
    rw [replicate_succ, Nat.ofDigitChars_cons]
    exact ih

lemma ofDigitChars_padded (width n : ℕ) : ofDigitChars 10 (padded width n) 0 = n := by
  rw [padded, leftpad, ofDigitChars_append, ofDigitChars_replicate]
  exact ofDigitChars_ten_toDigits

lemma digit_lt {c : Char} (h : c.isDigit = true) : '0'.toNat ≤ c.toNat ∧ c.toNat < '0'.toNat + 10 := by
  rw [Char.isDigit, Bool.and_eq_true, decide_eq_true_eq, decide_eq_true_eq] at h
  have hlow : (48 : ℕ) ≤ c.toNat := h.1
  have hhigh : c.toNat ≤ 57 := h.2
  exact ⟨hlow, lt_succ_of_le hhigh⟩

lemma ofDigitChars_cons (c : Char) (l : List Char) : ofDigitChars 10 (c :: l) 0 =
    10 ^ l.length * (c.toNat - '0'.toNat) + ofDigitChars 10 l 0 := by
  rw [Nat.ofDigitChars_cons, ofDigitChars_eq_ofDigitChars_zero, mul_zero, zero_add]

lemma ofDigitChars_lt {l : List Char} (h : ∀ c ∈ l, c.isDigit = true) :
    ofDigitChars 10 l 0 < 10 ^ l.length := by
  induction l with
  | nil => exact Nat.one_pos
  | cons c l ih =>
    rw [forall_mem_cons] at h
    have hc := digit_lt h.1
    have hl := ih h.2
    have hd : c.toNat - '0'.toNat ≤ 9 := by omega
    rw [ofDigitChars_cons, length_cons, pow_succ]
    calc 10 ^ l.length * (c.toNat - '0'.toNat) + ofDigitChars 10 l 0
        ≤ 10 ^ l.length * 9 + ofDigitChars 10 l 0 := by gcongr
      _ < 10 ^ l.length * 9 + 10 ^ l.length := by omega
      _ = 10 ^ l.length * 10 := by ring

/-- A number in two parts: the first decides, and the second between equal first ones. -/
lemma two_parts_lt_iff {p d d' v v' : ℕ} (hv : v < p) (hv' : v' < p) :
    p * d + v < p * d' + v' ↔ d < d' ∨ d = d' ∧ v < v' := by
  cases lt_trichotomy d d' with
  | inl h =>
    have hmul : p * (d + 1) ≤ p * d' := Nat.mul_le_mul_left p h
    rw [Nat.mul_add, Nat.mul_one] at hmul
    exact iff_of_true (by omega) (.inl h)
  | inr h =>
    cases h with
    | inl h =>
      rw [h]
      simp
    | inr h =>
      have hmul : p * (d' + 1) ≤ p * d := Nat.mul_le_mul_left p h
      rw [Nat.mul_add, Nat.mul_one] at hmul
      exact iff_of_false (by omega) (by omega)

lemma lt_iff_ofDigitChars_lt {l l' : List Char} (hlen : l.length = l'.length)
    (hl : ∀ c ∈ l, c.isDigit = true) (hl' : ∀ c ∈ l', c.isDigit = true) :
    l < l' ↔ ofDigitChars 10 l 0 < ofDigitChars 10 l' 0 := by
  induction l generalizing l' with
  | nil =>
    cases l' with
    | nil => simp
    | cons c' l' => cases hlen
  | cons c l ih =>
    cases l' with
    | nil => cases hlen
    | cons c' l' =>
      rw [forall_mem_cons] at hl hl'
      have hlen : l.length = l'.length := succ.inj hlen
      have hc := digit_lt hl.1
      have hc' := digit_lt hl'.1
      have hv := ofDigitChars_lt hl.2
      have hv' := ofDigitChars_lt hl'.2
      rw [hlen] at hv
      have hlt : c < c' ↔ c.toNat - '0'.toNat < c'.toNat - '0'.toNat := by
        show c.toNat < c'.toNat ↔ _
        omega
      have heq : c = c' ↔ c.toNat - '0'.toNat = c'.toNat - '0'.toNat := by
        rw [← Char.toNat_inj]
        omega
      rw [cons_lt_cons_iff, ih hlen hl.2 hl'.2, ofDigitChars_cons, ofDigitChars_cons, hlen,
        two_parts_lt_iff hv hv', hlt, heq]

theorem padded_lt_iff {width m n} (hwidth : 0 < width) (hm : m < 10 ^ width)
    (hn : n < 10 ^ width) : padded width m < padded width n ↔ m < n := by
  have hlen : (padded width m).length = (padded width n).length := by
    rw [length_padded hwidth hm, length_padded hwidth hn]
  rw [lt_iff_ofDigitChars_lt hlen (fun c => isDigit_of_mem_padded) (fun c => isDigit_of_mem_padded),
    ofDigitChars_padded, ofDigitChars_padded]

lemma padded_injective (width : ℕ) : Function.Injective (padded width) := by
  intro m n h
  rw [← ofDigitChars_padded width m, h, ofDigitChars_padded]

/-- Behind parts of one length, a text is decided by the first parts. -/
lemma append_lt_append_iff {α : Type} [LinearOrder α] {l l' r r' : List α}
    (hlen : l.length = l'.length) : l ++ r < l' ++ r' ↔ l < l' ∨ l = l' ∧ r < r' := by
  induction l generalizing l' with
  | nil =>
    have hnil : l' = [] := eq_nil_of_length_eq_zero hlen.symm
    simp [hnil]
  | cons a l ih =>
    cases l' with
    | nil => cases hlen
    | cons a' l' =>
      have ih := ih (succ.inj hlen)
      rw [cons_append, cons_append, cons_lt_cons_iff, cons_lt_cons_iff, ih, cons.injEq]
      tauto

end SocioWorkspace.Padded
