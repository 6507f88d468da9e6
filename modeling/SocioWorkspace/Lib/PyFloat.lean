import SocioWorkspace.Lib.PyValue

/-!
# Comparisons of floats

Arithmetic and comparison of floats, as far as programs that only compare their results need it. A float
is a number if it is at most itself, and only numbers compare. `maxOf` is Python's `max` of an iterable;
of numbers it is at least what one of them is at least (`le_maxOf_iff`).
-/

namespace SocioWorkspace.Python
open List

/-- Arithmetic and `<=`; `lit` is the float of a literal of the program. -/
structure FloatOps (F : Type) extends FloatBuiltin F where
  lit : ℚ → F
  add : F → F → F
  sub : F → F → F
  mul : F → F → F
  le : F → F → Bool
  le_lit : ∀ q, le (lit q) (lit q) = true
  le_self : ∀ a b, le a b = true → le a a = true ∧ le b b = true
  le_trans : ∀ a b c, le a b = true → le b c = true → le a c = true
  le_total : ∀ a b, le a a = true → le b b = true → le a b = true ∨ le b a = true

namespace FloatOps
variable {F : Type} (py : FloatOps F)

/-- Python `a < b`. -/
def lt (a b : F) : Bool := py.le a b && !py.le b a

def max (a b : F) : F := if py.lt a b then b else a

/-- Python `max(l, default=a)`. -/
def maxOf (a : F) : List F → F
  | [] => a
  | b :: l => l.foldl py.max b

variable {py}

lemma max_self {a b} (ha : py.le a a = true) : py.le (py.max a b) (py.max a b) = true := by
  rw [max]
  split_ifs with hlt
  · exact (py.le_self a b (Bool.and_eq_true_iff.1 hlt).1).2
  · exact ha

lemma le_max_iff {a b x} (ha : py.le a a = true) (hb : py.le b b = true) :
    py.le x (py.max a b) = true ↔ py.le x a = true ∨ py.le x b = true := by
  rw [max]
  cases hab : py.le a b with
  | true =>
    cases hba : py.le b a with
    | true =>
      rw [if_neg (by simp [lt, hab, hba])]
      exact ⟨.inl, fun h => h.elim id fun hxb => py.le_trans x b a hxb hba⟩
    | false =>
      rw [if_pos (by simp [lt, hab, hba])]
      exact ⟨.inr, fun h => h.elim (fun hxa => py.le_trans x a b hxa hab) id⟩
  | false =>
    have hba : py.le b a = true := (py.le_total a b ha hb).resolve_left (by simp [hab])
    rw [if_neg (by simp [lt, hab])]
    exact ⟨.inl, fun h => h.elim id fun hxb => py.le_trans x b a hxb hba⟩

lemma le_foldl_max_iff {l : List F} {a x} (ha : py.le a a = true) (hl : ∀ b ∈ l, py.le b b = true) :
    py.le x (l.foldl py.max a) = true ↔ py.le x a = true ∨ ∃ b ∈ l, py.le x b = true := by
  induction l generalizing a with
  | nil => simp
  | cons b l ih =>
    have hb := hl b (mem_cons_self ..)
    rw [foldl_cons, ih (max_self ha) fun c hc => hl c (mem_cons_of_mem _ hc),
      le_max_iff ha hb, or_assoc, exists_mem_cons_iff]

theorem le_maxOf_iff {l : List F} {a x} (hne : l ≠ []) (hl : ∀ b ∈ l, py.le b b = true) :
    py.le x (py.maxOf a l) = true ↔ ∃ b ∈ l, py.le x b = true := by
  cases l with
  | nil => exact absurd rfl hne
  | cons b l =>
    rw [exists_mem_cons_iff]
    exact le_foldl_max_iff (hl b (mem_cons_self ..)) fun c hc => hl c (mem_cons_of_mem _ hc)

end FloatOps

def exactOps : FloatOps ℚ where
  toFloatBuiltin := exactFloats
  lit q := q
  add := (· + ·)
  sub := (· - ·)
  mul := (· * ·)
  le a b := a ≤ b
  le_lit q := decide_eq_true le_rfl
  le_self a b _ := ⟨decide_eq_true le_rfl, decide_eq_true le_rfl⟩
  le_trans a b c hab hbc := decide_eq_true ((of_decide_eq_true hab).trans (of_decide_eq_true hbc))
  le_total a b _ _ := by
    rw [decide_eq_true_eq, decide_eq_true_eq]
    exact Std.Total.total a b

end SocioWorkspace.Python
