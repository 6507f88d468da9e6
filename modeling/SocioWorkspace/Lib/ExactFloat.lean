import SocioWorkspace.Lib.PyValue
import Mathlib.Algebra.Order.Floor.Ring
import Mathlib.Data.Rat.Floor
import Mathlib.Tactic.FieldSimp

/-!
# Floats with exact finite values

Python's floats as far as sums, quotients and floors are concerned: the finite ones are exact fractions, and
there are the two infinite ones and the one that is no number. The sign of zero is left out.
-/

namespace SocioWorkspace.Python

inductive ExactFloat where
  | fin (q : ℚ)
  | inf (negative : Bool)
  | nan
deriving DecidableEq

namespace ExactFloat

/-- Python `-a`. -/
def neg : ExactFloat → ExactFloat
  | fin q => fin (-q)
  | inf negative => inf !negative
  | nan => nan

/-- Python `a + b`. -/
def add : ExactFloat → ExactFloat → ExactFloat
  | fin p, fin q => fin (p + q)
  | fin _, inf negative => inf negative
  | inf negative, fin _ => inf negative
  | inf s, inf t => if s = t then inf s else nan
  | nan, _ => nan
  | _, nan => nan

/-- Python `a - b`. -/
def sub (a b : ExactFloat) : ExactFloat := a.add b.neg

/-- Python `a / b` for a divisor that is not zero. -/
def div : ExactFloat → ExactFloat → ExactFloat
  | fin p, fin q => fin (p / q)
  | fin _, inf _ => fin 0
  | inf negative, fin q => inf (negative != decide (q < 0))
  | inf _, inf _ => nan
  | nan, _ => nan
  | _, nan => nan

/-- Python `a <= 0`. -/
def nonpos : ExactFloat → Bool
  | fin q => q ≤ 0
  | inf negative => negative
  | nan => false

def floor : ExactFloat → Except PyError ℤ
  | fin q => .ok ⌊q⌋
  | inf _ => .error .overflow
  | nan => .error .value

lemma floor_eq_ok {a n} : a.floor = .ok n ↔ ∃ q, a = fin q ∧ ⌊q⌋ = n := by
  cases a with
  | fin q =>
    refine ⟨fun h => ⟨q, rfl, Except.ok.inj h⟩, fun h => ?_⟩
    obtain ⟨q', he, hn⟩ := h
    cases he
    exact congrArg Except.ok hn
  | inf negative | nan => exact iff_of_false (by simp [floor]) (by simp)

end ExactFloat

end SocioWorkspace.Python
