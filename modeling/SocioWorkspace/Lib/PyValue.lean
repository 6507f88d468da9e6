import SocioWorkspace.Lib.Dict

/-!
# Conversions of decoded values

Python's `int`, `float` and the exceptions that they raise, on values decoded from JSON. How a text is read as
a number, and what an int is as a float, is left to the implementation (`IntBuiltin`, `FloatBuiltin`).
-/

namespace SocioWorkspace.Python
open Nat

/-- The exceptions that a look at a decoded value can raise. -/
inductive PyError where
  | value
  | key
  | type
  | attr
  | overflow
  | recursion
deriving DecidableEq

def orRaise {α : Type} (e : PyError) : Option α → Except PyError α
  | some a => .ok a
  | none => .error e

def isNaN (f : FloatLit) : Bool := f.text = "NaN".toList

def isInfinite (f : FloatLit) : Bool := f.text = "Infinity".toList ∨ f.text = "-Infinity".toList

/-- How texts and finite floats become ints. -/
structure IntBuiltin where
  truncate : FloatLit → ℤ
  ofStr : String → Option ℤ
  ofStr_toString : ∀ n : ℕ, ofStr (toString n) = some (n : ℤ)

def IntBuiltin.int (py : IntBuiltin) (v : Value) : Except PyError ℤ :=
  match v.json with
  | .null => .error .type
  | .bool b => .ok (if b then 1 else 0)
  | .num (.int n) => .ok n
  | .num (.float f) =>
    if isNaN f then .error .value
    else if isInfinite f then .error .overflow
    else .ok (py.truncate f)
  | .str s => orRaise .value (py.ofStr s)
  | .arr _ => .error .type
  | .obj _ => .error .type

@[simp] lemma IntBuiltin.int_int (py : IntBuiltin) (n : ℤ) : py.int (.int n) = .ok n := rfl

@[simp] lemma IntBuiltin.int_str_toString (py : IntBuiltin) (n : ℕ) :
    py.int (.str (toString n)) = .ok (n : ℤ) := by
  show orRaise .value (py.ofStr (toString n)) = _
  rw [py.ofStr_toString]
  rfl

/-- How literals, texts and ints become floats, and the text of a value. An int can be too large. -/
structure FloatBuiltin (F : Type) extends IntBuiltin where
  ofLit : FloatLit → F
  ofInt : ℤ → Option F
  floatOfStr : String → Option F
  str : Value → String
  str_str : ∀ s, str (.str s) = s

def FloatBuiltin.float {F : Type} (py : FloatBuiltin F) (v : Value) : Except PyError F :=
  match v.json with
  | .null => .error .type
  | .bool b => orRaise .overflow (py.ofInt (if b then 1 else 0))
  | .num (.int n) => orRaise .overflow (py.ofInt n)
  | .num (.float f) => .ok (py.ofLit f)
  | .str s => orRaise .value (py.floatOfStr s)
  | .arr _ => .error .type
  | .obj _ => .error .type

def digits (cs : List Char) : Option ℕ :=
  if cs ≠ [] ∧ cs.all Char.isDigit then some (Nat.ofDigitChars 10 cs 0) else none

def decimalInt (s : String) : Option ℤ :=
  match s.toList with
  | '-' :: cs => (digits cs).map fun n => -(n : ℤ)
  | cs => (digits cs).map fun n => (n : ℤ)

lemma digits_toDigits (n : ℕ) : digits (toDigits 10 n) = some n := by
  have hne : toDigits 10 n ≠ [] := toDigits_ne_nil
  have hall : (toDigits 10 n).all Char.isDigit = true := List.all_eq_true.2 fun c hc => digits_isDigit hc
  rw [digits, if_pos ⟨hne, hall⟩, ofDigitChars_ten_toDigits]

lemma toList_toString (n : ℕ) : (toString n).toList = toDigits 10 n := by
  show (Nat.repr n).toList = _
  simp [Nat.repr]

lemma decimalInt_toString (n : ℕ) : decimalInt (toString n) = some (n : ℤ) := by
  have hdigits := digits_toDigits n
  rw [decimalInt, toList_toString]
  split
  · rename_i cs hcs
    have hsign := digits_isDigit (n := n) (c := '-') (hcs ▸ List.mem_cons_self ..)
    cases hsign
  · rw [hdigits]
    rfl

lemma toString_injective : Function.Injective (fun n : ℕ => toString n) := by
  intro m n h
  have hint := congrArg decimalInt h
  rw [decimalInt_toString, decimalInt_toString] at hint
  exact_mod_cast Option.some.inj hint

/-- A decimal number: an int, the digits behind the point and the power of ten. -/
def decimal (cs : List Char) : ℚ :=
  let (mantissa, exponent) := (cs.takeWhile (· ≠ 'e'), (cs.dropWhile (· ≠ 'e')).drop 1)
  let (whole, fraction) := (mantissa.takeWhile (· ≠ '.'), (mantissa.dropWhile (· ≠ '.')).drop 1)
  let sign : ℚ := if whole.head? = some '-' then -1 else 1
  let n := Nat.ofDigitChars 10 (whole.filter Char.isDigit ++ fraction) 0
  let e : ℤ := (decimalInt (.ofList (exponent.filter (· ≠ '+')))).getD 0
  sign * n * 10 ^ (e - fraction.length)

def decimalInts : IntBuiltin where
  truncate f := (decimal f.text).num.tdiv (decimal f.text).den
  ofStr := decimalInt
  ofStr_toString := decimalInt_toString

def exactFloats : FloatBuiltin ℚ where
  toIntBuiltin := decimalInts
  ofLit f := decimal f.text
  ofInt n := if n.natAbs < 2 ^ 1024 then some n else none
  floatOfStr s := (decimalInt s).map fun n => (n : ℚ)
  str v :=
    match v.json with
    | .str s => s
    | json => .ofList json.print
  str_str _ := rfl

end SocioWorkspace.Python
