import SocioWorkspace.Lib.Basic
import SocioWorkspace.Lib.PyValue

/-!
# Values with dicts in their own order

What `yaml.safe_load` and `tomllib.load` return: a dict keeps the order of its members, and a key can be any
scalar. A look at a value of the wrong type raises (`get`, `iterate`); `field` and `elems` are the same looks
without the exceptions. `Words` is what programs take from Python's own texts.
-/

namespace SocioWorkspace
open Python List Except

inductive Data where
  | none
  | bool (b : Bool)
  | int (n : Int)
  | str (s : String)
  /-- Any other scalar: a float or a date, by its text and its truth value. -/
  | other (text : String) (truth : Bool)
  | list (xs : List Data)
  | dict (members : List (Data × Data))

namespace Data

def truthy : Data → Bool
  | none => false
  | bool b => b
  | int n => n ≠ 0
  | str s => s ≠ ""
  | other _ truth => truth
  | list xs => ! xs.isEmpty
  | dict members => ! members.isEmpty

def isStr (d : Data) (s : String) : Bool :=
  match d with
  | str t => t = s
  | _ => false

def isNone : Data → Bool
  | none => true
  | _ => false

/-- Python `isinstance(d, dict)`. -/
def isDict : Data → Bool
  | dict _ => true
  | _ => false

/-- Python `isinstance(d, int)`, with the number; a truth value is one. -/
def asInt : Data → Option Int
  | int n => some n
  | bool b => some (if b then 1 else 0)
  | _ => Option.none

def asStr : Data → Option String
  | str s => some s
  | _ => Option.none

def hashable : Data → Bool
  | list _ => false
  | dict _ => false
  | _ => true

/-- Python `d in {…}` for a set of texts. -/
def isOneOf (d : Data) (texts : List String) : Except PyError Bool :=
  if d.hashable then .ok (texts.any d.isStr) else .error .type

/-- Python `isinstance(d, list) and d`. -/
def isNonemptyList : Data → Bool
  | list xs => ! xs.isEmpty
  | _ => false

def lookup (members : List (Data × Data)) (key : String) : Option Data :=
  (members.find? (·.1.isStr key)).map Prod.snd

def get (d : Data) (key : String) (default : Data := none) : Except PyError Data :=
  match d with
  | dict members => .ok ((lookup members key).getD default)
  | _ => .error .attr

def items : Data → Except PyError (List (Data × Data))
  | dict members => .ok members
  | _ => .error .attr

/-- Python `for x in d`: elements, keys or characters. -/
def iterate : Data → Except PyError (List Data)
  | list xs => .ok xs
  | dict members => .ok (members.map Prod.fst)
  | str s => .ok (s.toList.map fun c => str (.singleton c))
  | _ => .error .type

/-- The value of a text in a dict; `None` if there is none. -/
def field (d : Data) (key : String) : Data :=
  match d with
  | dict members => (lookup members key).getD none
  | _ => none

def elems (d : Data) : List Data :=
  match d.iterate with
  | .ok xs => xs
  | .error _ => []

def members : Data → List (Data × Data)
  | dict members => members
  | _ => []

variable {d : Data} {key : String} {s : String}

lemma isStr_iff : d.isStr s = true ↔ d = str s := by
  cases d with
  | str t | none | bool | int | other | list | dict => simp [isStr]

lemma asStr_eq_some : d.asStr = some s ↔ d = str s := by
  cases d with
  | str t | none | bool | int | other | list | dict => simp [asStr]

lemma get_cases {x default} (h : d.get key default = .ok x) :
    d.field key = x ∨ d.field key = none ∧ x = default := by
  cases d with
  | dict members =>
    have hget : (lookup members key).getD default = x := ok.inj h
    change (lookup members key).getD none = x ∨ (lookup members key).getD none = none ∧ x = default
    cases hl : lookup members key with
    | none =>
      rw [hl] at hget
      exact .inr ⟨rfl, hget.symm⟩
    | some v =>
      rw [hl] at hget
      exact .inl hget
  | none | bool | int | str | other | list => cases h

variable {x : Data}

lemma get_eq_ok (h : d.get key = .ok x) : d.field key = x := by
  rcases get_cases h with hf | ⟨hf, rfl⟩
  · exact hf
  · exact hf

lemma elems_of_iterate {xs} (h : x.iterate = .ok xs) : x.elems = xs := by
  rw [elems, h]

variable {xs : List (Data × Data)}

lemma members_of_items (h : x.items = .ok xs) : x.members = xs := by
  cases x with
  | dict members => exact ok.inj h
  | none | bool | int | str | other | list => cases h

/-- For the elements a default without elements is as good as none. -/
lemma elems_of_get {xs} (h : d.get key (list []) = .ok x)
    (hx : x.iterate = .ok xs) : (d.field key).elems = xs := by
  rcases get_cases h with hf | ⟨hf, rfl⟩
  · rw [hf, elems_of_iterate hx]
  · rw [hf]
    exact ok.inj hx

lemma members_of_get (h : d.get key (dict []) = .ok x)
    (hx : x.items = .ok xs) : (d.field key).members = xs := by
  rcases get_cases h with hf | ⟨hf, rfl⟩
  · rw [hf, members_of_items hx]
  · rw [hf]
    exact ok.inj hx

lemma field_of_get {x y key'} (h : d.get key (dict []) = .ok x)
    (hx : x.get key' = .ok y) : (d.field key).field key' = y := by
  rcases get_cases h with hf | ⟨hf, rfl⟩
  · rw [hf, get_eq_ok hx]
  · rw [hf]
    exact ok.inj hx

lemma elems_of_get_get {x y key' ys} (h : d.get key (dict []) = .ok x) (hx : x.get key' (list []) = .ok y)
    (hy : y.iterate = .ok ys) : ((d.field key).field key').elems = ys := by
  rcases get_cases h with hf | ⟨hf, rfl⟩
  · rw [hf, elems_of_get hx hy]
  · rw [hf]
    cases hx
    exact ok.inj hy

end Data

/-- Python's `str`, `int` and `str.lower`. -/
structure Words where
  str : Data → String
  int : Data → Except PyError Int
  lower : List Char → List Char
  str_str : ∀ s, str (.str s) = s

def asciiWords : Words where
  str
    | .none => "None"
    | .bool b => if b then "True" else "False"
    | .int n => toString n
    | .str s => s
    | .other text _ => text
    | .list _ => "list"
    | .dict _ => "dict"
  int d := orRaise .value d.asInt
  lower := List.map Char.toLower
  str_str _ := rfl

/-- Python `str.isspace` of one character. -/
def isSpace (c : Char) : Bool :=
  (9 ≤ c.toNat && c.toNat ≤ 13) || (0x1C ≤ c.toNat && c.toNat ≤ 0x20) || c.toNat == 0x85 ||
    c.toNat == 0xA0 || c.toNat == 0x1680 || (0x2000 ≤ c.toNat && c.toNat ≤ 0x200A) ||
    c.toNat == 0x2028 || c.toNat == 0x2029 || c.toNat == 0x202F || c.toNat == 0x205F ||
    c.toNat == 0x3000

def strip (s : List Char) : List Char := ((s.dropWhile isSpace).reverse.dropWhile isSpace).reverse

lemma strip_eq_self {s} (hfirst : ∀ c ∈ s.head?, isSpace c = false)
    (hlast : ∀ c ∈ s.getLast?, isSpace c = false) : strip s = s := by
  have dropWhile_self : ∀ t : List Char, (∀ c ∈ t.head?, isSpace c = false) →
      t.dropWhile isSpace = t := by
    intro t ht
    cases t with
    | nil => rfl
    | cons c t => rw [dropWhile_cons_of_neg (by rw [ht c rfl]; decide)]
  rw [strip, dropWhile_self s hfirst, dropWhile_self, reverse_reverse]
  rwa [head?_reverse]

lemma head?_dropWhile_isSpace (s : List Char) : ∀ c ∈ (s.dropWhile isSpace).head?, isSpace c = false := by
  induction s with
  | nil => exact fun c hc => absurd hc (by simp)
  | cons a s ih =>
    rw [dropWhile_cons]
    cases ha : isSpace a with
    | true => exact ih
    | false =>
      intro c hc
      cases hc
      exact ha

lemma strip_ends (s : List Char) : (∀ c ∈ (strip s).head?, isSpace c = false) ∧
    ∀ c ∈ (strip s).getLast?, isSpace c = false := by
  constructor
  · intro c hc
    -- stripping at the end leaves a front part
    have hpre : strip s <+: s.dropWhile isSpace := by
      rw [strip, ← reverse_suffix, reverse_reverse]
      exact dropWhile_suffix _
    obtain ⟨rest, hrest⟩ := hpre
    refine head?_dropWhile_isSpace s c ?_
    rw [← hrest, head?_append]
    rw [Option.mem_def] at hc ⊢
    rw [hc, Option.some_or]
  · intro c hc
    rw [strip, getLast?_reverse] at hc
    exact head?_dropWhile_isSpace _ c hc

end SocioWorkspace
