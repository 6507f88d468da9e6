import Mathlib

/-!
# Canonical JSON text

JSON values as Python's `json` module decodes them, and the text that
`json.dumps(…, sort_keys=True, separators=(",", ":"))` writes for them. An object is the list of its members
in key order (`Json.normal`).
-/

namespace SocioWorkspace
open List Nat

structure FloatLit where
  text : List Char
  chars : text.all (fun c => c.isDigit || ("-+.eNaInfity".toList.contains c)) = true
  head : text.head?.any (fun c => c.isDigit || ("-NI".toList.contains c)) = true
  notInt : text.any (fun c => !(c.isDigit || c == '-')) = true
deriving DecidableEq

inductive Num where
  | int (n : Int)
  | float (f : FloatLit)
deriving DecidableEq

inductive Json where
  | null
  | bool (b : Bool)
  | num (n : Num)
  | str (s : String)
  | arr (elems : List Json)
  | obj (members : List (String × Json))

mutual

/-- Every object of the value lists its members in strictly increasing key order. -/
def Json.normal : Json → Bool
  | .arr elems => Json.normalElems elems
  | .obj members => decide ((members.map Prod.fst).Pairwise (· < ·)) && Json.normalMembers members
  | _ => true

def Json.normalElems : List Json → Bool
  | [] => true
  | x :: rest => x.normal && Json.normalElems rest

def Json.normalMembers : List (String × Json) → Bool
  | [] => true
  | (_, x) :: rest => x.normal && Json.normalMembers rest

end

def hex4 (n : Nat) : List Char :=
  [(n / 4096 % 16).digitChar, (n / 256 % 16).digitChar, (n / 16 % 16).digitChar, (n % 16).digitChar]

/-- A character outside the basic plane is written as a surrogate pair (Python
`py_encode_basestring_ascii`). -/
def escapeChar (c : Char) : List Char :=
  if c = '"' then ['\\', '"']
  else if c = '\\' then ['\\', '\\']
  else if c = '\n' then ['\\', 'n']
  else if c = '\r' then ['\\', 'r']
  else if c = '\t' then ['\\', 't']
  else if c = '\x0c' then ['\\', 'f']
  else if c = '\x08' then ['\\', 'b']
  else if 0x20 ≤ c.toNat ∧ c.toNat ≤ 0x7e then [c]
  else if c.toNat < 0x10000 then '\\' :: 'u' :: hex4 c.toNat
  else
    let n := c.toNat - 0x10000
    '\\' :: 'u' :: hex4 (0xd800 + n / 0x400) ++ '\\' :: 'u' :: hex4 (0xdc00 + n % 0x400)

def quote (s : String) : List Char :=
  '"' :: s.toList.flatMap escapeChar ++ ['"']

def Num.text : Num → List Char
  | .int (.ofNat n) => Nat.toDigits 10 n
  | .int (.negSucc n) => '-' :: Nat.toDigits 10 (n + 1)
  | .float f => f.text

mutual

def Json.print : Json → List Char
  | .null => ['n', 'u', 'l', 'l']
  | .bool true => ['t', 'r', 'u', 'e']
  | .bool false => ['f', 'a', 'l', 's', 'e']
  | .num n => n.text
  | .str s => quote s
  | .arr [] => ['[', ']']
  | .arr (x :: rest) => '[' :: x.print ++ Json.printElems rest
  | .obj [] => ['{', '}']
  | .obj ((k, x) :: rest) => '{' :: quote k ++ ':' :: x.print ++ Json.printMembers rest

def Json.printElems : List Json → List Char
  | [] => [']']
  | x :: rest => ',' :: x.print ++ Json.printElems rest

def Json.printMembers : List (String × Json) → List Char
  | [] => ['}']
  | (k, x) :: rest => ',' :: quote k ++ ':' :: x.print ++ Json.printMembers rest

end

def hexVal (c : Char) : Nat := if c.isDigit then c.toNat - 48 else c.toNat - 87

def unhex4 (a b c d : Char) : Nat := hexVal a * 4096 + hexVal b * 256 + hexVal c * 16 + hexVal d

/-- Read one character of a string literal; the closing quote is none (Python `py_scanstring`). -/
def unescapeChar : List Char → Option (Char × List Char)
  | '"' :: _ => none
  | '\\' :: 'u' :: a :: b :: c :: d :: rest =>
    let n := unhex4 a b c d
    if 0xd800 ≤ n ∧ n < 0xdc00 then
      match rest with
      | '\\' :: 'u' :: e :: f :: g :: h :: rest' =>
        some (Char.ofNat (0x10000 + (n - 0xd800) * 0x400 + (unhex4 e f g h - 0xdc00)), rest')
      | _ => none
    else some (Char.ofNat n, rest)
  | '\\' :: 'n' :: rest => some ('\n', rest)
  | '\\' :: 'r' :: rest => some ('\r', rest)
  | '\\' :: 't' :: rest => some ('\t', rest)
  | '\\' :: 'f' :: rest => some ('\x0c', rest)
  | '\\' :: 'b' :: rest => some ('\x08', rest)
  | '\\' :: c :: rest => some (c, rest)
  | c :: rest => some (c, rest)
  | [] => none

lemma hexVal_digitChar : ∀ d < 16, hexVal d.digitChar = d := by decide

lemma unhex4_hex4 {n} (h : n < 65536) :
    unhex4 (n / 4096 % 16).digitChar (n / 256 % 16).digitChar (n / 16 % 16).digitChar
      (n % 16).digitChar = n := by
  have hd : ∀ m, hexVal (m % 16).digitChar = m % 16 := fun m =>
    hexVal_digitChar _ (mod_lt _ (by decide))
  rw [unhex4, hd, hd, hd, hd]
  omega

/-- One escaped character is read back, whatever follows it. -/
lemma unescapeChar_escapeChar (c : Char) (rest : List Char) :
    unescapeChar (escapeChar c ++ rest) = some (c, rest) := by
  by_cases h1 : c = '"'
  · subst h1; rfl
  by_cases h2 : c = '\\'
  · subst h2; rfl
  by_cases h3 : c = '\n'
  · subst h3; rfl
  by_cases h4 : c = '\r'
  · subst h4; rfl
  by_cases h5 : c = '\t'
  · subst h5; rfl
  by_cases h6 : c = '\x0c'
  · subst h6; rfl
  by_cases h7 : c = '\x08'
  · subst h7; rfl
  by_cases h8 : 0x20 ≤ c.toNat ∧ c.toNat ≤ 0x7e
  · rw [escapeChar]
    simp only [h1, h2, h3, h4, h5, h6, h7, h8, if_false, if_true, and_self, cons_append, nil_append]
    unfold unescapeChar
    split <;> simp_all
  rw [escapeChar]
  simp only [h1, h2, h3, h4, h5, h6, h7, h8, if_false]
  have hv := c.valid
  by_cases h9 : c.toNat < 0x10000
  · -- a character of the basic plane is no surrogate
    have hs : ¬ (0xd800 ≤ c.toNat ∧ c.toNat < 0xdc00) := by
      intro hs
      have hv' : c.toNat < 0xd800 ∨ (0xdfff < c.toNat ∧ c.toNat < 0x110000) := hv
      omega
    rw [if_pos h9, hex4]
    simp only [cons_append, nil_append, unescapeChar, unhex4_hex4 h9, hs, if_false, Char.ofNat_toNat]
  · have hlt : c.toNat < 0x110000 := by
      have hv' : c.toNat < 0xd800 ∨ (0xdfff < c.toNat ∧ c.toNat < 0x110000) := hv
      omega
    rw [if_neg h9]
    generalize hn : c.toNat - 0x10000 = n
    have hhi : 0xd800 + n / 0x400 < 65536 := by omega
    have hlo : 0xdc00 + n % 0x400 < 65536 := by omega
    have hs : 0xd800 ≤ 0xd800 + n / 0x400 ∧ 0xd800 + n / 0x400 < 0xdc00 := by omega
    have he : 0x10000 + (0xd800 + n / 0x400 - 0xd800) * 0x400 + (0xdc00 + n % 0x400 - 0xdc00) =
        c.toNat := by omega
    simp only [hex4, cons_append, nil_append, unescapeChar, unhex4_hex4 hhi,
      unhex4_hex4 hlo, hs, and_self, if_true, he, Char.ofNat_toNat]

/-- A string literal can be read off the front of a text. -/
lemma quote_inj {s t r r'} (h : quote s ++ r = quote t ++ r') : s = t ∧ r = r' := by
  have key : ∀ (a b : List Char),
      a.flatMap escapeChar ++ '"' :: r = b.flatMap escapeChar ++ '"' :: r' →
      a = b ∧ r = r' := by
    intro a
    induction a with
    | nil =>
      intro b e
      cases b with
      | nil => exact ⟨rfl, by simpa using e⟩
      | cons d b =>
        have e' := congrArg unescapeChar e
        rw [flatMap_cons, append_assoc, unescapeChar_escapeChar] at e'
        cases e'
    | cons c a ih =>
      intro b e
      cases b with
      | nil =>
        have e' := congrArg unescapeChar e
        rw [flatMap_cons, append_assoc, unescapeChar_escapeChar] at e'
        cases e'
      | cons d b =>
        have e' := congrArg unescapeChar e
        rw [flatMap_cons, flatMap_cons, append_assoc, append_assoc,
          unescapeChar_escapeChar, unescapeChar_escapeChar] at e'
        simp only [Option.some.injEq, Prod.mk.injEq] at e'
        obtain ⟨rfl, e'⟩ := e'
        obtain ⟨rfl, er⟩ := ih b e'
        exact ⟨rfl, er⟩
  have h' : s.toList.flatMap escapeChar ++ '"' :: r = t.toList.flatMap escapeChar ++ '"' :: r' := by
    simpa [quote] using h
  obtain ⟨e, er⟩ := key _ _ h'
  exact ⟨String.toList_injective e, er⟩

/-- The text is at its end, or what comes next ends a value. -/
def Delim : List Char → Prop
  | [] => True
  | c :: _ => c = ',' ∨ c = ']' ∨ c = '}'

def numChar (c : Char) : Bool := c.isDigit || "-+.eNaInfity".toList.contains c

lemma numChar_of_isDigit {c} (h : c.isDigit = true) : numChar c = true := by
  rw [numChar, h, Bool.true_or]

lemma digits_isDigit {n c} (h : c ∈ toDigits 10 n) : c.isDigit = true :=
  isDigit_of_mem_toDigits (by decide) (by decide) h

lemma toDigits_inj {m n} (h : toDigits 10 m = toDigits 10 n) : m = n := by
  rw [← ofDigitChars_ten_toDigits (n := m), h, ofDigitChars_ten_toDigits]

lemma Num.int_chars {n c} (h : c ∈ (Num.int n).text) : (c.isDigit || c == '-') = true := by
  cases n with
  | ofNat n => rw [digits_isDigit h, Bool.true_or]
  | negSucc n =>
    cases mem_cons.mp h with
    | inl e => rw [e]; rfl
    | inr h => rw [digits_isDigit h, Bool.true_or]

lemma Num.text_chars {n : Num} {c} (h : c ∈ n.text) : numChar c = true := by
  cases n with
  | int n =>
    have hc := Num.int_chars h
    simp only [Bool.or_eq_true, beq_iff_eq] at hc
    cases hc with
    | inl hd => exact numChar_of_isDigit hd
    | inr e => rw [e]; decide
  | float f => exact all_eq_true.mp f.chars c h

lemma Num.text_inj {m n : Num} (h : m.text = n.text) : m = n := by
  -- an int is told from a float by the characters, a negative int from the others by its sign
  have mixed : ∀ (i : Int) (f : FloatLit), (Num.int i).text ≠ f.text := by
    intro i f e
    obtain ⟨c, hm, hc⟩ := any_eq_true.mp f.notInt
    rw [← e] at hm
    rw [Num.int_chars hm] at hc
    cases hc
  have signed : ∀ m n, toDigits 10 m ≠ '-' :: toDigits 10 n := by
    intro m n e
    have hd : ('-' : Char).isDigit = true := digits_isDigit (n := m) (by rw [e]; exact mem_cons_self ..)
    exact absurd hd (by decide)
  cases m with
  | int m =>
    cases n with
    | int n =>
      cases m with
      | ofNat m =>
        cases n with
        | ofNat n => rw [toDigits_inj h]
        | negSucc n => exact absurd h (signed m (n + 1))
      | negSucc m =>
        cases n with
        | ofNat n => exact absurd h.symm (signed n (m + 1))
        | negSucc n =>
          have e := toDigits_inj (cons.inj h).2
          rw [succ.inj e]
    | float f => exact absurd h (mixed m f)
  | float f =>
    cases n with
    | int n => exact absurd h.symm (mixed n f)
    | float g =>
      cases f
      cases g
      cases h
      rfl

/-- A number can be read off the front of a text that goes on with a delimiter. -/
lemma Num.text_append_inj {m n : Num} {r r'} (hr : Delim r) (hr' : Delim r')
    (h : m.text ++ r = n.text ++ r') : m = n ∧ r = r' := by
  have hnot : ∀ {c : Char} {x : List Char}, Delim (c :: x) → numChar c = false := by
    intro c x hd
    obtain rfl | rfl | rfl : c = ',' ∨ c = ']' ∨ c = '}' := hd
    all_goals decide
  have key : ∀ (a b : List Char), (∀ c ∈ a, numChar c = true) → (∀ c ∈ b, numChar c = true) →
      a ++ r = b ++ r' → a = b ∧ r = r' := by
    intro a
    induction a with
    | nil =>
      intro b _ hb e
      cases b with
      | nil => exact ⟨rfl, e⟩
      | cons c b =>
        rw [nil_append, cons_append] at e
        rw [e] at hr
        exact absurd (hb c (mem_cons_self ..)) (by rw [hnot hr]; decide)
    | cons c a ih =>
      intro b ha hb e
      cases b with
      | nil =>
        rw [nil_append, cons_append] at e
        rw [← e] at hr'
        exact absurd (ha c (mem_cons_self ..)) (by rw [hnot hr']; decide)
      | cons d b =>
        obtain ⟨rfl, e'⟩ := cons.inj e
        obtain ⟨rfl, er⟩ := ih b (fun x hx => ha x (mem_cons_of_mem _ hx))
          (fun x hx => hb x (mem_cons_of_mem _ hx)) e'
        exact ⟨rfl, er⟩
  obtain ⟨e, er⟩ := key _ _ (fun _ => Num.text_chars) (fun _ => Num.text_chars) h
  exact ⟨Num.text_inj e, er⟩

lemma Num.text_head (n : Num) : ∃ c rest, n.text = c :: rest ∧
    (c.isDigit || "-NI".toList.contains c) = true := by
  have digits : ∀ m, ∃ c rest, toDigits 10 m = c :: rest ∧ c.isDigit = true := by
    intro m
    cases h : toDigits 10 m with
    | nil => exact absurd h toDigits_ne_nil
    | cons c rest =>
      refine ⟨c, rest, rfl, digits_isDigit (n := m) ?_⟩
      rw [h]
      exact mem_cons_self ..
  cases n with
  | int n =>
    cases n with
    | ofNat n =>
      obtain ⟨c, rest, e, hc⟩ := digits n
      exact ⟨c, rest, e, by rw [hc, Bool.true_or]⟩
    | negSucc n => exact ⟨'-', _, rfl, by decide⟩
  | float f =>
    have hf := f.head
    cases e : f.text with
    | nil => rw [e] at hf; cases hf
    | cons c rest =>
      rw [e] at hf
      exact ⟨c, rest, e, hf⟩

/-- The shape of a value, as its first character tells it. -/
def Json.shape : Json → Nat
  | .null => 0
  | .bool true => 1
  | .bool false => 2
  | .num _ => 3
  | .str _ => 4
  | .arr _ => 5
  | .obj _ => 6

def charShape (c : Char) : Nat :=
  if c = 'n' then 0 else if c = 't' then 1 else if c = 'f' then 2 else if c = '"' then 4
  else if c = '[' then 5 else if c = '{' then 6 else if c = ',' ∨ c = ']' ∨ c = '}' then 7 else 3

lemma Json.shape_lt (j : Json) : j.shape < 7 := by
  cases j with
  | bool b => cases b <;> decide
  | _ => simp [Json.shape]

lemma Json.print_head (j : Json) : ∃ c rest, j.print = c :: rest ∧ charShape c = j.shape := by
  cases j with
  | null => exact ⟨_, _, rfl, rfl⟩
  | bool b =>
    cases b with
    | true | false => exact ⟨_, _, rfl, rfl⟩
  | num n =>
    obtain ⟨c, rest, e, hc⟩ := n.text_head
    refine ⟨c, rest, e, ?_⟩
    have ne : ∀ d : Char, (d.isDigit || "-NI".toList.contains d) = false → c ≠ d := by
      intro d hd e
      rw [e, hd] at hc
      cases hc
    have h1 := ne 'n' (by decide)
    have h2 := ne 't' (by decide)
    have h3 := ne 'f' (by decide)
    have h4 := ne '"' (by decide)
    have h5 := ne '[' (by decide)
    have h6 := ne '{' (by decide)
    have h7 := ne ',' (by decide)
    have h8 := ne ']' (by decide)
    have h9 := ne '}' (by decide)
    simp [charShape, Json.shape, h1, h2, h3, h4, h5, h6, h7, h8, h9]
  | str s => exact ⟨_, _, rfl, rfl⟩
  | arr elems =>
    cases elems with
    | nil | cons x rest => exact ⟨_, _, rfl, rfl⟩
  | obj members =>
    cases members with
    | nil | cons m rest => exact ⟨_, _, rfl, rfl⟩

/-- No text starts with a character that only a number could start with and none does. -/
lemma Json.print_ne_cons {c rest} (j : Json) (hs : charShape c = 3)
    (hc : (c.isDigit || "-NI".toList.contains c) = false) : j.print ≠ c :: rest := by
  intro e
  obtain ⟨d, rest', e', hd⟩ := j.print_head
  obtain ⟨rfl, -⟩ := cons.inj (e.symm.trans e')
  cases j with
  | num n =>
    obtain ⟨d, rest'', en, hn⟩ := n.text_head
    obtain ⟨rfl, -⟩ := cons.inj (e.symm.trans en)
    rw [hc] at hn
    cases hn
  | bool b =>
    rw [hs] at hd
    cases b <;> cases hd
  | _ =>
    rw [hs] at hd
    cases hd

/-- Texts that go on the same start with values of the same shape. -/
lemma Json.shape_eq {a b : Json} {r r'} (h : a.print ++ r = b.print ++ r') : a.shape = b.shape := by
  obtain ⟨c, x, ea, ha⟩ := a.print_head
  obtain ⟨d, y, eb, hb⟩ := b.print_head
  rw [ea, eb, cons_append, cons_append] at h
  rw [← ha, ← hb, (cons.inj h).1]

lemma Json.print_ne_delim {j : Json} {r x} (hx : Delim x) (ne : x ≠ []) : x ≠ j.print ++ r := by
  intro h
  obtain ⟨d, y, e, hd⟩ := j.print_head
  rw [e] at h
  cases x with
  | nil => exact ne rfl
  | cons c x =>
    obtain ⟨rfl, _⟩ := cons.inj h
    have h7 : charShape c = 7 := by
      obtain rfl | rfl | rfl : c = ',' ∨ c = ']' ∨ c = '}' := hx
      all_goals rfl
    have := j.shape_lt
    omega

lemma delim_printElems (elems : List Json) (r) : Delim (Json.printElems elems ++ r) := by
  cases elems with
  | nil => exact .inr (.inl rfl)
  | cons x rest => exact .inl rfl

lemma delim_printMembers (members : List (String × Json)) (r) : Delim (Json.printMembers members ++ r) := by
  cases members with
  | nil => exact .inr (.inr rfl)
  | cons x rest => exact .inl rfl

/-- The first element of an array goes on as any other. -/
lemma Json.printElems_of_arr {a b : List Json} {r r'}
    (h : (Json.arr a).print ++ r = (Json.arr b).print ++ r') :
    Json.printElems a ++ r = Json.printElems b ++ r' := by
  cases a with
  | nil =>
    cases b with
    | nil => exact (cons.inj h).2
    | cons y ys =>
      have h' : ']' :: r = y.print ++ (Json.printElems ys ++ r') := by simpa [Json.print] using h
      exact absurd h' (Json.print_ne_delim (.inr (.inl rfl)) (cons_ne_nil _ _))
  | cons x xs =>
    cases b with
    | nil =>
      have h' : ']' :: r' = x.print ++ (Json.printElems xs ++ r) := by simpa [Json.print] using h.symm
      exact absurd h' (Json.print_ne_delim (.inr (.inl rfl)) (cons_ne_nil _ _))
    | cons y ys => simpa [Json.print, Json.printElems] using h

lemma Json.printMembers_of_obj {a b r r'} (h : (Json.obj a).print ++ r = (Json.obj b).print ++ r') :
    Json.printMembers a ++ r = Json.printMembers b ++ r' := by
  cases a with
  | nil =>
    cases b with
    | nil => exact (cons.inj h).2
    | cons m ms => exact absurd (cons.inj (cons.inj h).2).1 (by decide)
  | cons m ms =>
    cases b with
    | nil => exact absurd (cons.inj (cons.inj h).2).1 (by decide)
    | cons m' ms' => simpa [Json.print, Json.printMembers] using h

mutual

/-- A value can be read off the front of a text that goes on with a delimiter. -/
theorem Json.print_append_inj : ∀ (a b : Json) {r r'}, Delim r → Delim r' →
    a.print ++ r = b.print ++ r' → a = b ∧ r = r'
  | .null, b, r, r', _, _, h => by
    have hs := Json.shape_eq h
    cases b with
    | null => exact ⟨rfl, append_cancel_left h⟩
    | bool b => cases b <;> cases hs
    | _ => cases hs
  | .bool true, b, r, r', _, _, h => by
    have hs := Json.shape_eq h
    cases b with
    | bool b =>
      cases b with
      | true => exact ⟨rfl, append_cancel_left h⟩
      | false => cases hs
    | _ => cases hs
  | .bool false, b, r, r', _, _, h => by
    have hs := Json.shape_eq h
    cases b with
    | bool b =>
      cases b with
      | true => cases hs
      | false => exact ⟨rfl, append_cancel_left h⟩
    | _ => cases hs
  | .num m, b, r, r', hr, hr', h => by
    have hs := Json.shape_eq h
    cases b with
    | num n =>
      obtain ⟨rfl, er⟩ := Num.text_append_inj hr hr' h
      exact ⟨rfl, er⟩
    | bool b => cases b <;> cases hs
    | _ => cases hs
  | .str s, b, r, r', _, _, h => by
    have hs := Json.shape_eq h
    cases b with
    | str t =>
      obtain ⟨rfl, er⟩ := quote_inj h
      exact ⟨rfl, er⟩
    | bool b => cases b <;> cases hs
    | _ => cases hs
  | .arr elems, b, r, r', hr, hr', h => by
    have hs := Json.shape_eq h
    cases b with
    | arr elems' =>
      obtain ⟨rfl, er⟩ := Json.printElems_append_inj elems elems' hr hr' (Json.printElems_of_arr h)
      exact ⟨rfl, er⟩
    | bool b => cases b <;> cases hs
    | _ => cases hs
  | .obj members, b, r, r', hr, hr', h => by
    have hs := Json.shape_eq h
    cases b with
    | obj members' =>
      obtain ⟨rfl, er⟩ := Json.printMembers_append_inj members members' hr hr' (Json.printMembers_of_obj h)
      exact ⟨rfl, er⟩
    | bool b => cases b <;> cases hs
    | _ => cases hs

/-- The elements of an array can be read off what follows one of them. -/
theorem Json.printElems_append_inj : ∀ (a b : List Json) {r r'}, Delim r → Delim r' →
    Json.printElems a ++ r = Json.printElems b ++ r' → a = b ∧ r = r'
  | [], b, r, r', _, _, h => by
    cases b with
    | nil => exact ⟨rfl, append_cancel_left h⟩
    | cons y ys => exact absurd (cons.inj h).1 (by decide)
  | x :: xs, b, r, r', hr, hr', h => by
    cases b with
    | nil => exact absurd (cons.inj h).1 (by decide)
    | cons y ys =>
      have h' : x.print ++ (Json.printElems xs ++ r) = y.print ++ (Json.printElems ys ++ r') := by
        simpa [Json.printElems] using h
      obtain ⟨rfl, h2⟩ := Json.print_append_inj x y (delim_printElems xs r) (delim_printElems ys r') h'
      obtain ⟨rfl, er⟩ := Json.printElems_append_inj xs ys hr hr' h2
      exact ⟨rfl, er⟩

/-- The members of an object can be read off what follows one of them. -/
theorem Json.printMembers_append_inj : ∀ (a b : List (String × Json)) {r r'}, Delim r → Delim r' →
    Json.printMembers a ++ r = Json.printMembers b ++ r' → a = b ∧ r = r'
  | [], b, r, r', _, _, h => by
    cases b with
    | nil => exact ⟨rfl, append_cancel_left h⟩
    | cons m ms => exact absurd (cons.inj h).1 (by decide)
  | (k, x) :: xs, b, r, r', hr, hr', h => by
    cases b with
    | nil => exact absurd (cons.inj h).1 (by decide)
    | cons m ms =>
      obtain ⟨l, y⟩ := m
      have h' : quote k ++ (':' :: x.print ++ (Json.printMembers xs ++ r)) =
          quote l ++ (':' :: y.print ++ (Json.printMembers ms ++ r')) := by
        simpa [Json.printMembers] using h
      obtain ⟨rfl, h2⟩ := quote_inj h'
      obtain ⟨rfl, h3⟩ := Json.print_append_inj x y (delim_printMembers xs r)
        (delim_printMembers ms r') (cons.inj h2).2
      obtain ⟨rfl, er⟩ := Json.printMembers_append_inj xs ms hr hr' h3
      exact ⟨rfl, er⟩

end

/-- The canonical text determines the value. -/
theorem Json.print_injective : Function.Injective Json.print := by
  intro a b h
  have h' : a.print ++ [] = b.print ++ [] := by rw [h]
  have hd : Delim [] := trivial
  exact (Json.print_append_inj a b hd hd h').1

instance : DecidableEq Json := fun a b =>
  decidable_of_iff (a.print = b.print) Json.print_injective.eq_iff

end SocioWorkspace
