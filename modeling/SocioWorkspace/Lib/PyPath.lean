import Mathlib.Data.List.Induction

/-!
# Paths of Python

`pathlib.PurePosixPath`: empty parts and `.` are dropped when a text is read and `..` is kept. A second slash
in front is read as one, as the system does. `location` is where a path leads from a directory, without a look
at links, and `climb` how it gets there.
-/

namespace SocioWorkspace
open List

structure PyPath where
  absolute : Bool
  parts : List String
deriving DecidableEq

namespace PyPath

/-- Python `Path(text)`. -/
def ofText (text : String) : PyPath where
  absolute := text.toList.head? = some '/'
  parts := ((text.toList.splitOn '/').filter fun part => part ≠ [] ∧ part ≠ ['.']).map String.ofList

/-- Python `a / b`. -/
def join (a b : PyPath) : PyPath := if b.absolute then b else { a with parts := a.parts ++ b.parts }

def parent (p : PyPath) : PyPath := { p with parts := p.parts.dropLast }

def enter (directory : List String) (part : String) : List String :=
  if part = ".." then directory.dropLast else directory ++ [part]

/-- Where a path leads from the working directory. -/
def location (cwd : List String) (p : PyPath) : List String :=
  p.parts.foldl enter (if p.absolute then [] else cwd)

/-- The path leads to the directory or to something below it. -/
def Beneath (cwd : List String) (directory p : PyPath) : Prop := directory.location cwd <+: p.location cwd

instance (cwd : List String) (directory p : PyPath) : Decidable (Beneath cwd directory p) :=
  inferInstanceAs (Decidable (_ <+: _))

lemma slash_not_mem {text part : List Char} (h : part ∈ text.splitOn '/') : '/' ∉ part := by
  induction text generalizing part with
  | nil => simp_all
  | cons c text ih =>
    rw [splitOn_cons_eq_if_modifyHead] at h
    split_ifs at h with hc
    · cases mem_cons.1 h with
      | inl he => simp [he]
      | inr h => exact ih h
    · cases hsplit : text.splitOn '/' with
      | nil => exact absurd hsplit (splitOn_ne_nil _ _)
      | cons first rest =>
        rw [hsplit] at h ih
        cases mem_cons.1 h with
        | inl he =>
          rw [he, mem_cons, not_or]
          exact ⟨fun hslash => hc (beq_iff_eq.2 hslash.symm), ih mem_cons_self⟩
        | inr h => exact ih (mem_cons_of_mem _ h)

lemma slash_not_mem_part {text part} (h : part ∈ (ofText text).parts) : '/' ∉ part.toList := by
  obtain ⟨chars, hchars, rfl⟩ := mem_map.1 h
  rw [String.toList_ofList]
  exact slash_not_mem (mem_filter.1 hchars).1

lemma foldl_enter {parts} (h : ".." ∉ parts) (directory : List String) :
    parts.foldl enter directory = directory ++ parts := by
  induction parts generalizing directory with
  | nil => simp
  | cons part parts ih =>
    rw [mem_cons, not_or] at h
    rw [foldl_cons, enter, if_neg (Ne.symm h.1), ih h.2, append_assoc]
    rfl

/-- A path without `..` leads out of a directory only if it is absolute. -/
lemma beneath_join_iff {cwd directory p} (h : ".." ∉ p.parts) :
    Beneath cwd directory (directory.join p) ↔
      (p.absolute = true → directory.location cwd <+: p.parts) := by
  rw [Beneath, join]
  cases habs : p.absolute with
  | true =>
    rw [if_pos rfl, location, location, habs, foldl_enter h, if_pos rfl, nil_append]
    exact ⟨fun hp _ => hp, fun hp => hp rfl⟩
  | false =>
    rw [if_neg Bool.false_ne_true, location, location, foldl_append, foldl_enter h]
    exact ⟨fun _ hp => absurd hp Bool.false_ne_true, fun _ => prefix_append _ _⟩

/-- A path from where it starts: how many directories it climbs, and the names down from there. -/
def climb (parts : List String) : ℕ × List String :=
  parts.foldl (fun c part =>
    if part = ".." then if c.2 = [] then (c.1 + 1, []) else (c.1, c.2.dropLast)
    else (c.1, c.2 ++ [part])) (0, [])

lemma climb_append_singleton (parts : List String) (part : String) :
    climb (parts ++ [part]) =
      if part = ".." then
        if (climb parts).2 = [] then ((climb parts).1 + 1, [])
        else ((climb parts).1, (climb parts).2.dropLast)
      else ((climb parts).1, (climb parts).2 ++ [part]) := by
  rw [climb, foldl_append]
  rfl

lemma foldl_enter_climb (parts directory : List String) :
    parts.foldl enter directory =
      directory.take (directory.length - (climb parts).1) ++ (climb parts).2 := by
  induction parts using List.reverseRecOn with
  | nil => simp [climb]
  | append_singleton parts part ih =>
    rw [foldl_append, foldl_cons, foldl_nil, ih, climb_append_singleton, enter]
    split_ifs with hup hnames
    · rw [hnames, append_nil, append_nil, dropLast_eq_take, take_take, length_take]
      congr 1
      omega
    · rw [dropLast_append_of_ne_nil hnames]
    · rw [append_assoc]

/-- A relative path stays in a directory if it goes down again through the names that it has climbed. -/
lemma beneath_join_climb_iff {cwd directory p} (h : p.absolute = false) :
    Beneath cwd directory (directory.join p) ↔
      (directory.location cwd).drop ((directory.location cwd).length - (climb p.parts).1) <+:
        (climb p.parts).2 := by
  have hlocation : (directory.join p).location cwd = p.parts.foldl enter (directory.location cwd) := by
    rw [join, if_neg (by rw [h]; exact Bool.false_ne_true), location, location, foldl_append]
  rw [Beneath, hlocation, foldl_enter_climb]
  conv_lhs => lhs; rw [← take_append_drop ((directory.location cwd).length - (climb p.parts).1)
    (directory.location cwd)]
  exact prefix_append_right_inj _

end PyPath
end SocioWorkspace
