import SocioWorkspace.Lib.PyPath
import SocioWorkspace.Runner.Lock

/-!
# Where repositories are checked out

`topology_errors` of `tools/runner/runner.py` tests the text of the path below the root, in which `..` is kept.
-/

namespace SocioWorkspace.Runner
open Python List PyPath

section Topology
variable {N : Type}

/-- Python `ROOT`, which is resolved. -/
structure Root where
  parts : List String
  resolved : ".." ∉ parts

section
variable (root : Root) (raw : String)

def Root.path : PyPath := (PyPath.mk true root.parts).join (.ofText raw)

/-- The parts of `local_path.relative_to(ROOT)`. A path with two slashes in front has another root. -/
def partsBelow : Except PyError (List String) :=
  if root.parts <+: (root.path raw).parts ∧ (raw.toList.takeWhile (· = '/')).length ≠ 2 then
    .ok ((root.path raw).parts.drop root.parts.length)
  else .error .value

/-- Python `local_path.relative_to(ROOT).as_posix()`. -/
def asPosix : Except PyError String := do
  let parts ← partsBelow root raw
  return if parts.isEmpty then "." else "/".intercalate parts

end

def Checkouts.at (w : Checkouts) (root : Root) : Checkouts := { w with relativeToRoot := asPosix root }

section
variable (root : Root) (allowed : List String) (raw : String)

/-- Where the repository is checked out lies below the root, under one of the prefixes. -/
def Confined : Prop := ∃ a ∈ allowed, root.parts ++ (PyPath.ofText a).parts <+: (root.path raw).location []

/-- Behind its first name, the path below the root never climbs above that name again. -/
def StaysBelow : Prop := ∀ parts, partsBelow root raw = .ok parts → (PyPath.climb parts.tail).1 = 0

end

/-- If there are no errors, every repository whose role has prefixes is checked out under one of them. -/
def TopologyConfines (w : Checkouts) (root : Root) (repos : List (Repo N)) : Prop :=
  topologyErrors (w.at root) repos = .ok [] → ∀ r ∈ repos, ∀ raw, r.localPath = some raw →
    ∀ m, (topologyPrefixes.find? fun m => r.role.isStr m.1) = some m → Confined root m.2 raw

/-- A prefix of the rules is one name and a slash. -/
lemma rule_name : ∀ m ∈ topologyPrefixes, ∀ a ∈ m.2, ∃ name : String,
    a.toList = name.toList ++ ['/'] ∧ '/' ∉ name.toList ∧ (ofText a).parts = [name] ∧ name ≠ ".." := by
  have hall : ∀ m ∈ topologyPrefixes, ∀ a ∈ m.2, a.toList = (String.ofList a.toList.dropLast).toList ++ ['/'] ∧
      '/' ∉ (String.ofList a.toList.dropLast).toList ∧
      (ofText a).parts = [String.ofList a.toList.dropLast] ∧ String.ofList a.toList.dropLast ≠ ".." := by
    decide +kernel
  exact fun m hm a ha => ⟨_, hall m hm a ha⟩

lemma partsBelow_eq_ok {root raw parts} (h : partsBelow root raw = .ok parts) :
    (root.path raw).absolute = true ∧ (root.path raw).parts = root.parts ++ parts ∧
      ∀ part ∈ parts, '/' ∉ part.toList := by
  rw [partsBelow] at h
  split_ifs at h with hbelow
  obtain ⟨rest, hrest⟩ := hbelow.1
  rw [← hrest, drop_left, Except.ok.injEq] at h
  subst h
  have hpath : root.path raw = if (ofText raw).absolute then ofText raw else
    ⟨true, root.parts ++ (ofText raw).parts⟩ := rfl
  have hparts : ∀ part ∈ rest, part ∈ (ofText raw).parts := by
    intro part hpart
    rw [hpath] at hrest
    split_ifs at hrest with habs
    · exact hrest ▸ mem_append_right _ hpart
    · exact append_cancel_left hrest ▸ hpart
  refine ⟨?_, hrest.symm, fun part hpart => slash_not_mem_part (hparts part hpart)⟩
  rw [hpath]
  split_ifs with habs
  · exact habs
  · rfl

/-- A path that starts with a name and a slash, as text, has it as its first part. -/
lemma head_of_startsWith {parts : List String} (hparts : ∀ part ∈ parts, '/' ∉ part.toList) {name : String}
    (hname : '/' ∉ name.toList) {rel : String} (hrel : rel = if parts.isEmpty then "." else "/".intercalate parts)
    (h : name.toList ++ ['/'] <+: rel.toList) : parts = name :: parts.tail := by
  obtain ⟨rest, hrest⟩ := h
  cases parts with
  | nil =>
    have hslash : '/' ∈ rel.toList := by simp [← hrest]
    rw [hrel] at hslash
    exact absurd hslash (by decide)
  | cons part parts =>
    have hsplit := splitOn_intercalate '/' (forall_mem_map.2 hparts) (cons_ne_nil _ _)
    rw [hrel, isEmpty_cons, if_neg Bool.false_ne_true, String.toList_intercalate, append_assoc] at hrest
    rw [show "/".toList = ['/'] from rfl] at hrest
    rw [← hrest, singleton_append, splitOn_append_cons_self_of_not_mem hname, map_cons] at hsplit
    rw [String.toList_inj.1 (cons.inj hsplit).1, tail_cons]

def climbingEntry : List (Table String) := [⟨"a", [("local_path", .str "components/../../etc")]⟩]

end Topology
end SocioWorkspace.Runner
