import SocioWorkspace.Lib.Basic

/-!
# Merges of the trigger repositories

Model of `detect` of `tools/detect_main_merges.py`. Every rule comes with the answers of the GitHub API in its
turn; `fnmatch.fnmatch` is a parameter.
-/

namespace SocioWorkspace.Merges
open List

/-- What `gh_json` returns; the data of `ok` may be of another kind than asked for. -/
inductive Reply (α : Type) where
  | ok (data : Option α)
  | notFound
  | error

structure Rule where
  id : Option String
  repo : String
  paths : List String

/-- The answers in the turn of a rule: the repository, the shas of its commits, and the files of a commit. -/
structure Api where
  repo : Reply Unit
  commits : Reply (List String)
  commit : String → Reply (List String)

structure Fired where
  repo : String
  rule : Option String
  commits : ℕ
  sha : String
  pathFiltered : Bool

structure Unobservable where
  repo : String
  rule : String
  status : String

@[ext] structure Detected where
  fired : List Fired
  unobservable : List Unobservable

section
variable (fnmatch : String → String → Bool)

/-- Python `_matches_paths`. -/
def matchesPaths (files patterns : List String) : Bool :=
  files.any fun f => patterns.any fun pat => fnmatch f pat ||
    "/**".toList.isSuffixOf pat.toList && (pat.toList.take (pat.length - 2)).isPrefixOf f.toList

/-- Python `changed_files`. -/
def changedFiles (api : Api) (sha : String) : List String :=
  match api.commit sha with
  | .ok data => data.getD []
  | .notFound => []
  | .error => []

def unobservable (rule : Rule) (status : String) : Unobservable := ⟨rule.repo, rule.id.getD "?", status⟩

/-- The commit that a rule fires on, if its `commits` are these. -/
def hit (rule : Rule) (api : Api) (commits : List String) : Option String :=
  if rule.paths = [] then commits.head?
  else commits.find? fun sha => matchesPaths fnmatch (changedFiles api sha) rule.paths

/-- The turn of a rule in the loop of `detect`. -/
def turn (d : Detected) (r : Rule × Api) : Detected :=
  match r.2.commits with
  | .notFound =>
    let status := match r.2.repo with
      | .notFound => "no_repo"
      | _ => "no_branch"
    { d with unobservable := d.unobservable ++ [unobservable r.1 status] }
  | .error => { d with unobservable := d.unobservable ++ [unobservable r.1 "error"] }
  | .ok data =>
    match hit fnmatch r.1 r.2 (data.getD []) with
    | none => d
    | some sha => { d with fired := d.fired ++
        [⟨r.1.repo, r.1.id, (data.getD []).length, sha, decide (r.1.paths ≠ [])⟩] }

/-- Python `detect`. -/
def detect (rules : List (Rule × Api)) : Detected := rules.foldl (turn fnmatch) ⟨[], []⟩

/-- The commits were listed and, for a rule with paths, the files of all of them read without a match. -/
def NothingThere (r : Rule × Api) : Prop :=
  ∃ commits, r.2.commits = .ok (some commits) ∧ (r.1.paths ≠ [] → ∀ sha ∈ commits,
    ∃ files, r.2.commit sha = .ok (some files) ∧ matchesPaths fnmatch files r.1.paths = false)

/-- A rule that is left out of both lists has nothing there. -/
def NeverOverlooked (rules : List (Rule × Api)) : Prop :=
  ∀ before r after, rules = before ++ r :: after →
    detect fnmatch (before ++ [r]) = detect fnmatch before → NothingThere fnmatch r

/-- An answered listing is a list, and where no file that is read matches, the files of all commits are read. -/
structure Seen (r : Rule × Api) : Prop where
  listed : r.2.commits ≠ .ok none
  read : ∀ commits, r.2.commits = .ok (some commits) → r.1.paths ≠ [] →
    (∀ sha ∈ commits, ∀ files, r.2.commit sha = .ok (some files) →
      matchesPaths fnmatch files r.1.paths = false) →
    ∀ sha ∈ commits, ∃ files, r.2.commit sha = .ok (some files)
end

variable {fnmatch : String → String → Bool} {d : Detected} {r : Rule × Api} {commits : List String}

/-- The turn of a rule leaves it out exactly if the listing is answered and no commit is hit. -/
lemma turn_eq_self : turn fnmatch d r = d ↔
    ∃ data, r.2.commits = .ok data ∧ hit fnmatch r.1 r.2 (data.getD []) = none := by
  unfold turn
  cases hc : r.2.commits with
  | notFound | error => simp [Detected.ext_iff]
  | ok data =>
    cases hh : hit fnmatch r.1 r.2 (data.getD []) with
    | none => simp [hh]
    | some sha => simp [hh, Detected.ext_iff]

lemma hit_nil : hit fnmatch r.1 r.2 [] = none := by
  unfold hit
  split_ifs <;> rfl

lemma hit_eq_none (hp : r.1.paths ≠ []) : hit fnmatch r.1 r.2 commits = none ↔
    ∀ sha ∈ commits, ∀ files, r.2.commit sha = .ok (some files) →
      matchesPaths fnmatch files r.1.paths = false := by
  rw [hit, if_neg hp, find?_eq_none]
  refine forall₂_congr fun sha _ => ?_
  unfold changedFiles
  cases hc : r.2.commit sha with
  | notFound | error => simp [matchesPaths]
  | ok data =>
    cases data with
    | none => simp [matchesPaths]
    | some files => simp

lemma seen_iff : (turn fnmatch d r = d → NothingThere fnmatch r) ↔ Seen fnmatch r := by
  rw [turn_eq_self]
  constructor
  · refine fun h => ⟨fun hc => ?_, fun commits hc hp hnone sha hsha => ?_⟩
    · obtain ⟨commits, hc', -⟩ := h ⟨none, hc, hit_nil⟩
      cases hc.symm.trans hc'
    · obtain ⟨commits', hc', hread⟩ := h ⟨some commits, hc, (hit_eq_none hp).2 hnone⟩
      cases hc.symm.trans hc'
      obtain ⟨files, hfiles, -⟩ := hread hp sha hsha
      exact ⟨files, hfiles⟩
  · rintro h ⟨data, hc, hnone⟩
    cases data with
    | none => exact absurd hc h.listed
    | some commits =>
      refine ⟨commits, hc, fun hp sha hsha => ?_⟩
      have hquiet := (hit_eq_none hp).1 hnone
      obtain ⟨files, hfiles⟩ := h.read commits hc hp hquiet sha hsha
      exact ⟨files, hfiles, hquiet sha hsha files hfiles⟩

/-- No failed look is reported as nothing exactly if every rule is seen. -/
theorem neverOverlooked_iff (fnmatch : String → String → Bool) (rules : List (Rule × Api)) :
    NeverOverlooked fnmatch rules ↔ ∀ r ∈ rules, Seen fnmatch r := by
  have hturn (before) (r : Rule × Api) :
      detect fnmatch (before ++ [r]) = turn fnmatch (detect fnmatch before) r := foldl_append
  simp only [NeverOverlooked, hturn]
  constructor
  · intro h r hr
    obtain ⟨before, after, rfl⟩ := mem_iff_append.1 hr
    exact seen_iff.1 (h before r after rfl)
  · rintro h before r after rfl
    exact seen_iff.2 (h r (mem_append_right before mem_cons_self))

/-- The files of the only commit cannot be read, and the rule is quiet. -/
theorem unreadCommit_overlooked : ¬NeverOverlooked (fun _ _ => false)
    [(⟨some "schema", "superconscious", ["schemas/**"]⟩,
      ⟨.ok (some ()), .ok (some ["c0ffee"]), fun _ => .error⟩)] := by
  intro h
  obtain ⟨commits, hc, hread⟩ := h [] _ [] rfl rfl
  cases hc
  obtain ⟨files, hfiles, -⟩ := hread (by decide) "c0ffee" mem_cons_self
  cases hfiles

end SocioWorkspace.Merges
