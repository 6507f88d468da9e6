import SocioWorkspace.Lib.OrderedDict
import SocioWorkspace.Lib.PyData

/-!
# Workspace lock

Model of the lock commands of `tools/runner/runner.py`: `cmd_lock_update` writes the heads of the checkouts
into the lock and `cmd_lock_verify` compares the lock with the heads. The writer finds an entry through
`lock_index`, where the last entry of a name stands; the reader (`locked_rev`) takes the first.

* The manifest, the overrides and the lock are what `tomllib` and `json` return. Names are of any type with the
  equality of Python.
* `lock_index` maps a name to the position of the entry, in place of the entry itself.
* `Checkouts` is the working tree, the same for both commands. What is printed is left out but for the report
  of `cmd_lock_verify`.
-/

namespace SocioWorkspace.Runner
open Python List Except OrderedDict

section Manifest
variable {N : Type}

structure Table (N : Type) where
  name : N
  fields : List (String × Data)

def Table.get (t : Table N) (key : String) : Data := (OrderedDict.get? (· == ·) t.fields key).getD .none

/-- Python `t[key] = v`. -/
def Table.put (t : Table N) (key : String) (v : Data) : Table N :=
  { t with fields := OrderedDict.set (· == ·) key v t.fields }

def Table.update (t u : Table N) : Table N :=
  u.fields.foldl (fun t m => t.put m.1 m.2) { t with name := u.name }

lemma Table.get_put (t : Table N) (key : String) (v : Data) (key' : String) :
    (t.put key v).get key' = if key = key' then v else t.get key' := by
  rw [Table.get, Table.put, get?_set]
  split
  · rfl
  · rfl

/-- Python `merge_manifest_and_overrides`, for `repos`. Overrides that are empty are none. -/
def mergeManifestAndOverrides [DecidableEq N] (base : List (Table N)) :
    Option (List (Table N)) → List (Table N)
  | none => base
  | some overrides =>
    let byName := base.foldl (fun d r => OrderedDict.set (· == ·) r.name r d) []
    let byName := overrides.foldl (fun d r =>
      let current := (OrderedDict.get? (· == ·) d r.name).getD ⟨r.name, []⟩
      OrderedDict.set (· == ·) r.name (current.update r) d) byName
    byName.map Prod.snd

/-- Python `Repo`. -/
structure Repo (N : Type) where
  name : N
  role : Data
  /-- Below the root of the workspace. -/
  localPath : Option String
  url : Data
  ref : Data
  rev : Data

/-- Python `(ROOT / lp_raw) if lp_raw else None`. -/
def localPath : Data → Except PyError (Option String)
  | .str path => .ok (if path = "" then none else some path)
  | raw => if raw.truthy then .error .type else .ok none

def loadRepo (t : Table N) : Except PyError (Repo N) := do
  let path ← localPath (t.get "local_path")
  return { name := t.name
           role := (OrderedDict.get? (· == ·) t.fields "role").getD (.str "component")
           localPath := path
           url := t.get "url"
           ref := t.get "ref"
           rev := t.get "rev" }

/-- Python `load_workspace_and_repos`, for the repositories. -/
def loadRepos [DecidableEq N] (base : List (Table N)) (overrides : Option (List (Table N))) :
    Except PyError (List (Repo N)) :=
  (mergeManifestAndOverrides base overrides).mapM loadRepo

end Manifest

/-- The working tree, by the path of a repository below the root. -/
structure Checkouts where
  /-- Python `p.exists()`. -/
  present : String → Bool
  /-- Python `(p / ".git").exists()`. -/
  git : String → Bool
  /-- What `git rev-parse HEAD` prints, if it does not fail. -/
  head : String → Option String
  /-- Python `str(p.relative_to(ROOT))`. -/
  relativeToRoot : String → Except PyError String
  git_present : ∀ p, git p = true → present p = true

namespace Checkouts
variable (w : Checkouts)

/-- Python `repo_is_git`. -/
def repoIsGit : Option String → Bool
  | none => false
  | some p => w.git p

/-- Python `repo_head_rev`. -/
def repoHeadRev (p : Option String) : Option String := if w.repoIsGit p then p.bind w.head else none

end Checkouts

/-- Python `materialized_status`. -/
inductive Status where
  | remote
  | missing
  | git
  | localTree
deriving DecidableEq

/-- Python `materialized_status`. -/
def Checkouts.materializedStatus (w : Checkouts) : Option String → Status
  | none => .remote
  | some p => if ! w.present p then .missing else if w.repoIsGit (some p) then .git else .localTree

section Lock
variable {N : Type}

structure Lock (N : Type) where
  repos : List (Table N)
  members : List (String × Data)

/-- The lock that `cmd_lock_update` starts from where there is none. -/
def Lock.fresh : Lock N :=
  { repos := []
    members := [("workspace", .dict [(.str "name", .str "sociosphere"), (.str "version", .str "0.1")])] }

/-- Python `locked_rev`. -/
def lockedRev [DecidableEq N] (entries : List (Table N)) (name : N) : Data :=
  match entries.find? (·.name = name) with
  | some entry => entry.get "rev"
  | none => .none

/-- Python `lock_index`, with the position of an entry for the entry. -/
def lockIndex [DecidableEq N] (entries : List (Table N)) : List (N × ℕ) :=
  entries.zipIdx.foldl (fun d e => OrderedDict.set (· == ·) e.1.name e.2 d) []

/-- The lock while `cmd_lock_update` walks the repositories. -/
structure Pinning (N : Type) where
  entries : List (Table N)
  index : List (N × ℕ)

variable (w : Checkouts) (now : String)

def newEntry (r : Repo N) (head path : String) : Table N :=
  { name := r.name
    fields := [("role", r.role), ("url", r.url), ("ref", r.ref), ("rev", .str head),
      ("local_path", .str path), ("tree_hash", .none), ("retrieved_at", .str now)] }

/-- The change that `cmd_lock_update` makes to an entry of the lock. -/
def repin (r : Repo N) (head : String) (entry : Table N) : Table N :=
  ((entry.put "rev" (.str head)).put "url" r.url).put "retrieved_at" (.str now)

/-- The body of the loop of `cmd_lock_update` once the head is read. -/
def Pinning.record [DecidableEq N] (s : Pinning N) (r : Repo N) (p head : String) :
    Except PyError (Pinning N) :=
  match OrderedDict.get? (· == ·) s.index r.name with
  | none => do
    let path ← w.relativeToRoot p
    return { entries := s.entries ++ [newEntry now r head path]
             index := OrderedDict.set (· == ·) r.name s.entries.length s.index }
  | some i => .ok { s with entries := s.entries.modify i (repin now r head) }

def Pinning.pin [DecidableEq N] (s : Pinning N) (r : Repo N) : Except PyError (Pinning N) :=
  if ! r.url.truthy then .ok s
  else match r.localPath with
    | none => .ok s
    | some p =>
      if ! w.present p || ! w.repoIsGit (some p) then .ok s
      else match w.repoHeadRev (some p) with
        | none => .ok s
        | some head => if head = "" then .ok s else s.record w now r p head

/-- Python `cmd_lock_update`. -/
def cmdLockUpdate [DecidableEq N] (repos : List (Repo N)) (lock : Option (Lock N)) :
    Except PyError (Lock N) := do
  let lock := lock.getD .fresh
  let s ← repos.foldlM (Pinning.pin w now) ⟨lock.repos, lockIndex lock.repos⟩
  return { repos := s.entries
           members := OrderedDict.set (· == ·) "generated_at" (.str now) lock.members }

def validRoles : List String :=
  ["adapter", "component", "docs", "execution-plane", "library", "ontology", "protocol", "replay",
    "security", "standards", "tool", "topic-pack"]

def topologyPrefixes : List (String × List String) :=
  [("adapter", ["adapters/"]), ("docs", ["components/", "docs/"]),
    ("execution-plane", ["components/"]), ("library", ["components/"]), ("ontology", ["components/"]),
    ("protocol", ["third_party/", "protocol/", "components/"]), ("replay", ["components/"]),
    ("security", ["components/"]), ("standards", ["components/", "standards/"]),
    ("topic-pack", ["components/"]), ("component", ["components/"])]

inductive Message (N : Type) where
  /-- `{name}: invalid role '{role}'`. -/
  | invalidRole (name : N) (role : Data)
  /-- `{name}: role '{role}' path '{path}' violates topology (allowed prefixes: …)`. -/
  | topology (name : N) (role : Data) (path : String) (allowed : List String)

/-- Python `role_errors`. -/
def roleErrors (repos : List (Repo N)) : Except PyError (List (Message N)) := do
  let errs ← repos.mapM fun r =>
    -- a role that cannot be hashed cannot be looked for in a set
    if ! r.role.hashable then .error .type
    else if validRoles.any r.role.isStr then .ok [] else .ok [Message.invalidRole r.name r.role]
  return errs.flatten

/-- Python `topology_errors`. -/
def topologyErrors (repos : List (Repo N)) : Except PyError (List (Message N)) := do
  let errs ← repos.mapM fun r =>
    match r.localPath with
    | none => .ok []
    | some p =>
      if ! r.role.hashable then .error .type
      else match topologyPrefixes.find? fun m => r.role.isStr m.1 with
        | none => .ok []
        | some (_, allowed) => do
          let rel ← w.relativeToRoot p
          return if allowed.any fun a => a.toList.isPrefixOf rel.toList then []
            else [Message.topology r.name r.role rel allowed]
  return errs.flatten

structure Report (N : Type) where
  unresolvedRepos : List N
  driftedRepos : List N
  messages : List (Message N)

/-- Python `result`. -/
def Report.pass (report : Report N) : Bool :=
  report.messages.isEmpty && report.unresolvedRepos.isEmpty && report.driftedRepos.isEmpty

/-- Python `status == "MISSING" and not (r.url or lrev or r.rev)`. -/
def unresolved [DecidableEq N] (lock : Lock N) (r : Repo N) : Bool :=
  w.materializedStatus r.localPath = .missing &&
    ! (r.url.truthy || (lockedRev lock.repos r.name).truthy || r.rev.truthy)

/-- Python `head` in `cmd_lock_verify`. -/
def verifiedHead (r : Repo N) : Option String :=
  if w.materializedStatus r.localPath = .missing then none else w.repoHeadRev r.localPath

/-- Python `lrev and head and lrev != head`. -/
def differs (lrev : Data) : Option String → Bool
  | none => false
  | some head => lrev.truthy && head ≠ "" && ! lrev.isStr head

/-- Python `cmd_lock_verify`. -/
def cmdLockVerify [DecidableEq N] (repos : List (Repo N)) (lock : Lock N) : Except PyError (Report N) := do
  let roles ← roleErrors repos
  let topology ← topologyErrors w repos
  return { unresolvedRepos := (repos.filter (unresolved w lock)).map Repo.name
           driftedRepos := (repos.filter fun r =>
             differs (lockedRev lock.repos r.name) (verifiedHead w r)).map Repo.name
           messages := roles ++ topology }

/-- `cmd_lock_update` and then `cmd_lock_verify`, with the repositories of the manifest. -/
def updateThenVerify [DecidableEq N] (base : List (Table N))
    (overrides : Option (List (Table N))) (lock : Option (Lock N)) :
    Except PyError (List (Repo N) × Report N) := do
  let repos ← loadRepos base overrides
  let lock ← cmdLockUpdate w now repos lock
  let report ← cmdLockVerify w repos lock
  return (repos, report)

end Lock

section Index
variable {N : Type} [DecidableEq N]

lemma lockIndex_append (entries : List (Table N)) (entry : Table N) :
    lockIndex (entries ++ [entry]) =
      OrderedDict.set (· == ·) entry.name entries.length (lockIndex entries) := by
  rw [lockIndex, zipIdx_append, foldl_append, Nat.zero_add]
  rfl

lemma lockIndex_spec (entries : List (Table N)) (n : N) :
    match get? (· == ·) (lockIndex entries) n with
    | none => ∀ e ∈ entries, e.name ≠ n
    | some i => ∃ l₁ e l₂, entries = l₁ ++ e :: l₂ ∧ l₁.length = i ∧ e.name = n ∧
        ∀ e' ∈ l₂, e'.name ≠ n := by
  induction entries using reverseRecOn with
  | nil => exact fun e he => absurd he not_mem_nil
  | append_singleton entries entry ih =>
    rw [lockIndex_append, get?_set]
    by_cases hname : entry.name = n
    · rw [if_pos hname]
      exact ⟨entries, entry, [], rfl, rfl, hname, fun e he => absurd he not_mem_nil⟩
    · rw [if_neg hname]
      cases hget : get? (· == ·) (lockIndex entries) n with
      | none =>
        rw [hget] at ih
        intro e he
        cases mem_append.1 he with
        | inl he => exact ih e he
        | inr he => exact mem_singleton.1 he ▸ hname
      | some i =>
        rw [hget] at ih
        obtain ⟨l₁, e, l₂, rfl, hi, he, hlast⟩ := ih
        refine ⟨l₁, e, l₂ ++ [entry], by simp, hi, he, fun e' he' => ?_⟩
        cases mem_append.1 he' with
        | inl he' => exact hlast e' he'
        | inr he' => exact mem_singleton.1 he' ▸ hname

lemma lockIndex_congr {entries entries' : List (Table N)}
    (h : entries'.map Table.name = entries.map Table.name) : lockIndex entries' = lockIndex entries := by
  induction entries using reverseRecOn generalizing entries' with
  | nil =>
    rw [map_nil, map_eq_nil_iff] at h
    rw [h]
  | append_singleton entries entry ih =>
    rw [map_append] at h
    obtain ⟨l, l', rfl, hl, hl'⟩ := map_eq_append_iff.1 h
    obtain ⟨entry', rfl, hname⟩ := map_eq_singleton_iff.1 hl'
    have hlength : l.length = entries.length := by simpa using congrArg length hl
    rw [lockIndex_append, lockIndex_append, ih hl, hname, hlength]

end Index

section Named
variable {N : Type} [DecidableEq N]

def revs (entries : List (Table N)) (n : N) : List Data :=
  (entries.filter (·.name = n)).map (·.get "rev")

lemma revs_append (l₁ l₂ : List (Table N)) (n : N) : revs (l₁ ++ l₂) n = revs l₁ n ++ revs l₂ n := by
  rw [revs, filter_append, map_append]
  rfl

lemma revs_cons (e : Table N) (l : List (Table N)) (n : N) :
    revs (e :: l) n = if e.name = n then e.get "rev" :: revs l n else revs l n := by
  rw [revs, filter_cons]
  by_cases h : e.name = n
  · rw [if_pos h, if_pos (decide_eq_true h), map_cons]
    rfl
  · rw [if_neg h, if_neg (by simpa using h)]
    rfl

lemma revs_eq_nil {entries : List (Table N)} {n} (h : ∀ e ∈ entries, e.name ≠ n) : revs entries n = [] := by
  rw [revs, filter_eq_nil_iff.2 fun e he => by simpa using h e he]
  rfl

lemma lockedRev_eq_revs (entries : List (Table N)) (n : N) :
    lockedRev entries n = (revs entries n).head?.getD .none := by
  induction entries with
  | nil => rfl
  | cons e l ih =>
    rw [revs_cons, lockedRev, find?_cons]
    by_cases h : e.name = n
    · simp [h]
    · simpa [h, lockedRev] using ih

lemma modify_split {α : Type} (f : α → α) (l₁ : List α) (a : α) (l₂ : List α) :
    (l₁ ++ a :: l₂).modify l₁.length f = l₁ ++ f a :: l₂ := by
  induction l₁ with
  | nil => rfl
  | cons b l₁ ih =>
    rw [cons_append, length_cons, modify_succ_cons, ih]
    rfl

end Named

section Update
variable {N : Type} [DecidableEq N] (w : Checkouts) (now : String)

/-- The head that `cmd_lock_update` pins. -/
def pinnedHead (r : Repo N) : Option String :=
  if r.url.truthy then (w.repoHeadRev r.localPath).filter (· ≠ "") else none

/-- The heads that `cmd_lock_update` pins under a name, in the order of the manifest. -/
def pinnedHeads (repos : List (Repo N)) (n : N) : List String :=
  (repos.filter (·.name = n)).filterMap (pinnedHead w)

def replaceLast (old : List Data) : Option String → List Data
  | none => old
  | some head => old.dropLast ++ [.str head]

variable {w now} {s s' : Pinning N} {r : Repo N}

lemma pin_cases (h : s.pin w now r = .ok s') :
    (pinnedHead w r = none ∧ s' = s) ∨
      ∃ p head, pinnedHead w r = some head ∧ s.record w now r p head = .ok s' := by
  rw [Pinning.pin] at h
  rw [pinnedHead]
  cases hurl : r.url.truthy with
  | false =>
    rw [hurl] at h
    exact .inl ⟨rfl, (ok.inj h).symm⟩
  | true =>
    rw [hurl] at h
    simp only [Bool.not_true, Bool.false_eq_true, if_false, if_true] at h ⊢
    cases hpath : r.localPath with
    | none =>
      rw [hpath] at h
      exact .inl ⟨rfl, (ok.inj h).symm⟩
    | some p =>
      rw [hpath] at h
      dsimp only at h
      split at h
      next hskip =>
        refine .inl ⟨?_, (ok.inj h).symm⟩
        -- what is no checkout has no head
        have hgit : w.git p = false := by
          cases hgit : w.git p with
          | false => rfl
          | true => simp [Checkouts.repoIsGit, hgit, w.git_present p hgit] at hskip
        simp [Checkouts.repoHeadRev, Checkouts.repoIsGit, hgit]
      next =>
        cases hhead : w.repoHeadRev (some p) with
        | none =>
          rw [hhead] at h
          exact .inl ⟨rfl, (ok.inj h).symm⟩
        | some head =>
          rw [hhead] at h
          dsimp only at h
          split_ifs at h with hempty
          · exact .inl ⟨by simp [hempty], (ok.inj h).symm⟩
          · exact .inr ⟨p, head, by simp [hempty], h⟩

omit [DecidableEq N] in
lemma name_repin (r : Repo N) (head : String) (e : Table N) : (repin now r head e).name = e.name := rfl

omit [DecidableEq N] in
lemma rev_repin (r : Repo N) (head : String) (e : Table N) :
    (repin now r head e).get "rev" = .str head := by
  rw [repin, Table.get_put, if_neg (by decide), Table.get_put, if_neg (by decide), Table.get_put, if_pos rfl]

lemma record_revs {p head : String}
    (hindex : s.index = lockIndex s.entries) (h : s.record w now r p head = .ok s') :
    s'.index = lockIndex s'.entries ∧ ∀ n, revs s'.entries n =
      if r.name = n then replaceLast (revs s.entries n) (some head) else revs s.entries n := by
  rw [Pinning.record] at h
  have hspec := lockIndex_spec s.entries r.name
  rw [← hindex] at hspec
  cases hget : get? (· == ·) s.index r.name with
  | none =>
    rw [hget] at h hspec
    obtain ⟨path, -, h⟩ := bind_eq_ok.1 h
    cases h
    constructor
    · rw [lockIndex_append, ← hindex]
      rfl
    · intro n
      have hname : (newEntry now r head path).name = r.name := rfl
      rw [revs_append, revs_cons, hname]
      by_cases hn : r.name = n
      · subst hn
        rw [if_pos rfl, if_pos rfl, revs_eq_nil hspec]
        rfl
      · rw [if_neg hn, if_neg hn]
        exact append_nil _
  | some i =>
    rw [hget] at h hspec
    cases h
    obtain ⟨l₁, e, l₂, hentries, rfl, hname, hlast⟩ := hspec
    dsimp only
    rw [hentries, modify_split]
    constructor
    · rw [hindex, hentries]
      exact lockIndex_congr (by simp [name_repin])
    · intro n
      rw [revs_append, revs_append, revs_cons, revs_cons, name_repin, rev_repin, hname]
      by_cases hn : r.name = n
      · subst hn
        rw [if_pos rfl, if_pos rfl, if_pos rfl, revs_eq_nil hlast, replaceLast, dropLast_concat]
      · rw [if_neg hn, if_neg hn, if_neg hn]

lemma pin_revs (hindex : s.index = lockIndex s.entries)
    (h : s.pin w now r = .ok s') : s'.index = lockIndex s'.entries ∧ ∀ n, revs s'.entries n =
      if r.name = n then replaceLast (revs s.entries n) (pinnedHead w r) else revs s.entries n := by
  rcases pin_cases h with ⟨hhead, rfl⟩ | ⟨p, head, hhead, h⟩
  · refine ⟨hindex, fun n => ?_⟩
    rw [hhead, replaceLast, ite_self]
  · rw [hhead]
    exact record_revs hindex h

lemma replaceLast_replaceLast (old : List Data) (head : String) (later : Option String) :
    replaceLast (replaceLast old (some head)) later =
      replaceLast old (some (later.getD head)) := by
  cases later with
  | none => rfl
  | some later => rw [replaceLast, replaceLast, dropLast_concat]; rfl

lemma pinnedHeads_cons (r : Repo N) (repos : List (Repo N)) (n : N) :
    pinnedHeads w (r :: repos) n =
      if r.name = n then (pinnedHead w r).toList ++ pinnedHeads w repos n else pinnedHeads w repos n := by
  rw [pinnedHeads, filter_cons]
  by_cases h : r.name = n
  · rw [if_pos h, if_pos (decide_eq_true h)]
    cases hhead : pinnedHead w r with
    | none => rw [filterMap_cons_none hhead]; rfl
    | some head => rw [filterMap_cons_some hhead]; rfl
  · rw [if_neg h, if_neg (by simpa using h)]
    rfl

variable {repos : List (Repo N)}

/-- The last head that is pinned under a name takes the place of its last revision. -/
lemma foldlM_pin_revs
    (hindex : s.index = lockIndex s.entries) (h : repos.foldlM (Pinning.pin w now) s = .ok s') (n : N) :
    revs s'.entries n = replaceLast (revs s.entries n) (pinnedHeads w repos n).getLast? := by
  induction repos generalizing s with
  | nil =>
    cases h
    rfl
  | cons r repos ih =>
    obtain ⟨s₁, hpin, h⟩ := bind_eq_ok.1 h
    obtain ⟨hindex₁, hrevs⟩ := pin_revs hindex hpin
    rw [ih hindex₁ h, hrevs, pinnedHeads_cons]
    by_cases hn : r.name = n
    · rw [if_pos hn, if_pos hn]
      cases hhead : pinnedHead w r with
      | none => rfl
      | some head =>
        rw [replaceLast_replaceLast, Option.toList_some, singleton_append, getLast?_cons]
    · rw [if_neg hn, if_neg hn]

variable (w)

/-- The revision of a name after an update: the head pinned last, but with several entries what the first of
them had before. -/
def settledRev (repos : List (Repo N)) (entries : List (Table N)) (n : N) : Data :=
  match (pinnedHeads w repos n).getLast? with
  | none => lockedRev entries n
  | some head => if (revs entries n).length ≤ 1 then .str head else lockedRev entries n

variable {w}

lemma head?_replaceLast (old : List Data) (head : String) :
    (replaceLast old (some head)).head?.getD .none =
      if old.length ≤ 1 then .str head else old.head?.getD .none := by
  match old with
  | [] => rfl
  | [_] => rfl
  | a :: b :: old => simp [replaceLast]

/-- What the reader finds after an update. -/
theorem lockedRev_update {lock lock'} (h : cmdLockUpdate w now repos lock = .ok lock') (n : N) :
    lockedRev lock'.repos n = settledRev w repos (lock.getD .fresh).repos n := by
  obtain ⟨s, hs, h⟩ := bind_eq_ok.1 h
  cases h
  have hrevs := foldlM_pin_revs rfl hs n
  rw [settledRev, lockedRev_eq_revs, hrevs]
  cases (pinnedHeads w repos n).getLast? with
  | none => rw [lockedRev_eq_revs]; rfl
  | some head => rw [head?_replaceLast, ← lockedRev_eq_revs]

end Update

section Drift
variable {N : Type} [DecidableEq N] (w : Checkouts) (now : String)

def CheckedOut (r : Repo N) : Prop := r.url.truthy = true ∧ w.materializedStatus r.localPath = .git

def NoDrift (repos : List (Repo N)) (report : Report N) : Prop :=
  ∀ r ∈ repos, CheckedOut w r → r.name ∉ report.driftedRepos

/-- The revision that an update leaves for a checkout is the head of every repository of that name. -/
def HeadsAgree (repos : List (Repo N)) (entries : List (Table N)) : Prop :=
  ∀ r ∈ repos, CheckedOut w r → ∀ r' ∈ repos, r'.name = r.name →
    differs (settledRev w repos entries r.name) (verifiedHead w r') = false

variable {w now}

variable {repos : List (Repo N)}

lemma pinnedHeads_of_nodup (hrepos : (repos.map Repo.name).Nodup)
    {r} (hr : r ∈ repos) : pinnedHeads w repos r.name = (pinnedHead w r).toList := by
  induction repos with
  | nil => cases hr
  | cons r' repos ih =>
    rw [map_cons, nodup_cons] at hrepos
    rw [pinnedHeads_cons]
    cases mem_cons.1 hr with
    | inl he =>
      subst he
      have hrest : repos.filter (·.name = r.name) = [] := filter_eq_nil_iff.2 fun r' hr' hname =>
        hrepos.1 (mem_map.2 ⟨r', hr', of_decide_eq_true hname⟩)
      rw [if_pos rfl, pinnedHeads, hrest, filterMap_nil, append_nil]
    | inr hr =>
      have hne : r'.name ≠ r.name := fun e => hrepos.1 (mem_map.2 ⟨r, hr, e.symm⟩)
      rw [if_neg hne, ih hrepos.2 hr]

variable {entries : List (Table N)}

lemma length_revs_of_nodup (hentries : (entries.map Table.name).Nodup)
    (n : N) : (revs entries n).length ≤ 1 := by
  have hcount := nodup_iff_count_le_one.1 hentries n
  rw [count, countP_map, countP_eq_length_filter] at hcount
  rw [revs, length_map]
  exact hcount

omit [DecidableEq N] in
/-- A head that is not pinned is not read by the verification either. -/
lemma differs_of_pinnedHead {r : Repo N} (hr : CheckedOut w r) (lrev : Data) :
    differs lrev (verifiedHead w r) = differs lrev (pinnedHead w r) := by
  obtain ⟨hurl, hgit⟩ := hr
  rw [verifiedHead, pinnedHead, if_neg (by rw [hgit]; decide), if_pos hurl]
  cases w.repoHeadRev r.localPath with
  | none => rfl
  | some head =>
    rw [Option.filter_some]
    split_ifs with hempty
    · rfl
    · simp [differs, show head = "" by simpa using hempty]

/-- Where neither the manifest nor the lock repeats a name, the heads agree. -/
theorem headsAgree_of_nodup
    (hrepos : (repos.map Repo.name).Nodup) (hentries : (entries.map Table.name).Nodup) :
    HeadsAgree w repos entries := by
  intro r hr hout r' hr' hname
  obtain rfl : r' = r := inj_on_of_nodup_map hrepos hr' hr hname
  rw [differs_of_pinnedHead hout, settledRev, pinnedHeads_of_nodup hrepos hr]
  cases pinnedHead w r' with
  | none => rfl
  | some head => simp [differs, length_revs_of_nodup hentries, Data.isStr]

/-- No drift is reported for the checkouts with a url exactly if the revisions left in the lock agree with
the heads. -/
theorem noDrift_iff {base : List (Table N)} {overrides : Option (List (Table N))}
    {lock : Option (Lock N)} {repos : List (Repo N)} {report : Report N}
    (h : updateThenVerify w now base overrides lock = .ok (repos, report)) :
    NoDrift w repos report ↔ HeadsAgree w repos (lock.getD .fresh).repos := by
  obtain ⟨repos', -, h⟩ := bind_eq_ok.1 h
  obtain ⟨lock', hlock, h⟩ := bind_eq_ok.1 h
  obtain ⟨report', hreport, h⟩ := bind_eq_ok.1 h
  cases h
  obtain ⟨roles, -, hreport⟩ := bind_eq_ok.1 hreport
  obtain ⟨topology, -, hreport⟩ := bind_eq_ok.1 hreport
  cases hreport
  refine forall₃_congr fun r _ _ => ?_
  constructor
  · intro hnot r' hr' hname
    by_contra hdiffers
    refine hnot (mem_map.2 ⟨r', mem_filter.2 ⟨hr', ?_⟩, hname⟩)
    rw [lockedRev_update hlock, hname]
    exact Bool.eq_true_of_not_eq_false hdiffers
  · intro hagree hmem
    obtain ⟨r', hr', hname⟩ := mem_map.1 hmem
    obtain ⟨hr', hdiffers⟩ := mem_filter.1 hr'
    rw [lockedRev_update hlock, hname, hagree r' hr' hname] at hdiffers
    cases hdiffers

end Drift

def oneCheckout (head : String) : Checkouts where
  present p := p = "components/a"
  git p := p = "components/a"
  head _ := some head
  relativeToRoot p := .ok p
  git_present _ h := h

def oneRepo : List (Table String) :=
  [⟨"a", [("local_path", .str "components/a"), ("url", .str "https://example/a.git")]⟩]

def twiceLocked : Lock String :=
  { repos := [⟨"a", [("rev", .str "old")]⟩, ⟨"a", [("rev", .str "old")]⟩], members := [] }

def onceLocked : Lock String := { repos := [⟨"a", [("rev", .str "old")]⟩], members := [] }

theorem onceLocked_noDrift : ∃ repos report,
    updateThenVerify (oneCheckout "new") "now" oneRepo none (some onceLocked) = .ok (repos, report) ∧
      NoDrift (oneCheckout "new") repos report := by
  refine ⟨_, _, rfl, ?_⟩
  refine (@noDrift_iff _ _ (oneCheckout "new") "now" oneRepo none (some onceLocked) _ _ rfl).2 ?_
  exact headsAgree_of_nodup (by decide) (by decide)

/-- The update writes the last of the two entries and the verification reads the first. -/
theorem twiceLocked_drifts : ∃ repos report,
    updateThenVerify (oneCheckout "new") "now" oneRepo none (some twiceLocked) = .ok (repos, report) ∧
      ¬ NoDrift (oneCheckout "new") repos report := by
  refine ⟨_, _, rfl, fun h => ?_⟩
  exact h _ (mem_singleton.2 rfl) ⟨by decide, by decide⟩ (by decide)

end SocioWorkspace.Runner
