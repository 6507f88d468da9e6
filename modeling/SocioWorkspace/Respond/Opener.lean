import SocioWorkspace.Lib.Interaction
import SocioWorkspace.Lib.PyData
import SocioWorkspace.Lib.PyPath

/-!
# The opener of pull requests

Model of `open_pr` in `automation/pr_opener.py`: it starts a branch from the base, reverts a commit or writes
the files of the proposal, pushes the branch and opens a pull request. What it asks of the system are
`Request`s, and the system may answer anything and may raise.

* A proposal is any value, and so are its branch and base.
* Where a file lies is where its path leads, without a look at links.
* Of `git push` it is relied on only that a plain name stands for the branch of that name, also as the
  destination of a refspec (`Git`).
-/

namespace SocioWorkspace.Opener
open Python Interaction List PyPath

/-- Python `RunResult`. -/
structure RunResult where
  returncode : Int
  stdout : String
  stderr : String
deriving Inhabited

inductive Request where
  | mkdir (path : PyPath)
  | write (path : PyPath) (content : String)
  | command (argv : List Data)

inductive Failure where
  /-- `proposal must carry title, branch, and either file changes or a revert commit`. -/
  | invalidProposal
  /-- `proposal file escapes the repo: {rel}`. -/
  | escapes (rel : String)
  /-- `command failed ({returncode}): {argv}` and the stripped `stderr`. -/
  | commandFailed (returncode : Int) (argv : List Data) (stderr : String)
  | python (e : PyError)

abbrev Session := Interaction Request RunResult Failure

/-- Python `_valid`. -/
def valid (proposal : Data) : Bool :=
  let files := proposal.field "files"
  let revert := proposal.field "revert"
  proposal.isDict && (proposal.field "title").truthy && (proposal.field "branch").truthy &&
    (files.isDict && files.truthy || revert.asStr.isSome && revert.truthy)

def run (argv : List Data) (allowFail : Bool) : Session RunResult := do
  let res ← question (.command argv)
  if res.returncode ≠ 0 ∧ allowFail = false then
    raise (.commandFailed res.returncode argv (.ofList (strip res.stderr.toList)))
  else return res

def writeFile (repoDir : PyPath) : Data × Data → Session Data
  | (.str rel, content) =>
    if ".." ∈ (PyPath.ofText rel).parts then raise (.escapes rel)
    else do
      let dest := repoDir.join (.ofText rel)
      let _ ← question (.mkdir dest.parent)
      match content with
      | .str content => do
        let _ ← question (.write dest content)
        return .str rel
      | _ => raise (.python .type)
  | _ => raise (.python .type)

def writeFiles (repoDir : PyPath) : List (Data × Data) → Session (List Data)
  | [] => return []
  | m :: files => do
    let rel ← writeFile repoDir m
    let changed ← writeFiles repoDir files
    return rel :: changed

section
variable (py : Words)

/-- Step 2 of `open_pr`: the commit to revert, or the files to write. -/
def produce (proposal : Data) (repoDir : PyPath) : Session Unit :=
  let revert := proposal.field "revert"
  if revert.truthy then do
    let _ ← run [.str "git", .str "revert", .str "--no-edit", .str (py.str revert)] false
    return ()
  else do
    let changed ← writeFiles repoDir (proposal.field "files").members
    let _ ← run ([.str "git", .str "add", .str "--"] ++ changed) false
    let status ← run [.str "git", .str "status", .str "--porcelain"] false
    if strip status.stdout.toList ≠ [] then do
      let _ ← run [.str "git", .str "commit", .str "-m", proposal.field "title"] false
      return ()
    else return ()

def base (proposal : Data) : Data := (Data.lookup proposal.members "base").getD (.str "main")

def body (proposal : Data) : Data :=
  if (proposal.field "body").truthy then proposal.field "body"
  else .str ("Automated self-heal fix.\n\nProposal: " ++ py.str (proposal.field "branch"))

/-- Steps 4 and 5 of `open_pr`. -/
def publish (proposal : Data) : Session String := do
  let branch := proposal.field "branch"
  let repo := proposal.field "repo"
  let _ ← run [.str "git", .str "push", .str "--force-with-lease", .str "-u", .str "origin", branch] false
  let ghRepo := if repo.truthy then [.str "-R", repo] else []
  let existing ← run ([.str "gh", .str "pr", .str "list"] ++ ghRepo ++ [.str "--head", branch,
    .str "--state", .str "open", .str "--json", .str "url", .str "--jq", .str ".[0].url // \"\""]) true
  let url := strip existing.stdout.toList
  if url ≠ [] then return .ofList url
  else do
    let created ← run ([.str "gh", .str "pr", .str "create"] ++ ghRepo ++ [.str "--head", branch,
      .str "--base", base proposal, .str "--title", proposal.field "title",
      .str "--body", body py proposal]) false
    return .ofList (strip created.stdout.toList)

/-- Python `open_pr`. -/
def openPr (proposal : Data) (repoDir : PyPath) : Session String :=
  if valid proposal = false then raise .invalidProposal
  else do
    let _ ← run [.str "git", .str "fetch", .str "origin", base proposal] false
    let _ ← run [.str "git", .str "checkout", .str "-B", proposal.field "branch",
      .str ("origin/" ++ py.str (base proposal))] false
    produce py proposal repoDir
    publish py proposal

end

/-- A name that a refspec takes for a branch as it stands. -/
def PlainName (name : String) : Prop :=
  name ≠ "" ∧ name ≠ "HEAD" ∧ name.toList.head? ≠ some '-' ∧
    ∀ c ∈ name.toList, c.isAlphanum ∨ c = '-' ∨ c = '_'

instance (name : String) : Decidable (PlainName name) := by
  unfold PlainName
  infer_instance

/-- Which branches of the remote a push with the given last argument updates. -/
structure Git where
  updates : String → String → Prop
  updates_plain : ∀ name, PlainName name → updates name name
  updates_refspec : ∀ source name, PlainName source → PlainName name →
    updates (source ++ ":" ++ name) name

def IsPush (argv : List Data) : Prop := argv.take 2 = [.str "git", .str "push"]

def Pushes (git : Git) (argv : List Data) (branch : String) : Prop :=
  IsPush argv ∧ ∃ arg, argv.getLast? = some (.str arg) ∧ git.updates arg branch

/-- What the opener may ask: a file lies beneath the checkout, and a command does not push to the base. -/
def Allowed (git : Git) (cwd : List String) (repoDir : PyPath) (base : Data) : Request → Prop
  | .mkdir _ => True
  | .write path _ => PyPath.Beneath cwd repoDir path
  | .command argv => ∀ branch, base = .str branch → ¬ Pushes git argv branch

/-- With every system, all that the opener asks is allowed. -/
def Confined (py : Words) (git : Git) (cwd : List String) (proposal : Data) (repoDir : PyPath) : Prop :=
  ∀ world, ∀ request ∈ (openPr py proposal repoDir).trace world [],
    Allowed git cwd repoDir (base proposal) request

def writable : Data × Data → Bool
  | (.str rel, .str _) => ".." ∉ (PyPath.ofText rel).parts
  | _ => false

/-- A file name is relative, or it is absolute and leads into the checkout. -/
def Inside (cwd : List String) (repoDir : PyPath) (name : Data) : Prop :=
  ∀ rel, name = .str rel → (PyPath.ofText rel).absolute = true →
    repoDir.location cwd <+: (PyPath.ofText rel).parts

/-- The names of the files that are written, up to the first that is refused, lead into the checkout. -/
def FilesInside (cwd : List String) (proposal : Data) (repoDir : PyPath) : Prop :=
  (proposal.field "revert").truthy = false →
    ∀ m ∈ (proposal.field "files").members.takeWhile writable, Inside cwd repoDir m.1

/-- If the opener comes to push, the branch is not pushed to the base. -/
def PushesElsewhere (git : Git) (proposal : Data) : Prop :=
  ((proposal.field "revert").truthy = true ∨ ∀ m ∈ (proposal.field "files").members, writable m = true) →
    ∀ branch target, proposal.field "branch" = .str branch → base proposal = .str target →
      ¬ git.updates branch target

@[simp] lemma mayAsk_run (argv : List Data) (allowFail : Bool) (q : Request) :
    (run argv allowFail).MayAsk q ↔ q = .command argv := by
  rw [run, mayAsk_bind, mayAsk_question]
  constructor
  · rintro (h | ⟨res, -, h⟩)
    · exact h
    · split at h
      · exact absurd h (mayAsk_raise _ _)
      · exact absurd h (mayAsk_pure _ _)
  · exact .inl

@[simp] lemma mayReturn_run (argv : List Data) (allowFail : Bool) (res : RunResult) :
    (run argv allowFail).MayReturn res ↔ (allowFail = true ∨ res.returncode = 0) := by
  rw [run, mayReturn_bind]
  constructor
  · rintro ⟨res', -, h⟩
    split at h
    next => exact absurd h (mayReturn_raise _ _)
    next hok =>
      obtain rfl := (mayReturn_pure _ _).1 h
      by_contra hnot
      rw [not_or, Bool.not_eq_true] at hnot
      exact hok hnot.symm
  · intro h
    refine ⟨res, mayReturn_question _ _, ?_⟩
    rw [if_neg]
    · rfl
    · rintro ⟨hcode, hfail⟩
      cases h with
      | inl h => exact Bool.false_ne_true (hfail.symm.trans h)
      | inr h => exact hcode h

variable {repoDir : PyPath} {content : String} {dest : PyPath}

lemma mayAsk_writeFile_write {m} :
    (writeFile repoDir m).MayAsk (.write dest content) ↔
      writable m = true ∧ ∃ rel, m = (.str rel, .str content) ∧ dest = repoDir.join (.ofText rel) := by
  obtain ⟨name, text⟩ := m
  cases name with
  | str rel =>
    rw [writeFile]
    by_cases hdots : ".." ∈ (ofText rel).parts
    · rw [if_pos hdots]
      constructor
      · exact fun h => absurd h (mayAsk_raise _ _)
      · rintro ⟨hwritable, rel', heq, -⟩
        cases heq
        simp [writable, hdots] at hwritable
    · rw [if_neg hdots]
      cases text with
      | str text => simp [writable, hdots, and_comm, @eq_comm _ text]
      | none | bool | int | other | list | dict => simp [writable]
  | none | bool | int | other | list | dict => simp [writeFile, writable]

lemma mayReturn_writeFile (m : Data × Data) :
    (∃ rel, (writeFile repoDir m).MayReturn rel) ↔ writable m = true := by
  obtain ⟨name, text⟩ := m
  cases name with
  | str rel =>
    rw [writeFile]
    by_cases hdots : ".." ∈ (ofText rel).parts
    · rw [if_pos hdots]
      cases text with
      | str text => simp [writable, hdots]
      | none | bool | int | other | list | dict => simp [writable]
    · rw [if_neg hdots]
      cases text with
      | str text => simp [writable, hdots]
      | none | bool | int | other | list | dict => simp [writable]
  | none | bool | int | other | list | dict => simp [writeFile, writable]

lemma not_mayAsk_writeFile_command (m : Data × Data) (argv : List Data) :
    ¬ (writeFile repoDir m).MayAsk (.command argv) := by
  obtain ⟨name, text⟩ := m
  cases name with
  | str rel =>
    rw [writeFile]
    split_ifs
    · exact mayAsk_raise _ _
    · cases text with
      | str text => simp
      | none | bool | int | other | list | dict => simp
  | none | bool | int | other | list | dict => exact mayAsk_raise _ _

/-- The files up to the first that is refused are written. -/
lemma mayAsk_writeFiles_write {files} :
    (writeFiles repoDir files).MayAsk (.write dest content) ↔
      ∃ rel, (.str rel, .str content) ∈ files.takeWhile writable ∧
        dest = repoDir.join (.ofText rel) := by
  induction files with
  | nil => simp [writeFiles]
  | cons m files ih =>
    rw [writeFiles, mayAsk_bind, mayAsk_writeFile_write, takeWhile_cons]
    simp only [mayAsk_bind, ih, mayAsk_pure, and_false, exists_const, or_false]
    rw [exists_and_right, mayReturn_writeFile]
    cases hm : writable m with
    | false => simp
    | true =>
      simp only [true_and, if_true, mem_cons]
      constructor
      · rintro (⟨rel, rfl, hdest⟩ | ⟨rel, hrel, hdest⟩)
        · exact ⟨rel, .inl rfl, hdest⟩
        · exact ⟨rel, .inr hrel, hdest⟩
      · rintro ⟨rel, rfl | hrel, hdest⟩
        · exact .inl ⟨rel, rfl, hdest⟩
        · exact .inr ⟨rel, hrel, hdest⟩

lemma mayReturn_writeFiles (files : List (Data × Data)) :
    (∃ changed, (writeFiles repoDir files).MayReturn changed) ↔ ∀ m ∈ files, writable m = true := by
  induction files with
  | nil => simp [writeFiles]
  | cons m files ih =>
    rw [forall_mem_cons, ← mayReturn_writeFile, ← ih]
    simp only [writeFiles, mayReturn_bind, mayReturn_pure]
    constructor
    · rintro ⟨_, rel, hrel, changed, hchanged, -⟩
      exact ⟨⟨rel, hrel⟩, changed, hchanged⟩
    · rintro ⟨⟨rel, hrel⟩, changed, hchanged⟩
      exact ⟨_, rel, hrel, changed, hchanged, rfl⟩

lemma not_mayAsk_writeFiles_command (files : List (Data × Data)) (argv : List Data) :
    ¬ (writeFiles repoDir files).MayAsk (.command argv) := by
  induction files with
  | nil => exact mayAsk_pure _ _
  | cons m files ih => simp [writeFiles, not_mayAsk_writeFile_command, ih]

variable {py : Words} {proposal : Data}

lemma mayReturn_run_ok (argv : List Data) : ∃ res, (run argv false).MayReturn res ∧ res.stdout = "" :=
  ⟨⟨0, "", ""⟩, (mayReturn_run _ _ _).2 (.inr rfl), rfl⟩

lemma mayAsk_produce_write :
    (produce py proposal repoDir).MayAsk (.write dest content) ↔
      (proposal.field "revert").truthy = false ∧
        (writeFiles repoDir (proposal.field "files").members).MayAsk (.write dest content) := by
  rw [produce]
  cases hrevert : (proposal.field "revert").truthy with
  | true => simp
  | false =>
    simp only [Bool.false_eq_true, if_false, mayAsk_bind, mayAsk_run, true_and]
    constructor
    · rintro (h | ⟨changed, -, h | ⟨res, -, h | ⟨status, -, h⟩⟩⟩)
      · exact h
      · cases h
      · cases h
      · split at h
        · simp at h
        · exact absurd h (mayAsk_pure _ _)
    · exact .inl

lemma mayReturn_produce :
    (∃ u, (produce py proposal repoDir).MayReturn u) ↔ (proposal.field "revert").truthy = true ∨
      ∀ m ∈ (proposal.field "files").members, writable m = true := by
  rw [produce]
  cases hrevert : (proposal.field "revert").truthy with
  | true =>
    simp only [if_true, true_or, iff_true, mayReturn_bind]
    exact ⟨(), ⟨0, "", ""⟩, (mayReturn_run _ _ _).2 (.inr rfl), rfl⟩
  | false =>
    rw [← @mayReturn_writeFiles repoDir]
    simp only [Bool.false_eq_true, if_false, false_or, mayReturn_bind]
    constructor
    · rintro ⟨_, changed, hchanged, -⟩
      exact ⟨changed, hchanged⟩
    · rintro ⟨changed, hchanged⟩
      obtain ⟨added, hadded, -⟩ := mayReturn_run_ok ([.str "git", .str "add", .str "--"] ++ changed)
      obtain ⟨status, hstatus, hstdout⟩ := mayReturn_run_ok [.str "git", .str "status", .str "--porcelain"]
      refine ⟨(), changed, hchanged, added, hadded, status, hstatus, ?_⟩
      rw [hstdout, if_neg (by decide)]
      rfl

variable {argv : List Data}

lemma not_isPush_of_mayAsk_produce
    (h : (produce py proposal repoDir).MayAsk (.command argv)) : ¬ IsPush argv := by
  rw [produce] at h
  split_ifs at h
  · simp only [mayAsk_bind, mayAsk_run, mayAsk_pure, and_false, exists_const, or_false] at h
    cases h
    simp [IsPush]
  · simp only [mayAsk_bind, mayAsk_run] at h
    rcases h with h | ⟨changed, -, h | ⟨res, -, h | ⟨status, -, h⟩⟩⟩
    · exact absurd h (not_mayAsk_writeFiles_command _ _)
    · cases h
      simp [IsPush]
    · cases h
      simp [IsPush]
    · split_ifs at h
      · simp only [mayAsk_bind, mayAsk_run, mayAsk_pure, and_false, exists_const, or_false] at h
        cases h
        simp [IsPush]
      · exact absurd h (mayAsk_pure _ _)

lemma not_mayAsk_publish_write (dest : PyPath) (content : String) :
    ¬ (publish py proposal).MayAsk (.write dest content) := by
  intro h
  simp only [publish, mayAsk_bind, mayAsk_run] at h
  rcases h with h | ⟨_, -, h | ⟨existing, -, h⟩⟩
  · cases h
  · cases h
  · split at h
    · exact absurd h (mayAsk_pure _ _)
    · simp at h

lemma mayAsk_publish_push (hpush : IsPush argv) :
    (publish py proposal).MayAsk (.command argv) ↔ argv = [.str "git", .str "push",
      .str "--force-with-lease", .str "-u", .str "origin", proposal.field "branch"] := by
  simp only [publish, mayAsk_bind, mayAsk_run]
  constructor
  · rintro (h | ⟨_, -, h | ⟨existing, -, h⟩⟩)
    · exact Request.command.inj h
    · cases h
      simp [IsPush] at hpush
    · split at h
      · exact absurd h (mayAsk_pure _ _)
      · simp only [mayAsk_bind, mayAsk_run, mayAsk_pure, and_false, exists_const, or_false] at h
        cases h
        simp [IsPush] at hpush
  · rintro rfl
    exact .inl rfl

lemma mayAsk_openPr (q : Request) : (openPr py proposal repoDir).MayAsk q ↔ valid proposal = true ∧
    (q = .command [.str "git", .str "fetch", .str "origin", base proposal] ∨
      q = .command [.str "git", .str "checkout", .str "-B", proposal.field "branch",
        .str ("origin/" ++ py.str (base proposal))] ∨
      (produce py proposal repoDir).MayAsk q ∨
      (∃ u, (produce py proposal repoDir).MayReturn u) ∧ (publish py proposal).MayAsk q) := by
  rw [openPr]
  cases hvalid : valid proposal with
  | false => simp
  | true =>
    have hres (argv : List Data) : ∃ res, (run argv false).MayReturn res :=
      (mayReturn_run_ok argv).imp fun _ => And.left
    simp only [Bool.true_eq_false, if_false, true_and, mayAsk_bind, mayAsk_run]
    constructor
    · rintro (h | ⟨_, -, h | ⟨_, -, h | ⟨u, hu, h⟩⟩⟩)
      · exact .inl h
      · exact .inr (.inl h)
      · exact .inr (.inr (.inl h))
      · exact .inr (.inr (.inr ⟨⟨u, hu⟩, h⟩))
    · obtain ⟨fetched, hfetched⟩ := hres [.str "git", .str "fetch", .str "origin", base proposal]
      obtain ⟨started, hstarted⟩ := hres [.str "git", .str "checkout", .str "-B", proposal.field "branch",
        .str ("origin/" ++ py.str (base proposal))]
      rintro (h | h | h | ⟨⟨u, hu⟩, h⟩)
      · exact .inl h
      · exact .inr ⟨fetched, hfetched, .inl h⟩
      · exact .inr ⟨fetched, hfetched, .inr ⟨started, hstarted, .inl h⟩⟩
      · exact .inr ⟨fetched, hfetched, .inr ⟨started, hstarted, .inr ⟨u, hu, h⟩⟩⟩

lemma mayAsk_openPr_write :
    (openPr py proposal repoDir).MayAsk (.write dest content) ↔ valid proposal = true ∧
      (proposal.field "revert").truthy = false ∧
      ∃ rel, (.str rel, .str content) ∈ (proposal.field "files").members.takeWhile writable ∧
        dest = repoDir.join (.ofText rel) := by
  rw [mayAsk_openPr, mayAsk_produce_write, mayAsk_writeFiles_write]
  refine and_congr_right fun _ => ⟨?_, fun h => .inr (.inr (.inl h))⟩
  rintro (h | h | h | ⟨-, h⟩)
  · cases h
  · cases h
  · exact h
  · exact absurd h (not_mayAsk_publish_write _ _)

lemma mayAsk_openPr_push (hpush : IsPush argv) :
    (openPr py proposal repoDir).MayAsk (.command argv) ↔ valid proposal = true ∧
      ((proposal.field "revert").truthy = true ∨
        ∀ m ∈ (proposal.field "files").members, writable m = true) ∧
      argv = [.str "git", .str "push", .str "--force-with-lease", .str "-u", .str "origin",
        proposal.field "branch"] := by
  rw [mayAsk_openPr, mayReturn_produce, mayAsk_publish_push hpush]
  refine and_congr_right fun _ => ⟨?_, fun h => .inr (.inr (.inr h))⟩
  rintro (h | h | h | h)
  · cases h
    simp [IsPush] at hpush
  · cases h
    simp [IsPush] at hpush
  · exact absurd hpush (not_isPush_of_mayAsk_produce h)
  · exact h

lemma not_mem_parts_of_writable {rel content} (h : writable (.str rel, .str content) = true) :
    ".." ∉ (ofText rel).parts := by
  simpa [writable] using h

/-- The files lie beneath the checkout and the base is not pushed to, with every system, exactly if the
names of the files lead into the checkout and the branch is not pushed to the base. -/
theorem openPr_confined_iff (py : Words) (git : Git) (cwd : List String) (proposal : Data)
    (repoDir : PyPath) : Confined py git cwd proposal repoDir ↔
      (valid proposal = true → FilesInside cwd proposal repoDir ∧ PushesElsewhere git proposal) := by
  rw [Confined, forall_mem_trace_iff .invalidProposal]
  constructor
  · intro h hvalid
    constructor
    · rintro hrevert ⟨name, text⟩ hm rel rfl
      have hwritable := mem_takeWhile_imp hm
      cases text with
      | str text =>
        have hask := h _ (mayAsk_openPr_write.2 ⟨hvalid, hrevert, rel, hm, rfl⟩)
        exact (beneath_join_iff (not_mem_parts_of_writable hwritable)).1 hask
      | none | bool | int | other | list | dict => cases hwritable
    · intro hreached branch target hbranch hbase hupdates
      refine h _ ((mayAsk_openPr_push ?_).2 ⟨hvalid, hreached, rfl⟩) target hbase ⟨?_, branch, ?_, hupdates⟩
      · rfl
      · rfl
      · rw [hbranch]
        rfl
  · intro h q hask
    cases q with
    | mkdir path => trivial
    | write dest content =>
      obtain ⟨hvalid, hrevert, rel, hrel, rfl⟩ := mayAsk_openPr_write.1 hask
      have hwritable := mem_takeWhile_imp hrel
      exact (beneath_join_iff (not_mem_parts_of_writable hwritable)).2 ((h hvalid).1 hrevert _ hrel rel rfl)
    | command argv =>
      intro target hbase hpushes
      obtain ⟨hpush, branch, hlast, hupdates⟩ := hpushes
      obtain ⟨hvalid, hreached, rfl⟩ := (mayAsk_openPr_push hpush).1 hask
      refine (h hvalid).2 hreached branch target ?_ hbase hupdates
      exact Option.some.inj hlast

def proposalOf (branch name : String) : Data :=
  .dict [(.str "title", .str "fix"), (.str "branch", .str branch),
    (.str "files", .dict [(.str name, .str "")])]

/-- An argument stands for the branch of that name, or for the destination of a refspec. -/
def plainGit : Git where
  updates arg branch := arg = branch ∨ ∃ source, arg = source ++ ":" ++ branch
  updates_plain _ _ := .inl rfl
  updates_refspec source _ _ _ := .inr ⟨source, rfl⟩

def quiet (_ : List Request) : Except Failure RunResult := .ok ⟨0, "", ""⟩

/-- An absolute file name leads out of the checkout, and the base is pushed to where the branch is a refspec
that ends in it. -/
theorem openPr_not_confined :
    ¬ Confined asciiWords plainGit [] (proposalOf "fix" "/etc/cron.d/fix") ⟨true, ["srv", "repo"]⟩ ∧
    ¬ Confined asciiWords plainGit [] (proposalOf "main" "a") ⟨true, ["srv", "repo"]⟩ ∧
    ¬ Confined asciiWords plainGit [] (proposalOf "fix:main" "a") ⟨true, ["srv", "repo"]⟩ := by
  refine ⟨fun h => ?_, fun h => ?_, fun h => ?_⟩
  · have hwrite : PyPath.Beneath [] ⟨true, ["srv", "repo"]⟩ ⟨true, ["etc", "cron.d", "fix"]⟩ :=
      h quiet (.write ⟨true, ["etc", "cron.d", "fix"]⟩ "") (mem_of_getElem? (i := 3) rfl)
    exact absurd hwrite (by decide)
  · exact h quiet _ (mem_of_getElem? (i := 6) rfl) "main" rfl ⟨rfl, "main", rfl, .inl rfl⟩
  · exact h quiet _ (mem_of_getElem? (i := 6) rfl) "main" rfl
      ⟨rfl, "fix:main", rfl, .inr ⟨"fix", rfl⟩⟩

end SocioWorkspace.Opener
