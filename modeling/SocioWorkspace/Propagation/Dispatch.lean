import SocioWorkspace.Propagation.Distance

/-!
# Notifications of a cascade

Model of `propagate` in `engines/propagation_engine.py`, where it executes: a step of the cascade opens an
issue in its repository, unless one of that title is listed. `gh issue list` gives the newest fifty.

`propagate_cases` says what one run sends and `listed_runs` what is listed after a number of runs;
`idempotent_iff` then counts the issues that push a notification out of the listing.
-/

namespace SocioWorkspace.Propagation
open List Python

/-- The titles of the open issues by repository, newest first. -/
abbrev Issues := String → List String

/-- What the calls for a repository come to in one run. -/
structure Calls where
  lists : Bool
  creates : Bool
  dispatches : Bool

/-- Python `scm_open_issue_titles`. -/
def scmOpenIssueTitles (calls : Calls) (issues : List String) : Option (List String) :=
  if calls.lists then some (issues.take 50) else none

inductive Existing where
  | unknown
  | duplicate

/-- Python `_existing_issue`. -/
def existingIssue (calls : Calls) (issues : List String) (title : String) : Option Existing :=
  match scmOpenIssueTitles calls issues with
  | none => some .unknown
  | some titles => if title ∈ titles then some .duplicate else none

inductive Sent where
  | blockedNoDispatch
  | dispatched
  | failed
  | skippedLookupFailed
  | alreadyOpen
  | notified

section
variable (py : Names) (source : String)

def Step.title (s : Step) : String := "[propagation] " ++ source ++ " changed — " ++ py.str s.sourceRule

/-- Python `_dispatch`: what it returns as the status, and the open issues of the repository. -/
def dispatch (allowDispatch : Bool) (calls : Calls) (s : Step) (issues : List String) : Sent × List String :=
  if s.action.isStr "trigger_ci" then
    (if ! allowDispatch then .blockedNoDispatch else if calls.dispatches then .dispatched else .failed, issues)
  else match existingIssue calls issues (s.title py source) with
    | some .unknown => (.skippedLookupFailed, issues)
    | some .duplicate => (.alreadyOpen, issues)
    | none => if calls.creates then (.notified, s.title py source :: issues) else (.failed, issues)

structure Policy where
  ref : String
  maxDepth : Int
  dispatchDepth : Int
  allowDispatch : Bool

def dispatchStep (policy : Policy) (calls : String → Calls) (issues : Issues) (s : Step) : Issues :=
  Function.update issues s.repo
    (dispatch py source policy.allowDispatch (calls s.repo) s (issues s.repo)).2

variable (engine : Engine) (policy : Policy)

/-- The steps that are sent, for a change of the main branch. -/
def sentSteps : List Step :=
  if "/main".toList <:+ policy.ref.toList then
    (computeCascade py engine source policy.maxDepth).filter fun s => s.depth ≤ policy.dispatchDepth
  else []

/-- Python `propagate(execute=True)`, by the open issues. -/
def propagate (issues : Issues) (calls : String → Calls) : Issues :=
  (sentSteps py source engine policy).foldl (dispatchStep py source policy calls) issues

/-- A step that is sent opens an issue of this title. -/
def Notifies (target title : String) : Prop :=
  ∃ s ∈ sentSteps py source engine policy, s.repo = target ∧ s.action.isStr "trigger_ci" = false ∧
    s.title py source = title

/-- A run, and before it the issues that others open, the newest first. -/
structure Run where
  others : String → List String
  calls : String → Calls

def Run.after (issues : Issues) (r : Run) : Issues :=
  propagate py source engine policy (fun target => r.others target ++ issues target) r.calls

/-- After any number of runs, between which others open at most `n` issues of other titles, no repository has
two open issues of a title that is sent to it. -/
def Idempotent (n : ℕ) (issues : Issues) : Prop :=
  ∀ runs : List Run, ∀ target title, Notifies py source engine policy target title →
    (∀ r ∈ runs, title ∉ r.others target) → (runs.map fun r => (r.others target).length).sum ≤ n →
      (runs.foldl (Run.after py source engine policy) issues target).count title ≤ 1

/-- The title is not there twice, and if it is there, it is among the newest ones. -/
def Listed (newest : ℕ) (issues : List String) (title : String) : Prop :=
  issues.count title ≤ 1 ∧ (title ∈ issues → title ∈ issues.take newest)

variable {py source engine policy}

lemma dispatch_cases (allowDispatch : Bool) (calls : Calls) (s : Step) (issues : List String) :
    (dispatch py source allowDispatch calls s issues).2 = issues ∨
      s.action.isStr "trigger_ci" = false ∧ s.title py source ∉ issues.take 50 ∧
        (dispatch py source allowDispatch calls s issues).2 = s.title py source :: issues := by
  rw [dispatch, existingIssue, scmOpenIssueTitles]
  cases haction : s.action.isStr "trigger_ci" with
  | true => exact .inl rfl
  | false =>
    cases calls.lists with
    | false => exact .inl rfl
    | true => by_cases htitle : s.title py source ∈ issues.take 50 <;> cases calls.creates <;> simp [htitle]

/-- Every repository has one step at most, so a run does to it what that step does. -/
lemma foldl_dispatchStep {calls} {steps : List Step} (h : (steps.map Step.repo).Nodup) (issues : Issues) :
    (∀ s ∈ steps, steps.foldl (dispatchStep py source policy calls) issues s.repo =
      (dispatch py source policy.allowDispatch (calls s.repo) s (issues s.repo)).2) ∧
    ∀ target ∉ steps.map Step.repo,
      steps.foldl (dispatchStep py source policy calls) issues target = issues target := by
  induction steps generalizing issues with
  | nil => exact ⟨nofun, fun _ _ => rfl⟩
  | cons s steps ih =>
    rw [map_cons, nodup_cons] at h
    obtain ⟨hin, hout⟩ := ih h.2 (dispatchStep py source policy calls issues s)
    have hother : ∀ target ≠ s.repo, dispatchStep py source policy calls issues s target = issues target :=
      fun target hne => Function.update_of_ne hne _ _
    refine ⟨forall_mem_cons.2 ⟨?_, fun t ht => ?_⟩, fun target htarget => ?_⟩
    · exact (hout _ h.1).trans (Function.update_self ..)
    · rw [foldl_cons, hin t ht, hother _ fun he => h.1 (he ▸ mem_map_of_mem ht)]
    · rw [map_cons, mem_cons, not_or] at htarget
      exact (hout target htarget.2).trans (hother target htarget.1)

lemma nodup_sentSteps : ((sentSteps py source engine policy).map Step.repo).Nodup := by
  rw [sentSteps]
  split_ifs
  · exact nodup_computeCascade.sublist (filter_sublist.map _)
  · exact nodup_nil

lemma propagate_cases (issues : Issues) (calls : String → Calls) (target : String) :
    propagate py source engine policy issues calls target = issues target ∨
      ∃ title, Notifies py source engine policy target title ∧ title ∉ (issues target).take 50 ∧
        propagate py source engine policy issues calls target = title :: issues target := by
  obtain ⟨hin, hout⟩ := @foldl_dispatchStep py source policy calls _
    (@nodup_sentSteps py source engine policy) issues
  by_cases htarget : target ∈ (sentSteps py source engine policy).map Step.repo
  · obtain ⟨s, hs, rfl⟩ := mem_map.1 htarget
    rw [propagate, hin s hs]
    exact (dispatch_cases _ _ s _).imp_right fun h => ⟨_, ⟨s, hs, rfl, h.1, rfl⟩, h.2⟩
  · exact .inl (hout target htarget)

lemma propagate_notifies {target title} (hsent : Notifies py source engine policy target title)
    {issues : Issues} (hnew : title ∉ (issues target).take 50) :
    propagate py source engine policy issues (fun _ => ⟨true, true, true⟩) target =
      title :: issues target := by
  obtain ⟨s, hs, rfl, haction, rfl⟩ := hsent
  rw [propagate, (foldl_dispatchStep nodup_sentSteps issues).1 s hs]
  simp [dispatch, haction, existingIssue, scmOpenIssueTitles, hnew]

lemma Listed.others {newest issues title} {opened : List String} (h : Listed newest issues title)
    (hother : title ∉ opened) : Listed (newest + opened.length) (opened ++ issues) title := by
  refine ⟨?_, fun hopen => ?_⟩
  · rw [count_append, count_eq_zero_of_not_mem hother, Nat.zero_add]
    exact h.1
  · rw [Nat.add_comm, take_length_add_append]
    exact mem_append_right _ (h.2 ((mem_append.1 hopen).resolve_left hother))

lemma listed_propagate {issues : Issues} (calls : String → Calls) {target title newest}
    (hsent : Notifies py source engine policy target title) (hnewest : newest ≤ 50) (hpos : 0 < newest)
    (h : Listed newest (issues target) title) :
    Listed newest (propagate py source engine policy issues calls target) title := by
  rcases propagate_cases issues calls target with hsame | ⟨opened, hopened, hnew, hrun⟩
  · rwa [hsame]
  · -- a repository has one step, and with it one title
    obtain ⟨s, hs, hrepo, -, rfl⟩ := hsent
    obtain ⟨t, ht, hrepo', -, rfl⟩ := hopened
    obtain rfl := inj_on_of_nodup_map nodup_sentSteps hs ht (hrepo.trans hrepo'.symm)
    have hnot : s.title py source ∉ issues target :=
      fun hopen => hnew ((take_sublist_take_left hnewest).subset (h.2 hopen))
    rw [hrun]
    refine ⟨by simp [count_eq_zero_of_not_mem hnot], fun _ => ?_⟩
    obtain ⟨m, rfl⟩ := Nat.exists_eq_succ_of_ne_zero hpos.ne'
    exact mem_cons_self

/-- With every issue of others one more of the newest issues has to be looked at. -/
lemma listed_runs {n : ℕ} (hn : n < 50) {issues : Issues} {target title}
    (hsent : Notifies py source engine policy target title)
    (h : Listed (50 - n) (issues target) title) (runs : List Run)
    (hother : ∀ r ∈ runs, title ∉ r.others target)
    (hsum : (runs.map fun r => (r.others target).length).sum ≤ n) :
    Listed (50 - n + (runs.map fun r => (r.others target).length).sum)
      (runs.foldl (Run.after py source engine policy) issues target) title := by
  induction runs using List.reverseRecOn with
  | nil => exact h
  | append_singleton runs r ih =>
    rw [map_append, sum_append, map_singleton, sum_singleton] at hsum ⊢
    have hbefore := ih (fun r' hr' => hother r' (mem_append_left _ hr')) (by omega)
    rw [foldl_append, foldl_cons, foldl_nil, Run.after, ← Nat.add_assoc]
    refine listed_propagate r.calls hsent (by omega) (by omega) ?_
    exact hbefore.others (hother r (mem_append_right _ (mem_singleton_self r)))

/-- Runs open no second issue, while others open at most `n`, exactly if every title that is sent is there once
at most, and with `n` newer issues still among the newest fifty. -/
theorem idempotent_iff (py : Names) (source : String) (engine : Engine) (policy : Policy) (n : Fin 50)
    (issues : Issues) :
    Idempotent py source engine policy n issues ↔
      ∀ target title, Notifies py source engine policy target title → Listed (50 - n) (issues target) title := by
  constructor
  · refine fun h target title hsent => ⟨?_, fun hopen => ?_⟩
    · exact h [] target title hsent (by simp) (by simp)
    by_contra hbeyond
    -- others open as many issues as they may, and then a run does not see the title
    obtain ⟨other, hother⟩ : ∃ other, other ≠ title := ⟨title ++ "!", by simp [String.ext_iff]⟩
    have hunseen : title ∉ (replicate n other ++ issues target).take 50 := by
      rw [take_append, length_replicate, mem_append, not_or]
      exact ⟨fun hmem => hother (eq_of_mem_replicate (mem_of_mem_take hmem)).symm, hbeyond⟩
    have hrun := h [⟨fun _ => replicate n other, fun _ => ⟨true, true, true⟩⟩] target title hsent
      (by simpa using fun _ => hother.symm) (by simp)
    rw [foldl_cons, foldl_nil, Run.after, propagate_notifies hsent hunseen, count_cons_self] at hrun
    dsimp only at hrun
    have hpos : 0 < (replicate n other ++ issues target).count title :=
      count_pos_iff.2 (mem_append_right _ hopen)
    omega
  · intro h runs target title hsent hother hsum
    exact (listed_runs n.2 hsent (h target title hsent) runs hother hsum).1

end

def propagationTitle : String := "[propagation] a changed — dependency_graph"

def busyIssues : Issues := fun target => if target = "b" then replicate 50 "other" ++ [propagationTitle] else []

/-- With fifty newer issues, a repository is notified again. -/
theorem busyIssues_not_idempotent :
    ¬ Idempotent asciiNames "a" ringEngine ⟨"refs/heads/main", 3, 1, false⟩ 0 busyIssues := by
  intro h
  have hsent : Notifies asciiNames "a" ringEngine ⟨"refs/heads/main", 3, 1, false⟩ "b" propagationTitle :=
    ⟨_, Mem.head _, rfl, rfl, rfl⟩
  have hrun := h [⟨fun _ => [], fun _ => ⟨true, true, true⟩⟩] "b" propagationTitle hsent (by simp) (by simp)
  revert hrun
  decide +kernel

end SocioWorkspace.Propagation
