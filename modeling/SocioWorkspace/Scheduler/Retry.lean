import Mathlib

/-!
# Retries of the scheduler

Model of `_process_queue`, `_run_propagation` and `_exponential_retry` of `automation/scheduler.py`. The handler
is any sequence of outcomes. `_run_propagation` and `_exponential_retry` call each other down the stack: the
number of levels that the interpreter has room for is a parameter. The rate limiter is a sequence of answers.
-/

namespace SocioWorkspace.Scheduler
open Prod Nat

/-- How a call ends: `exits` stands for an exception that is not an `Exception`. -/
inductive Outcome where
  | returns
  | raises
  | exits
deriving DecidableEq

/-- Invocations of the handler, seconds slept and `_metrics`. -/
structure Jobs where
  calls : ℕ
  slept : ℕ
  jobsRun : ℕ
  eventsProcessed : ℕ
  jobsFailed : ℕ
  jobsSkipped : ℕ
deriving DecidableEq

namespace Jobs

section
variable (jobs : Jobs)

def sleep (attempt : ℕ) : Jobs := { jobs with slept := jobs.slept + 2 ^ attempt }

def call : Jobs := { jobs with calls := jobs.calls + 1, jobsRun := jobs.jobsRun + 1 }

def processed : Jobs := { jobs with eventsProcessed := jobs.eventsProcessed + 1 }

def failed : Jobs := { jobs with jobsFailed := jobs.jobsFailed + 1 }

def skipped : Jobs := { jobs with jobsSkipped := jobs.jobsSkipped + 1 }

end

end Jobs

/-- Python `_exponential_retry`, for the attempts that are left. -/
def exponentialRetry (fn : Jobs → Outcome × Jobs) : List ℕ → Jobs → Outcome × Jobs
  | [], jobs => (.returns, jobs)
  | attempt :: attempts, jobs =>
    match fn (jobs.sleep attempt) with
    | (.returns, jobs) => (.returns, jobs)
    | (.raises, jobs) => exponentialRetry fn attempts jobs
    | (.exits, jobs) => (.exits, jobs)

def maxRetries : ℕ := 3

/-- Python `COST_PROCESS_EVENT`. -/
def COST_PROCESS_EVENT : ℕ := 10

section
variable {E : Type} (handler : ℕ → E → Outcome)

/-- Python `_run_propagation` with room for so many levels. -/
def runPropagation (event : E) : ℕ → Jobs → Outcome × Jobs
  | 0, jobs => (.raises, jobs)
  | levels + 1, jobs =>
    match handler jobs.calls event with
    | .returns => (.returns, jobs.call.processed)
    | .raises => exponentialRetry (runPropagation event levels) (List.range' 1 maxRetries) jobs.call.failed
    | .exits => (.exits, jobs.call)

/-- What the rate limiter answers to the next event. -/
structure Limiter where
  overThreshold : ℕ → Bool
  acquire : ℕ → ℕ → Bool

/-- Python `_process_queue` on the events of the queue; `i` counts the turns of the loop. -/
def processQueue (limiter : Limiter) (levels : ℕ) : ℕ → List E → Jobs → Outcome × List E × Jobs
  | _, [], jobs => (.returns, [], jobs)
  | i, event :: events, jobs =>
    if limiter.overThreshold i || !limiter.acquire i COST_PROCESS_EVENT then
      (.returns, event :: events, jobs.skipped)
    else
      match runPropagation handler event levels jobs with
      | (.returns, jobs) => processQueue limiter levels (i + 1) events jobs
      | (.raises, jobs) => (.raises, events, jobs)
      | (.exits, jobs) => (.exits, events, jobs)

variable {handler} {event : E} {levels : ℕ} {jobs : Jobs}

variable {after : Jobs}

/-- Without room for another level every attempt raises, and the loop gives up. -/
lemma exponentialRetry_no_room (attempts : List ℕ) (jobs : Jobs) :
    ∃ after, exponentialRetry (runPropagation handler event 0) attempts jobs = (.returns, after) ∧
      after.calls = jobs.calls := by
  induction attempts generalizing jobs with
  | nil => exact ⟨jobs, rfl, rfl⟩
  | cons attempt attempts ih => exact ih (jobs.sleep attempt)

lemma runPropagation_of_raises {outcome}
    (hraises : handler jobs.calls event = .raises) (houtcome : outcome ≠ .raises)
    (h : runPropagation handler event levels (jobs.call.failed.sleep 1) = (outcome, after)) :
    runPropagation handler event (levels + 1) jobs = (outcome, after) := by
  rw [runPropagation, hraises]
  show exponentialRetry _ (1 :: List.range' 2 2) _ = _
  rw [exponentialRetry, h]
  cases outcome with
  | returns => rfl
  | raises => exact absurd rfl houtcome
  | exits => rfl

lemma calls_succ (j : ℕ) : jobs.calls + (j + 1) = (jobs.call.failed.sleep 1).calls + j :=
  Nat.add_right_comm jobs.calls j 1

lemma raises_retried {n} (h : ∀ j < n + 1, handler (jobs.calls + j) event = .raises) :
    ∀ j < n, handler ((jobs.call.failed.sleep 1).calls + j) event = .raises := by
  intro j hj
  rw [← calls_succ]
  exact h (j + 1) (succ_lt_succ hj)

lemma runPropagation_of_first {i} (hroom : i < levels)
    (hfails : ∀ j < i, handler (jobs.calls + j) event = .raises)
    (hlast : handler (jobs.calls + i) event ≠ .raises) :
    ∃ after, runPropagation handler event levels jobs = (handler (jobs.calls + i) event, after) ∧
      after.calls = jobs.calls + (i + 1) := by
  induction i generalizing levels jobs with
  | zero =>
    obtain ⟨levels, rfl⟩ := exists_eq_succ_of_ne_zero hroom.ne'
    rw [Nat.add_zero] at hlast ⊢
    rw [runPropagation]
    cases h : handler jobs.calls event with
    | returns => exact ⟨_, rfl, rfl⟩
    | raises => exact absurd h hlast
    | exits => exact ⟨_, rfl, rfl⟩
  | succ i ih =>
    obtain ⟨levels, rfl⟩ := exists_eq_succ_of_ne_zero (Nat.ne_zero_of_lt hroom)
    rw [calls_succ] at hlast ⊢
    obtain ⟨after, hrun, hcalls⟩ := ih (lt_of_succ_lt_succ hroom) (raises_retried hfails) hlast
    refine ⟨after, runPropagation_of_raises (hfails 0 (succ_pos i)) hlast hrun, ?_⟩
    exact hcalls.trans (calls_succ (i + 1)).symm

lemma runPropagation_of_all (hlevels : 0 < levels)
    (hfails : ∀ j < levels, handler (jobs.calls + j) event = .raises) :
    ∃ after, runPropagation handler event levels jobs = (.returns, after) ∧
      after.calls = jobs.calls + levels := by
  induction levels generalizing jobs with
  | zero => exact absurd hlevels (lt_irrefl 0)
  | succ levels ih =>
    have hfirst : handler jobs.calls event = .raises := hfails 0 (succ_pos levels)
    cases levels with
    | zero =>
      rw [runPropagation, hfirst]
      exact exponentialRetry_no_room _ _
    | succ levels =>
      obtain ⟨after, hrun, hcalls⟩ := ih (succ_pos levels) (raises_retried hfails)
      refine ⟨after, runPropagation_of_raises hfirst (by decide) hrun, ?_⟩
      exact hcalls.trans (calls_succ (levels + 1)).symm

/-- The loop of the queue is done with an event and takes its next turn. -/
def GoesOn (handler : ℕ → E → Outcome) (event : E) (levels : ℕ) (jobs after : Jobs) : Prop :=
  ∀ limiter i events, limiter.overThreshold i = false → limiter.acquire i COST_PROCESS_EVENT = true →
    processQueue handler limiter levels i (event :: events) jobs =
      processQueue handler limiter levels (i + 1) events after

lemma goesOn_iff : GoesOn handler event levels jobs after ↔
    runPropagation handler event levels jobs = (.returns, after) := by
  have hturn : ∀ limiter i events, limiter.overThreshold i = false →
      limiter.acquire i COST_PROCESS_EVENT = true →
      processQueue handler limiter levels i (event :: events) jobs =
        match runPropagation handler event levels jobs with
        | (.returns, jobs) => processQueue handler limiter levels (i + 1) events jobs
        | (.raises, jobs) => (.raises, events, jobs)
        | (.exits, jobs) => (.exits, events, jobs) := by
    intro limiter i events husage hacquire
    rw [processQueue, husage, hacquire]
    rfl
  constructor
  · intro h
    have hlast := h ⟨fun _ => false, fun _ _ => true⟩ 0 [] rfl rfl
    rw [hturn _ _ _ rfl rfl] at hlast
    generalize runPropagation handler event levels jobs = result at hlast
    obtain ⟨outcome, jobs'⟩ := result
    cases outcome with
    | returns => exact congrArg (mk _) (mk.inj (mk.inj hlast).2).2
    | raises | exits => cases (mk.inj hlast).1
  · intro h limiter i events husage hacquire
    rw [hturn limiter i events husage hacquire, h]

/-- One event takes a bounded number of invocations, and the queue goes on with the next event. -/
def BoundedRetries (handler : ℕ → E → Outcome) (event : E) (levels : ℕ) (jobs : Jobs) : Prop :=
  ∃ after, GoesOn handler event levels jobs after ∧ after.calls ≤ jobs.calls + (1 + maxRetries)

/-- An event is handled within its retries exactly if one of them returns and all before it raise. -/
theorem bounded_retries_iff (hroom : 1 + maxRetries < levels) :
    BoundedRetries handler event levels jobs ↔
      ∃ i < 1 + maxRetries, handler (jobs.calls + i) event = .returns ∧
        ∀ j < i, handler (jobs.calls + j) event = .raises := by
  constructor
  · rintro ⟨after, hrun, hcalls⟩
    rw [goesOn_iff] at hrun
    by_cases hall : ∀ j < levels, handler (jobs.calls + j) event = .raises
    · obtain ⟨after', hrun', hcalls'⟩ := runPropagation_of_all (by omega) hall
      rw [hrun'] at hrun
      cases hrun
      omega
    · -- the first invocation that does not raise decides
      rw [not_forall] at hall
      have hex : ∃ i, i < levels ∧ handler (jobs.calls + i) event ≠ .raises := by
        obtain ⟨i, hi⟩ := hall
        exact ⟨i, by simpa using hi⟩
      obtain ⟨hi, hlast⟩ := Nat.find_spec hex
      have hfails : ∀ j < Nat.find hex, handler (jobs.calls + j) event = .raises := by
        intro j hj
        by_contra hne
        exact Nat.find_min hex hj ⟨hj.trans hi, hne⟩
      obtain ⟨after', hrun', hcalls'⟩ := runPropagation_of_first hi hfails hlast
      rw [hrun'] at hrun
      obtain ⟨hreturns, rfl⟩ := mk.inj hrun
      exact ⟨Nat.find hex, by omega, hreturns, hfails⟩
  · rintro ⟨i, hi, hreturns, hfails⟩
    have hlast : handler (jobs.calls + i) event ≠ .raises := by
      rw [hreturns]
      decide
    have hlevels : i < levels := hi.trans hroom
    obtain ⟨after, hrun, hcalls⟩ := runPropagation_of_first hlevels hfails hlast
    rw [hreturns] at hrun
    exact ⟨after, goesOn_iff.2 hrun, by omega⟩

end

def noJobs : Jobs := ⟨0, 0, 0, 0, 0, 0⟩

/-- The third invocation succeeds. -/
theorem bounded_third_try : BoundedRetries (E := Unit)
    (fun n _ => if n < 2 then .raises else .returns) () 400 noJobs :=
  (bounded_retries_iff (by decide)).2 ⟨2, by decide, by decide, by decide⟩

/-- A handler that always raises is invoked on each of four hundred levels. -/
theorem always_raising_unbounded : ¬ BoundedRetries (E := Unit) (fun _ _ => .raises) () 400 noJobs := by
  rintro ⟨after, hrun, hcalls⟩
  obtain ⟨after', hrun', hcalls'⟩ := @runPropagation_of_all Unit (fun _ _ => .raises) () 400 noJobs
    (by decide) fun _ _ => rfl
  rw [goesOn_iff, hrun'] at hrun
  obtain ⟨-, rfl⟩ := mk.inj hrun
  rw [hcalls'] at hcalls
  revert hcalls
  decide

end SocioWorkspace.Scheduler
