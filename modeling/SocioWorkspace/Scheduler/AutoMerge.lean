import Mathlib.Data.List.Basic

/-!
# Merging the PRs of a phase

Model of `run` of `automation/auto_merge_handler.py`. What the client does in the turn of a PR is a `Turn`: any
call may fail, and a merge that raises may have been made all the same. A call of `merge` that returns has merged
the PR, and `merged` is true only for a merged one. Others may merge PRs between two turns.
-/

namespace SocioWorkspace.Scheduler
open List Option

/-- Python `MAX_MERGE_RETRIES`. -/
def MAX_MERGE_RETRIES : ℕ := 3

inductive MergeableState where
  | clean
  | unknown
  | other
deriving DecidableEq

inductive Attribute (α : Type) where
  | value (a : α)
  | missing
  | raises

/-- A call of `pr.merge`: it returns, or it raises after the server has merged the PR or not. -/
inductive MergeCall where
  | returns
  | raises (merged : Bool)

/-- What the client does in the turn of a PR: what `get_pull` and `update` lead to, and the calls of `merge`
by attempt. `elsewhere` are the PRs that others have merged before. -/
structure Turn where
  elsewhere : List ℕ
  found : Bool
  mergedAttribute : Attribute Unit
  mergeableState : Attribute MergeableState
  updatedState : Attribute MergeableState
  merge : ℕ → MergeCall

/-- The merged PRs, and `_metrics`. -/
structure Merges where
  merged : List ℕ
  prsMerged : ℕ
  prsFailed : ℕ
  prsSkipped : ℕ
deriving DecidableEq

inductive RunEnd where
  | returned (all : Bool)
  | raised
deriving DecidableEq

/-- The end of a turn with a merge: what `_merge_with_retry` returns, and whether the PR is merged. -/
def Merges.settle (s : Merges) (number : ℕ) (result : Bool × Bool) : Option RunEnd × Merges :=
  let merged := if result.2 then number :: s.merged else s.merged
  if result.1 then (none, { s with merged := merged, prsMerged := s.prsMerged + 1 })
  else (some (.returned false), { s with merged := merged, prsFailed := s.prsFailed + 1 })

namespace Turn
variable (turn : Turn)

/-- Python `AutoMergeHandler._is_merged`. -/
def isMerged (merged : Bool) : Except Unit Bool :=
  match turn.mergedAttribute with
  | .value _ => .ok merged
  | .missing => .ok false
  | .raises => .error ()

/-- Python `getattr(pr, "mergeable_state", "unknown")`. -/
def readState : Attribute MergeableState → Except Unit MergeableState
  | .value state => .ok state
  | .missing => .ok .unknown
  | .raises => .error ()

/-- Python `AutoMergeHandler._is_ready`. -/
def isReady : Except Unit Bool := do
  match ← readState turn.mergeableState with
  | .clean => return true
  | .unknown => return (← readState turn.updatedState) = .clean
  | .other => return false

/-- Python `_merge_with_retry` for the attempts left: what it returns, and whether the PR is merged. -/
def mergeWithRetry : List ℕ → Bool × Bool
  | [] => (false, false)
  | attempt :: attempts =>
    match turn.merge attempt with
    | .returns => (true, true)
    | .raises merged => ((mergeWithRetry attempts).1, merged || (mergeWithRetry attempts).2)

def body (number : ℕ) (s : Merges) : Option RunEnd × Merges :=
  if turn.found then
    match turn.isMerged (number ∈ s.merged) with
    | .error _ => (some .raised, s)
    | .ok true => (none, { s with prsSkipped := s.prsSkipped + 1 })
    | .ok false =>
      match turn.isReady with
      | .error _ => (some .raised, s)
      | .ok false => (some (.returned false), { s with prsFailed := s.prsFailed + 1 })
      | .ok true => s.settle number (turn.mergeWithRetry (List.range' 1 MAX_MERGE_RETRIES))
  else
    (none, { s with prsSkipped := s.prsSkipped + 1 })

def start (s : Merges) : Merges := { s with merged := turn.elsewhere ++ s.merged }

end Turn

def mergeLoop : List (ℕ × Turn) → Merges → RunEnd × Merges
  | [], s => (.returned true, s)
  | (number, turn) :: rest, s =>
    match turn.body number (turn.start s) with
    | (some result, s) => (result, s)
    | (none, s) => mergeLoop rest s

/-- Python `phase_a_pr_numbers or [1, 2]`, with the turns of the PRs. -/
def phaseA (numbers : List ℕ) (client : ℕ → Turn) : List (ℕ × Turn) :=
  (if numbers = [] then [1, 2] else numbers).zipIdx.map fun x => (x.1, client x.2)

/-- Python `AutoMergeHandler.run`; `repo` says whether `get_repo` returns. -/
def autoMergeRun (repo : Bool) (numbers : List ℕ) (client : ℕ → Turn) (s : Merges) : RunEnd × Merges :=
  if repo then mergeLoop (phaseA numbers client) s else (.returned false, s)

section
variable (before : List (ℕ × Turn) → List (ℕ × Turn))

/-- No PR becomes merged in its turn unless those are merged that `before` picks from the earlier ones, which
are listed from the last one on. -/
def Sequential : List (ℕ × Turn) → List (ℕ × Turn) → Merges → Prop
  | _, [], _ => True
  | earlier, (number, turn) :: rest, s =>
    (number ∉ (turn.start s).merged → number ∈ (turn.body number (turn.start s)).2.merged →
      ∀ x ∈ before earlier, x.1 ∈ (turn.start s).merged) ∧
    ((turn.body number (turn.start s)).1 = none →
      Sequential ((number, turn) :: earlier) rest (turn.body number (turn.start s)).2)

/-- The run is sequential, and it returns `True` only if the PRs that `all` picks are merged. -/
def SequentialAndComplete (all : List (ℕ × Turn) → List (ℕ × Turn)) (repo : Bool) (numbers : List ℕ)
    (client : ℕ → Turn) (s : Merges) : Prop :=
  (repo = true → Sequential before [] (phaseA numbers client) s) ∧
    ((autoMergeRun repo numbers client s).1 = .returned true →
      ∀ x ∈ all (phaseA numbers client), x.1 ∈ (autoMergeRun repo numbers client s).2.merged)

/-- The PRs whose lookup returns. -/
def foundOf : List (ℕ × Turn) → List (ℕ × Turn) := filter (·.2.found)

variable {turn : Turn} {number : ℕ} {rest : List (ℕ × Turn)} {s : Merges}

lemma merged_of_success {attempts} (h : (turn.mergeWithRetry attempts).1 = true) :
    (turn.mergeWithRetry attempts).2 = true := by
  induction attempts with
  | nil => cases h
  | cons attempt attempts ih =>
    rw [Turn.mergeWithRetry] at h ⊢
    cases hcall : turn.merge attempt with
    | returns => rfl
    | raises merged =>
      rw [hcall] at h
      exact Bool.or_eq_true_iff.2 (.inr (ih h))

/-- No PR is lost, the run goes on only behind a merged PR or a failed look, and no turn returns `True`. -/
structure TurnEnd (turn : Turn) (number : ℕ) (s : Merges) (out : Option RunEnd × Merges) : Prop where
  keeps : s.merged ⊆ out.2.merged
  merged : out.1 = none → turn.found = true → number ∈ out.2.merged
  last : out.1 ≠ some (.returned true)

lemma turnEnd_settle {result} (h : result.1 = true → result.2 = true) :
    TurnEnd turn number s (s.settle number result) := by
  obtain ⟨success, merged⟩ := result
  cases success with
  | true =>
    obtain rfl : merged = true := h rfl
    exact ⟨subset_cons_self .., fun _ _ => mem_cons_self, some_ne_none _ ∘ Eq.symm⟩
  | false =>
    refine ⟨?_, fun hnone => absurd hnone (some_ne_none _), by simp [Merges.settle]⟩
    cases merged with
    | true => exact subset_cons_self ..
    | false => exact List.Subset.refl _

lemma turnEnd_body (turn : Turn) (number : ℕ) (s : Merges) : TurnEnd turn number s (turn.body number s) := by
  have hends : ∀ (result : RunEnd) (s' : Merges), s'.merged = s.merged → result ≠ .returned true →
      TurnEnd turn number s (some result, s') := by
    intro result s' hs' hresult
    exact ⟨fun q hq => hs'.symm ▸ hq, fun h => absurd h (some_ne_none _), fun h => hresult (some.inj h)⟩
  rw [Turn.body]
  split_ifs with hfound
  · split
    · exact hends .raised s rfl (by decide)
    · next hmerged =>
      refine ⟨List.Subset.refl _, fun _ _ => ?_, some_ne_none _ ∘ Eq.symm⟩
      rw [Turn.isMerged] at hmerged
      cases hattribute : turn.mergedAttribute with
      | value u =>
        rw [hattribute] at hmerged
        exact of_decide_eq_true (Except.ok.inj hmerged)
      | missing | raises =>
        rw [hattribute] at hmerged
        cases hmerged
    · split
      · exact hends .raised s rfl (by decide)
      · exact hends (.returned false) _ rfl (by decide)
      · exact turnEnd_settle merged_of_success
  · exact ⟨List.Subset.refl _, fun _ h => absurd h hfound, some_ne_none _ ∘ Eq.symm⟩

lemma start_subset : s.merged ⊆ (turn.start s).merged := subset_append_right _ _

lemma mergeLoop_subset : s.merged ⊆ (mergeLoop rest s).2.merged := by
  induction rest generalizing s with
  | nil => exact List.Subset.refl _
  | cons x rest ih =>
    have hkeeps := List.Subset.trans start_subset (turnEnd_body x.2 x.1 (x.2.start s)).keeps
    rw [mergeLoop]
    cases hbody : x.2.body x.1 (x.2.start s) with
    | mk result s' =>
      rw [hbody] at hkeeps
      cases result with
      | none => exact List.Subset.trans hkeeps ih
      | some result => exact hkeeps

/-- The run goes on behind a PR that was found only if it is merged, and no merge is undone. -/
lemma sequential_foundOf {earlier} (hearlier : ∀ x ∈ foundOf earlier, x.1 ∈ s.merged) :
    Sequential foundOf earlier rest s := by
  induction rest generalizing earlier s with
  | nil => trivial
  | cons x rest ih =>
    have hend := turnEnd_body x.2 x.1 (x.2.start s)
    refine ⟨fun _ _ y hy => start_subset (hearlier y hy), fun hnext => ih fun y hy => ?_⟩
    obtain ⟨hmem, hfound⟩ := mem_filter.1 hy
    cases mem_cons.1 hmem with
    | inl he =>
      subst he
      exact hend.merged hnext hfound
    | inr hmem => exact hend.keeps (start_subset (hearlier y (mem_filter.2 ⟨hmem, hfound⟩)))

lemma merged_of_found (h : (mergeLoop rest s).1 = .returned true) {x} (hx : x ∈ rest)
    (hfound : x.2.found = true) : x.1 ∈ (mergeLoop rest s).2.merged := by
  induction rest generalizing s with
  | nil => cases hx
  | cons y rest ih =>
    rw [mergeLoop] at h ⊢
    have hend := turnEnd_body y.2 y.1 (y.2.start s)
    cases hbody : y.2.body y.1 (y.2.start s) with
    | mk result s' =>
      rw [hbody] at h hend
      cases result with
      | some result => exact absurd (congrArg some h) hend.last
      | none =>
        cases mem_cons.1 hx with
        | inl he => exact mergeLoop_subset (he ▸ hend.merged rfl (he ▸ hfound))
        | inr hmem => exact ih h hmem

end

/-- Python `AutoMergeHandler.run`: a PR is merged only behind merged PRs, and `True` means that all are merged,
but for those whose lookup failed: they are passed over. -/
theorem autoMergeRun_found (repo : Bool) (numbers : List ℕ) (client : ℕ → Turn) (s : Merges) :
    SequentialAndComplete foundOf foundOf repo numbers client s := by
  refine ⟨fun _ => sequential_foundOf (by simp [foundOf]), fun hreturned x hx => ?_⟩
  obtain ⟨hmem, hfound⟩ := mem_filter.1 hx
  cases repo with
  | false => cases hreturned
  | true => exact merged_of_found hreturned hmem hfound

/-- `get_pull` raises for the first PR and no other call fails. -/
def transientLookup (i : ℕ) : Turn := ⟨[], i != 0, .value (), .value .clean, .value .clean, fun _ => .returns⟩

/-- A lookup of the first request that fails once: the second one is merged before it, and the run returns. -/
theorem transientLookup_out_of_order :
    autoMergeRun true [1, 2] transientLookup ⟨[], 0, 0, 0⟩ = (.returned true, ⟨[2], 1, 0, 1⟩) ∧
      ¬ Sequential (take 1) [] (phaseA [1, 2] transientLookup) ⟨[], 0, 0, 0⟩ ∧
      ¬ SequentialAndComplete (take 1) id true [1, 2] transientLookup ⟨[], 0, 0, 0⟩ := by
  have hrun : autoMergeRun true [1, 2] transientLookup ⟨[], 0, 0, 0⟩ = (.returned true, ⟨[2], 1, 0, 1⟩) := by
    decide
  refine ⟨hrun, fun h => ?_, fun h => ?_⟩
  · exact absurd ((h.2 rfl).1 (by decide) (by decide) (1, transientLookup 0) mem_cons_self) (by decide)
  · exact absurd (h.2 (by rw [hrun]) (1, transientLookup 0) mem_cons_self) (by decide)

end SocioWorkspace.Scheduler
