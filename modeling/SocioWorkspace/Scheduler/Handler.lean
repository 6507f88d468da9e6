import Mathlib.Data.List.Basic
import Mathlib.Data.String.Basic

/-!
# Propagation to the dependents

Model of `handle` and `_propagate_to` of `automation/propagation_handler.py`. What the orchestrator does for a
dependent is a `Behaviour`: each step and each rollback returns `True` or `False` or raises. Of the event log
the success and the failure of a propagation are kept.
-/

namespace SocioWorkspace.Handler
open List

inductive ChangeType where
  | code
  | deps
  | contracts
deriving DecidableEq

/-- Python `_classify_change` of the changed files. -/
def classifyChange (lower : List Char → List Char) (changedFiles : List String) : ChangeType :=
  let paths := lower ([' '].intercalate (changedFiles.map String.toList))
  let mentions (kw : String) : Bool := paths.tails.any kw.toList.isPrefixOf
  if ["contract", "api", "schema", "spec"].any mentions then .contracts
  else if ["requirements", "package.json", "go.mod", "deps"].any mentions then .deps
  else .code

/-- How a call of the orchestrator ends: `exited` stands for an exception that is not an `Exception`. -/
inductive CallEnd where
  | succeeded
  | failed
  | raised
  | exited
deriving DecidableEq

def CallEnd.escapes : CallEnd → Bool
  | .succeeded => false
  | .failed => false
  | .raised => true
  | .exited => true

inductive HandlerStep where
  | rebuild
  | test
  | deployStaging
  | deployProd
deriving DecidableEq

def ChangeType.steps : ChangeType → List HandlerStep
  | .code => [.rebuild]
  | .deps => [.rebuild, .test]
  | .contracts => [.rebuild, .test, .deployStaging, .deployProd]

def HandlerStep.checked : HandlerStep → Bool
  | .rebuild => false
  | .test => true
  | .deployStaging => true
  | .deployProd => false

structure Behaviour where
  acquired : Bool
  result : HandlerStep → CallEnd
  rollback : ℕ → CallEnd

inductive Happening where
  | ran (step : HandlerStep) (result : CallEnd)
  | rolledBack (result : CallEnd)
  | success
  | failure
deriving DecidableEq

section
variable (b : Behaviour)

/-- The body of the `try` up to the first step that stops it, and how it ends. -/
def runSteps : List HandlerStep → List Happening × CallEnd
  | [] => ([], .succeeded)
  | step :: steps =>
    if (b.result step).escapes || b.result step == .failed && step.checked then
      ([.ran step (b.result step)], b.result step)
    else
      (.ran step (b.result step) :: (runSteps steps).1, (runSteps steps).2)

/-- The `except` block, with the call of the rollback that is made there. -/
def handleFailure (call : ℕ) : List Happening × Bool :=
  ([.failure, .rolledBack (b.rollback call)], (b.rollback call).escapes)

def conclude : CallEnd → List Happening × Bool
  | .succeeded => ([.success], false)
  | .failed =>
    if b.rollback 0 = .raised then
      (.rolledBack .raised :: (handleFailure b 1).1, (handleFailure b 1).2)
    else
      ([.rolledBack (b.rollback 0)], (b.rollback 0).escapes)
  | .raised => handleFailure b 0
  | .exited => ([], true)

def propagation (steps : List HandlerStep) : List Happening :=
  (runSteps b steps).1 ++ (conclude b (runSteps b steps).2).1

/-- Python `PropagationHandler._propagate_to`. -/
def propagateTo (change : ChangeType) : List Happening × Bool :=
  if b.acquired then (propagation b change.steps, (conclude b (runSteps b change.steps).2).2) else ([], false)

/-- The loop of `handle`: what happens to the dependents it comes to, and whether an exception gets out. -/
def handleAll (change : ChangeType) : List (String × Behaviour) → List (String × List Happening) × Bool
  | [] => ([], false)
  | (dependent, b) :: rest =>
    if (propagateTo b change).2 then ([(dependent, (propagateTo b change).1)], true)
    else ((dependent, (propagateTo b change).1) :: (handleAll change rest).1, (handleAll change rest).2)

def dependentsWith (registry : String → Option (List String)) (repo : String) (behaviour : ℕ → Behaviour) :
    List (String × Behaviour) :=
  ((registry repo).getD []).zipIdx.map fun x => (x.1, behaviour x.2)

/-- Python `handle` of a push event. -/
def handle (lower : List Char → List Char) (registry : String → Option (List String)) (repo : String)
    (changedFiles : List String) (behaviour : ℕ → Behaviour) : List (String × List Happening) × Bool :=
  handleAll (classifyChange lower changedFiles) (dependentsWith registry repo behaviour)

/-- After a step that fails no step runs, there is a rollback and no success. -/
def FailsSafely (t : List Happening) : Prop :=
  ∀ before step result after, t = before ++ .ran step result :: after → result ≠ .succeeded →
    (∀ s r, .ran s r ∉ after) ∧ (∃ r, .rolledBack r ∈ after) ∧ .success ∉ t

/-- All dependents are processed, and their failures are rolled back. -/
def RollsBack (dependents : List (String × Behaviour)) (out : List (String × List Happening) × Bool) : Prop :=
  (∀ x ∈ out.1, FailsSafely x.2) ∧ out.1.map Prod.fst = dependents.map Prod.fst

/-- No step raises anything but an `Exception`, and none whose result is not looked at fails. -/
def Heeded (b : Behaviour) : List HandlerStep → Prop
  | [] => True
  | step :: steps =>
    b.result step ≠ .exited ∧ (b.result step = .failed → step.checked = true) ∧
      (b.result step = .succeeded → Heeded b steps)

/-- The rollback of the first step that fails raises, and where it was called for a result that is `False`, so
does the one in the `except` block. -/
def Unrolled (b : Behaviour) : List HandlerStep → Prop
  | [] => False
  | step :: steps =>
    match b.result step with
    | .succeeded => Unrolled b steps
    | .failed =>
      if step.checked then
        b.rollback 0 = .exited ∨ b.rollback 0 = .raised ∧ (b.rollback 1).escapes = true
      else Unrolled b steps
    | .raised => (b.rollback 0).escapes = true
    | .exited => True

/-- Every dependent that is come to fails as `Heeded` says, and only the last one is `Unrolled`. -/
def Absorbed (change : ChangeType) : List (String × Behaviour) → Prop
  | [] => True
  | (_, b) :: rest =>
    (b.acquired = true → Heeded b change.steps) ∧
      (b.acquired = true ∧ Unrolled b change.steps → rest = []) ∧
      (¬(b.acquired = true ∧ Unrolled b change.steps) → Absorbed change rest)

variable {b} {t : List Happening} {steps : List HandlerStep} {change : ChangeType}

lemma failsSafely_of_no_steps (h : ∀ s r, .ran s r ∉ t) : FailsSafely t := by
  intro before step result after ht _
  exact absurd (ht ▸ mem_append_right before mem_cons_self) (h step result)

lemma failsSafely_cons {step result} :
    FailsSafely (.ran step result :: t) ↔
      (result ≠ .succeeded → (∀ s r, .ran s r ∉ t) ∧ (∃ r, .rolledBack r ∈ t) ∧ .success ∉ t) ∧
        FailsSafely t := by
  constructor
  · intro h
    refine ⟨fun hresult => ?_, fun before s r after ht hr => ?_⟩
    · obtain ⟨hran, hback, hsuccess⟩ := h [] step result t rfl hresult
      exact ⟨hran, hback, fun hmem => hsuccess (mem_cons_of_mem _ hmem)⟩
    · obtain ⟨hran, hback, hsuccess⟩ := h (.ran step result :: before) s r after (by rw [ht]; rfl) hr
      exact ⟨hran, hback, fun hmem => hsuccess (mem_cons_of_mem _ hmem)⟩
  · rintro ⟨hfirst, hrest⟩ before s r after ht hr
    cases before with
    | nil =>
      cases ht
      obtain ⟨hran, hback, hsuccess⟩ := hfirst hr
      exact ⟨hran, hback, fun hmem => hsuccess (by simpa using hmem)⟩
    | cons x before =>
      rw [cons_append, List.cons.injEq] at ht
      obtain ⟨hran, hback, hsuccess⟩ := hrest before s r after ht.2 hr
      exact ⟨hran, hback, fun hmem => hsuccess (by simpa using hmem)⟩

/-- A step that stops the others is followed by a rollback, unless it exits. -/
lemma failsSafely_stopped {step result} (hresult : result ≠ .succeeded) :
    FailsSafely (.ran step result :: (conclude b result).1) ↔ result ≠ .exited := by
  rw [failsSafely_cons]
  have hback : result ≠ .exited → (∀ s r, .ran s r ∉ (conclude b result).1) ∧
      (∃ r, .rolledBack r ∈ (conclude b result).1) ∧ .success ∉ (conclude b result).1 := by
    intro hexited
    cases result with
    | succeeded => exact absurd rfl hresult
    | failed =>
      rw [conclude]
      split_ifs <;> simp [handleFailure]
    | raised => simp [conclude, handleFailure]
    | exited => exact absurd rfl hexited
  refine ⟨fun h hexited => ?_, fun h => ⟨fun _ => hback h, failsSafely_of_no_steps (hback h).1⟩⟩
  obtain ⟨-, ⟨r, hr⟩, -⟩ := h.1 hresult
  rw [hexited] at hr
  cases hr

lemma goes_on (b : Behaviour) (steps : List HandlerStep) :
    (∃ s r, .ran s r ∈ propagation b steps) ∨ .success ∈ propagation b steps := by
  cases steps with
  | nil => exact .inr mem_cons_self
  | cons step steps =>
    refine .inl ⟨step, b.result step, ?_⟩
    rw [propagation, runSteps]
    split_ifs <;> simp

lemma failsSafely_propagation : FailsSafely (propagation b steps) ↔ Heeded b steps := by
  induction steps with
  | nil => exact iff_of_true (failsSafely_of_no_steps (by simp [propagation, runSteps, conclude])) trivial
  | cons step steps ih =>
    rw [propagation, runSteps, Heeded]
    cases hresult : b.result step with
    | succeeded =>
      rw [if_neg (by simp [CallEnd.escapes])]
      rw [cons_append, failsSafely_cons]
      simp only [ne_eq, not_true_eq_false, false_implies, true_and, reduceCtorEq, not_false_eq_true, true_implies]
      exact ih
    | failed =>
      cases hchecked : step.checked with
      | true =>
        rw [if_pos (by simp)]
        refine (failsSafely_stopped (by decide)).trans (iff_of_true (by decide) ?_)
        exact ⟨by decide, fun _ => rfl, fun h => absurd h (by decide)⟩
      | false =>
        rw [if_neg (by simp [CallEnd.escapes]), cons_append, failsSafely_cons]
        refine iff_of_false (fun h => ?_) fun h => absurd (h.2.1 rfl) Bool.false_ne_true
        obtain ⟨hran, -, hsuccess⟩ := h.1 (by decide)
        obtain ⟨s, r, hmem⟩ | hmem := goes_on b steps
        · exact hran s r hmem
        · exact hsuccess hmem
    | raised =>
      rw [if_pos (by simp [CallEnd.escapes])]
      refine (failsSafely_stopped (by decide)).trans (iff_of_true (by decide) ?_)
      exact ⟨by decide, fun h => absurd h (by decide), fun h => absurd h (by decide)⟩
    | exited =>
      rw [if_pos (by simp [CallEnd.escapes])]
      exact (failsSafely_stopped (by decide)).trans (iff_of_false (by decide) fun h => h.1 rfl)

lemma failsSafely_propagateTo :
    FailsSafely (propagateTo b change).1 ↔ (b.acquired = true → Heeded b change.steps) := by
  rw [propagateTo]
  split_ifs with hacquired
  · rw [failsSafely_propagation]
    exact ⟨fun h _ => h, fun h => h hacquired⟩
  · exact iff_of_true (failsSafely_of_no_steps (by simp)) fun h => absurd h hacquired

lemma conclude_escapes : (conclude b (runSteps b steps).2).2 = true ↔ Unrolled b steps := by
  induction steps with
  | nil => simp [runSteps, conclude, Unrolled]
  | cons step steps ih =>
    rw [runSteps, Unrolled]
    cases hresult : b.result step with
    | succeeded => simpa [CallEnd.escapes] using ih
    | failed =>
      cases hchecked : step.checked with
      | true =>
        cases hback : b.rollback 0 with
        | succeeded | failed | raised | exited => simp [conclude, handleFailure, CallEnd.escapes, hback]
      | false => simpa [CallEnd.escapes] using ih
    | raised => simp [CallEnd.escapes, conclude, handleFailure]
    | exited => simp [CallEnd.escapes, conclude]

lemma propagateTo_escapes :
    (propagateTo b change).2 = true ↔ b.acquired = true ∧ Unrolled b change.steps := by
  rw [propagateTo]
  split_ifs with hacquired
  · rw [and_iff_right hacquired]
    exact conclude_escapes
  · simp [hacquired]

lemma rollsBack_handleAll (dependents : List (String × Behaviour)) :
    RollsBack dependents (handleAll change dependents) ↔ Absorbed change dependents := by
  induction dependents with
  | nil => exact iff_of_true ⟨by simp [handleAll], rfl⟩ trivial
  | cons x rest ih =>
    obtain ⟨dependent, b⟩ := x
    rw [RollsBack, handleAll, Absorbed, ← propagateTo_escapes, ← ih]
    cases hescapes : (propagateTo b change).2 with
    | true =>
      rw [if_pos rfl, forall_mem_singleton, failsSafely_propagateTo]
      refine and_congr_right fun _ => ?_
      rw [map_singleton, map_cons, List.cons.injEq, eq_comm (a := []), map_eq_nil_iff, and_iff_right rfl]
      exact ⟨fun h => ⟨fun _ => h, fun hn => absurd rfl hn⟩, fun h => h.1 rfl⟩
    | false =>
      rw [if_neg Bool.false_ne_true, forall_mem_cons, failsSafely_propagateTo, map_cons, map_cons,
        List.cons.injEq, and_iff_right rfl, and_assoc]
      refine and_congr_right fun _ => ?_
      exact ⟨fun h => ⟨fun ht => absurd ht Bool.false_ne_true, fun _ => h⟩, fun h => h.2 Bool.false_ne_true⟩

end

/-- Failures are rolled back and every dependent is processed exactly if no failure is overlooked and no
exception gets past a dependent that others come after. -/
theorem handle_rollsBack_iff (lower : List Char → List Char) (registry : String → Option (List String))
    (repo : String) (changedFiles : List String) (behaviour : ℕ → Behaviour) :
    RollsBack (dependentsWith registry repo behaviour) (handle lower registry repo changedFiles behaviour) ↔
      Absorbed (classifyChange lower changedFiles) (dependentsWith registry repo behaviour) :=
  rollsBack_handleAll _

/-- A rebuild that fails is taken for a success, and a rollback that raises leaves the next dependent out. -/
theorem rebuild_failure_overlooked :
    handle id (fun _ => some ["a"]) "r" ["x.py"] (fun _ => ⟨true, fun _ => .failed, fun _ => .succeeded⟩) =
        ([("a", [.ran .rebuild .failed, .success])], false) ∧
      handle id (fun _ => some ["a", "b"]) "r" ["x.py"]
          (fun _ => ⟨true, fun _ => .raised, fun _ => .raised⟩) =
        ([("a", [.ran .rebuild .raised, .failure, .rolledBack .raised])], true) ∧
      ¬ RollsBack
        (dependentsWith (fun _ => some ["a"]) "r" fun _ => ⟨true, fun _ => .failed, fun _ => .succeeded⟩)
        (handle id (fun _ => some ["a"]) "r" ["x.py"] fun _ => ⟨true, fun _ => .failed, fun _ => .succeeded⟩) := by
  have hrun : handle id (fun _ => some ["a"]) "r" ["x.py"]
      (fun _ => ⟨true, fun _ => .failed, fun _ => .succeeded⟩) =
        ([("a", [.ran .rebuild .failed, .success])], false) := by
    decide +kernel
  refine ⟨hrun, by decide +kernel, fun h => ?_⟩
  rw [hrun] at h
  obtain ⟨-, ⟨r, hr⟩, -⟩ := h.1 _ mem_cons_self [] _ _ _ rfl (by decide)
  simp at hr

end SocioWorkspace.Handler
