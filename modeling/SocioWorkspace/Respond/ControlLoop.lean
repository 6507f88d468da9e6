import Mathlib.Algebra.Order.Ring.Rat
import Mathlib.Order.Hom.Basic
import Mathlib.Order.WithBot
import Mathlib.Tactic.Linarith

/-!
# The control loop

Model of `ControlLoop` of `automation/control_loop.py`. Errors are exact rationals or infinite. What `observe`
returns, or that it raises, is any sequence; so are the readings of the clock, which do not decrease. The trace
and its hash are left out.
-/

namespace SocioWorkspace.Respond

abbrev LoopError := WithBot (WithTop ℚ)

def LoopError.shift (q : ℚ) : LoopError → LoopError := WithBot.map (WithTop.map (· + q))

/-- Python `_EPS`. -/
def EPS : ℚ := 1 / 10 ^ 12

/-- A `ControlLoop` that can be constructed. -/
structure ControlLoop where
  maxIterations : ℕ
  deadline : WithTop ℚ
  target : LoopError
  patience : ℕ
  safeState : String
  bounded : 1 ≤ maxIterations
  timed : 0 < deadline
  patient : 1 ≤ patience

inductive LoopReason where
  | reached
  | exhausted
  | deadline
  | stuck
deriving DecidableEq

/-- The variables of the loop; `i` counts the actions. -/
structure LoopState where
  err : LoopError
  best : LoopError
  stall : ℕ
  i : ℕ

/-- Python `LoopResult`, with the number of actions. -/
structure LoopResult where
  converged : Bool
  iterations : ℕ
  initialError : LoopError
  finalError : LoopError
  failClosedState : Option String
  reason : LoopReason
  acts : ℕ

/-- Python `_observe`: an observation that raises is an infinite error. -/
def observed (observe : ℕ → Option LoopError) (n : ℕ) : LoopError := (observe n).getD ↑(⊤ : WithTop ℚ)

namespace ControlLoop
variable (c : ControlLoop) (observe : ℕ → Option LoopError) (clock : ℕ →o ℚ)

/-- Python `err <= self.target + _EPS`. -/
def reaches (err : LoopError) : Bool := err ≤ c.target.shift EPS

def checkRead (i : ℕ) : ℕ := 2 * i + 2

def turn (s : LoopState) : Except LoopReason LoopState :=
  if c.reaches s.err then .error .reached
  else if c.maxIterations ≤ s.i then .error .exhausted
  else if c.deadline < ↑(clock (checkRead s.i) - clock 0) then .error .deadline
  else if s.err < s.best.shift (-EPS) then .ok ⟨observed observe (s.i + 1), s.err, 0, s.i + 1⟩
  else if c.patience ≤ s.stall + 1 then .error .stuck
  else .ok ⟨observed observe (s.i + 1), s.best, s.stall + 1, s.i + 1⟩

def loop : ℕ → LoopState → Option (LoopReason × LoopState)
  | 0, _ => none
  | turns + 1, s =>
    match c.turn observe clock s with
    | .error reason => some (reason, s)
    | .ok s => loop turns s

/-- Python `ControlLoop.run`. -/
def run : Option LoopResult :=
  (c.loop observe clock (c.maxIterations + 1) ⟨observed observe 0, ↑(⊤ : WithTop ℚ), 0, 0⟩).map fun out =>
    { converged := c.reaches out.2.err
      iterations := out.2.i + 1
      initialError := observed observe 0
      finalError := out.2.err
      failClosedState := if c.reaches out.2.err then none else some c.safeState
      reason := out.1
      acts := out.2.i }

end ControlLoop

/-- The `n`th observation is less than the ones before it, and finite. -/
def Improves (observe : ℕ → Option LoopError) (n : ℕ) : Prop :=
  observed observe n < ↑(⊤ : WithTop ℚ) ∧ ∀ m < n, observed observe n < observed observe m

section
variable (c : ControlLoop) (observe : ℕ → Option LoopError) (clock : ℕ →o ℚ)

/-- The loop is bounded, honest and fail-closed. Action `j` starts after the observations up to `j` and the
reading `checkRead j` of the clock. -/
structure Controlled (r : LoopResult) : Prop where
  bounded : r.acts ≤ c.maxIterations
  timed : ∀ n, c.deadline < ↑(clock n - clock 0) → ∀ j < r.acts, ControlLoop.checkRead j < n
  patient : ∀ j < r.acts, ∀ start, start + c.patience ≤ j + 1 →
    ∃ n, start ≤ n ∧ n < start + c.patience ∧ Improves observe n
  last : r.finalError = observed observe r.acts
  honest : r.converged = true ↔ r.finalError ≤ c.target.shift EPS
  failClosed : r.failClosedState.isSome = true ↔ r.converged = false

/-- What the loop keeps. The observations before the last are no less than the best, up to the tolerance,
and `stall` of them came after the last improvement. -/
structure LoopInv (s : LoopState) : Prop where
  current : s.err = observed observe s.i
  bounded : s.i ≤ c.maxIterations
  timed : ∀ j < s.i, ↑(clock (ControlLoop.checkRead j) - clock 0) ≤ c.deadline
  near : ∀ m < s.i, s.best.shift (-EPS) ≤ observed observe m
  finite : s.best ≤ ↑(⊤ : WithTop ℚ)
  stall_le : s.stall ≤ s.i
  stall_lt : s.stall < c.patience
  recent : s.stall < s.i → Improves observe (s.i - 1 - s.stall)
  patient : ∀ start, start + c.patience ≤ s.i → ∃ n, start ≤ n ∧ n < start + c.patience ∧ Improves observe n

variable {c observe clock} {s s' : LoopState}

lemma shift_eps_le (e : LoopError) : e.shift (-EPS) ≤ e := by
  induction e using WithBot.recBotCoe with
  | bot => exact le_rfl
  | coe e =>
    induction e using WithTop.recTopCoe with
    | top => exact le_rfl
    | coe q =>
      have hq : q + -EPS ≤ q := by
        rw [EPS]
        norm_num
      exact WithBot.coe_le_coe.2 (WithTop.coe_le_coe.2 hq)

lemma turn_eq_ok (h : c.turn observe clock s = .ok s') :
    s.i < c.maxIterations ∧ ↑(clock (ControlLoop.checkRead s.i) - clock 0) ≤ c.deadline ∧
      ((s.err < s.best.shift (-EPS) ∧ s' = ⟨observed observe (s.i + 1), s.err, 0, s.i + 1⟩) ∨
        (s.best.shift (-EPS) ≤ s.err ∧ s.stall + 1 < c.patience ∧
          s' = ⟨observed observe (s.i + 1), s.best, s.stall + 1, s.i + 1⟩)) := by
  rw [ControlLoop.turn] at h
  split_ifs at h with hreached hexhausted hdeadline himproved hstuck
  · cases h
    exact ⟨not_le.1 hexhausted, not_lt.1 hdeadline, .inl ⟨himproved, rfl⟩⟩
  · cases h
    exact ⟨not_le.1 hexhausted, not_lt.1 hdeadline, .inr ⟨not_lt.1 himproved, not_le.1 hstuck, rfl⟩⟩

/-- An error below the best by more than the tolerance is below all that was observed. -/
lemma LoopInv.improves (inv : LoopInv c observe clock s) (h : s.err < s.best.shift (-EPS)) :
    Improves observe s.i := by
  rw [Improves, ← inv.current]
  exact ⟨h.trans_le ((shift_eps_le _).trans inv.finite), fun m hm => h.trans_le (inv.near m hm)⟩

lemma LoopInv.turn (inv : LoopInv c observe clock s) (h : c.turn observe clock s = .ok s') :
    LoopInv c observe clock s' ∧ s'.i = s.i + 1 := by
  obtain ⟨hbounded, htimed, h⟩ := turn_eq_ok h
  have hpassed : ∀ j < s.i + 1, ↑(clock (ControlLoop.checkRead j) - clock 0) ≤ c.deadline := by
    intro j hj
    rcases Nat.lt_succ_iff_lt_or_eq.1 hj with hj | rfl
    · exact inv.timed j hj
    · exact htimed
  rcases h with ⟨himproved, rfl⟩ | ⟨hnear, hstall, rfl⟩
  · -- The last observation is the best one, and it ends every window that was not complete before.
    have himproves := inv.improves himproved
    refine ⟨⟨rfl, hbounded, hpassed, fun m hm => ?_, ?_, Nat.zero_le _, c.patient, fun _ => himproves, ?_⟩, rfl⟩
    · rcases Nat.lt_succ_iff_lt_or_eq.1 hm with hm | rfl
      · exact ((shift_eps_le _).trans himproved.le).trans (inv.near m hm)
      · exact (shift_eps_le _).trans inv.current.le
    · exact inv.current ▸ himproves.1.le
    · intro start hstart
      rcases Nat.le_succ_iff.1 hstart with hle | heq
      · exact inv.patient start hle
      · have hpatience := c.patient
        exact ⟨s.i, by omega, by omega, himproves⟩
  · have hrecent : s.stall + 1 < s.i + 1 → Improves observe (s.i + 1 - 1 - (s.stall + 1)) := by
      intro hlt
      have himproves := inv.recent (by omega)
      rwa [show s.i + 1 - 1 - (s.stall + 1) = s.i - 1 - s.stall by omega]
    refine ⟨⟨rfl, hbounded, hpassed, fun m hm => ?_, inv.finite, Nat.succ_le_succ inv.stall_le, hstall, hrecent,
      fun start hstart => ?_⟩, rfl⟩
    · rcases Nat.lt_succ_iff_lt_or_eq.1 hm with hm | rfl
      · exact inv.near m hm
      · exact hnear.trans inv.current.le
    · rcases Nat.le_succ_iff.1 hstart with hle | heq
      · exact inv.patient start hle
      · -- The last improvement is in the window, as fewer observations than that came after it.
        have hle := inv.stall_le
        exact ⟨s.i - 1 - s.stall, by omega, by omega, inv.recent (by omega)⟩

lemma loop_ends {turns} (inv : LoopInv c observe clock s) (hturns : c.maxIterations < s.i + turns) :
    ∃ reason s', c.loop observe clock turns s = some (reason, s') ∧ LoopInv c observe clock s' := by
  induction turns generalizing s with
  | zero => exact absurd inv.bounded (by omega)
  | succ turns ih =>
    rw [ControlLoop.loop]
    cases hturn : c.turn observe clock s with
    | error reason => exact ⟨reason, s, rfl, inv⟩
    | ok s' =>
      obtain ⟨inv', hi⟩ := inv.turn hturn
      exact ih inv' (by omega)

lemma LoopInv.start : LoopInv c observe clock ⟨observed observe 0, ↑(⊤ : WithTop ℚ), 0, 0⟩ := by
  refine ⟨rfl, Nat.zero_le _, by simp, by simp, le_rfl, le_rfl, c.patient, by simp, fun start hstart => ?_⟩
  have hpatience := c.patient
  dsimp only at hstart
  omega

lemma run_ends (c : ControlLoop) (observe clock) :
    ∃ r, c.run observe clock = some r ∧ r.acts ≤ c.maxIterations := by
  obtain ⟨reason, s, hloop, inv⟩ := @loop_ends c observe clock _ (c.maxIterations + 1) .start
    (by dsimp only; omega)
  rw [ControlLoop.run, hloop]
  exact ⟨_, rfl, inv.bounded⟩

end

/-- Every run of a control loop returns, and it is bounded, honest and fail-closed. -/
theorem controlLoop_controlled (c : ControlLoop) (observe : ℕ → Option LoopError) (clock : ℕ →o ℚ) :
    ∃ r, c.run observe clock = some r ∧ Controlled c observe clock r := by
  obtain ⟨reason, s, hloop, inv⟩ := @loop_ends c observe clock _ (c.maxIterations + 1) .start
    (by dsimp only; omega)
  rw [ControlLoop.run, hloop]
  refine ⟨_, rfl, inv.bounded, fun n hn j hj => ?_, fun j hj start hstart => ?_, inv.current, ?_, ?_⟩
  · -- A reading that comes before the action is no later than the one that was checked.
    by_contra hle
    have hread : (clock n - clock 0 : ℚ) ≤ clock (ControlLoop.checkRead j) - clock 0 :=
      sub_le_sub_right (clock.monotone (not_lt.1 hle)) _
    exact absurd ((WithTop.coe_le_coe.2 hread).trans (inv.timed j hj)) (not_le.2 hn)
  · exact inv.patient start (hstart.trans hj)
  · exact decide_eq_true_iff
  · dsimp only
    cases c.reaches s.err <;> simp

end SocioWorkspace.Respond
