import Mathlib.Data.List.Basic

/-!
# A run of the detectors

Model of `run_detectors` of `automation/detectors.py`. A detector is called with the paths; a `TypeError` is
answered by a call without arguments. Any other exception ends the run, and so does a beacon that cannot be
stamped or written.
-/

namespace SocioWorkspace.Respond
open List

inductive DetectorError where
  | type
  | other
deriving DecidableEq

inductive Ending (B : Type) where
  | nothing
  | beacon (b : B)
  | beacons (bs : List B)
  | raised (e : DetectorError)
deriving DecidableEq

/-- A detector: the call with the paths and the call without arguments, `none` if the signature does not
take the arguments. -/
structure Detector (B : Type) where
  withPaths : Option (Ending B)
  withNone : Option (Ending B)

/-- What a run leaves: the inbox, how often each body was executed, and whether something was raised. -/
structure DetectorRun (S : Type) where
  inbox : List S
  executions : List ℕ
  raised : Bool
deriving DecidableEq

section
variable {B S : Type}

def Ending.emitted : Ending B → List B
  | .nothing => []
  | .beacon b => [b]
  | .beacons bs => bs
  | .raised _ => []

def Ending.isRaised : Ending B → Bool
  | .raised _ => true
  | _ => false

namespace Detector
variable (d : Detector B)

def again : Ending B := d.withNone.getD (.raised .type)

def call : Ending B :=
  match d.withPaths with
  | none => d.again
  | some (.raised .type) => d.again
  | some ending => ending

def executions : ℕ :=
  match d.withPaths with
  | none => d.withNone.toList.length
  | some (.raised .type) => 1 + d.withNone.toList.length
  | some _ => 1

/-- The body raises a `TypeError` and can be called without arguments. -/
def RunsTwice : Prop := d.withPaths = some (.raised .type) ∧ d.withNone.isSome

lemma executions_le_one : d.executions ≤ 1 ↔ ¬ d.RunsTwice := by
  obtain ⟨first, second⟩ := d
  rw [RunsTwice, executions]
  cases second <;> cases first with
  | none => simp
  | some ending =>
    cases ending with
    | raised e => cases e <;> simp
    | _ => simp

end Detector

variable (put : B → Option S)

def putAll : List B → List S × Bool
  | [] => ([], false)
  | b :: bs =>
    match put b with
    | none => ([], true)
    | some s => ((s :: (putAll bs).1), (putAll bs).2)

/-- Python `run_detectors`. -/
def runDetectors : List (Detector B) → DetectorRun S
  | [] => ⟨[], [], false⟩
  | d :: ds =>
    if d.call.isRaised then ⟨[], [d.executions], true⟩
    else if (putAll put d.call.emitted).2 then ⟨(putAll put d.call.emitted).1, [d.executions], true⟩
    else ⟨(putAll put d.call.emitted).1 ++ (runDetectors ds).inbox, d.executions :: (runDetectors ds).executions,
      (runDetectors ds).raised⟩

/-- Every beacon that a detector returns is in the inbox, and no body is executed twice. -/
def Isolated (ds : List (Detector B)) : Prop :=
  (runDetectors put ds).inbox.map some = (ds.flatMap (·.call.emitted)).map put ∧
    ∀ n ∈ (runDetectors put ds).executions, n ≤ 1

/-- Every detector executes its body once and returns what can be written, or it raises and those after it
have no beacon. -/
def Contained : List (Detector B) → Prop
  | [] => True
  | d :: ds =>
    ¬ d.RunsTwice ∧ if d.call.isRaised then ∀ c ∈ ds, c.call.emitted = [] else
      (∀ b ∈ d.call.emitted, put b ≠ none) ∧ Contained ds

variable {put}

lemma putAll_raises {bs} : (putAll put bs).2 = true ↔ ∃ b ∈ bs, put b = none := by
  induction bs with
  | nil => simp [putAll]
  | cons b bs ih =>
    rw [putAll, exists_mem_cons_iff, ← ih]
    cases put b <;> simp

lemma putAll_stored {bs} (h : (putAll put bs).2 = false) : (putAll put bs).1.map some = bs.map put := by
  induction bs with
  | nil => rfl
  | cons b bs ih =>
    rw [putAll] at h ⊢
    cases hb : put b with
    | none =>
      rw [hb] at h
      cases h
    | some s =>
      rw [hb] at h
      rw [map_cons, map_cons, ih h, hb]

end

/-- The detectors are isolated exactly if none executes its body twice, all beacons can be written, and what
raises has no beacons behind it. -/
theorem isolated_iff {B S : Type} (put : B → Option S) (ds : List (Detector B)) :
    Isolated put ds ↔ Contained put ds := by
  induction ds with
  | nil => exact iff_of_true ⟨rfl, by simp [runDetectors]⟩ trivial
  | cons d ds ih =>
    rw [Contained, Isolated, runDetectors, flatMap_cons, map_append]
    cases hraised : d.call.isRaised with
    | true =>
      have hnone : d.call.emitted = [] := by
        cases hcall : d.call with
        | raised e => rfl
        | _ =>
          rw [hcall] at hraised
          cases hraised
      rw [if_pos rfl, if_pos rfl, forall_mem_singleton, d.executions_le_one, hnone, and_comm, map_nil,
        map_nil, nil_append, eq_comm, map_eq_nil_iff, flatMap_eq_nil_iff]
    | false =>
      rw [if_neg Bool.false_ne_true, if_neg Bool.false_ne_true]
      cases hput : (putAll put d.call.emitted).2 with
      | true =>
        -- A beacon that is not written is missing.
        obtain ⟨b, hb, hnone⟩ := putAll_raises.1 hput
        refine iff_of_false (fun h => ?_) fun h => h.2.1 b hb hnone
        have hmem : none ∈ (d.call.emitted.map put) ++ (ds.flatMap (·.call.emitted)).map put :=
          mem_append_left _ (mem_map.2 ⟨b, hb, hnone⟩)
        rw [← h.1] at hmem
        simp at hmem
      | false =>
        have hwritten : ∀ b ∈ d.call.emitted, put b ≠ none := by
          intro b hb hnone
          rw [putAll_raises.2 ⟨b, hb, hnone⟩] at hput
          cases hput
        rw [if_neg Bool.false_ne_true, map_append, putAll_stored hput, append_right_inj,
          forall_mem_cons, d.executions_le_one, ← ih, Isolated]
        exact ⟨fun h => ⟨h.2.1, hwritten, h.1, h.2.2⟩, fun h => ⟨h.2.2.1, h.1, h.2.2.2⟩⟩

/-- The beacon behind a detector that raises is lost, and a `TypeError` in a body executes it twice. -/
theorem detectors_not_isolated :
    runDetectors some [⟨some (.raised .other), none⟩, ⟨some (.beacon "drift"), none⟩] = ⟨[], [1], true⟩ ∧
      ¬ Isolated some [⟨some (.raised .other), none⟩, ⟨some (.beacon "drift"), none⟩] ∧
      ¬ Isolated (some : String → Option String) [⟨some (.raised .type), some .nothing⟩] := by
  refine ⟨by decide, fun h => ?_, fun h => ?_⟩
  · exact absurd h.1 (by decide)
  · exact absurd h.2 (by decide)

end SocioWorkspace.Respond
