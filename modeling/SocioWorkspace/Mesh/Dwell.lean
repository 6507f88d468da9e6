import Mathlib.Data.List.Induction
import SocioWorkspace.Mesh.Threat

/-!
# The dwell before a lower level

Runs of `step` of `automation/mesh_threat.py` from a state without a calm streak. The streak counts
the cycles below the level in force, and the level drops to the raw level of the last one of them.

`streak_step` is the step and `streak_run` the induction over the cycles, from which `dwell_law_iff` and
`level_in_force` follow.
-/

namespace SocioWorkspace.Mesh
open List

def recent {α : Type} (n : ℕ) (past : List α) : List α := past.drop (past.length - n)

variable {α : Type}

lemma recent_zero (past : List α) : recent 0 past = [] := by
  rw [recent, Nat.sub_zero, drop_length]

structure Cycle (F : Type) where
  reports : List (VantageReport F)
  quorum : ℤ

section
variable {F : Type} [LE F] [DecidableLE F] [Add F] [Div F] [Zero F] [One F] [OfNat F 2]
  (fixed2 : F → String) (policy : ThreatPolicy F)

def Cycle.raw (c : Cycle F) : Level := rawLevel (aggregateVantages c.reports c.quorum) policy

section
variable (s : MeshThreatState)

def advance (c : Cycle F) : MeshThreatState := (step fixed2 c.reports s policy c.quorum).1

def run (cycles : List (Cycle F)) : MeshThreatState := cycles.foldl (advance fixed2 policy) s

/-- Whenever a cycle lowers the level, the raw levels of this cycle and of the dwell before it were at most
the new level. -/
def DwellLaw (cycles : List (Cycle F)) : Prop :=
  ∀ past c rest, cycles = past ++ c :: rest →
    (run fixed2 policy s (past ++ [c])).level < (run fixed2 policy s past).level →
    policy.deescalateDwell.toNat ≤ past.length ∧
    ∀ c' ∈ recent policy.deescalateDwell.toNat past ++ [c],
      c'.raw policy ≤ (run fixed2 policy s (past ++ [c])).level

/-- Where the level is hostile and the streak has reached the dwell, a calm cycle has no elevated cycle in the
dwell before it. -/
def NoElevatedSkipped (cycles : List (Cycle F)) : Prop :=
  ∀ past c rest, cycles = past ++ c :: rest →
    (run fixed2 policy s past).level = .hostile →
    policy.deescalateDwell ≤ (run fixed2 policy s past).calmDwell → c.raw policy = .calm →
    ∀ c' ∈ recent policy.deescalateDwell.toNat past, c'.raw policy ≠ .elevated

/-- The streak of a state counts the last cycles, and all of them were below the level in force. -/
structure Streak (past : List (Cycle F)) : Prop where
  nonneg : 0 ≤ s.calmDwell
  length : s.calmDwell.toNat ≤ past.length
  below : ∀ c ∈ recent s.calmDwell.toNat past, c.raw policy < s.level

end

variable {fixed2 policy} {s : MeshThreatState} {past : List (Cycle F)} {c : Cycle F}

lemma Streak.zero (h : s.calmDwell = 0) (past : List (Cycle F)) : Streak policy s past := by
  refine ⟨h.ge, ?_, ?_⟩
  · rw [h]
    exact Nat.zero_le _
  · rw [h, Int.toNat_zero, recent_zero]
    exact fun c hc => absurd hc not_mem_nil

lemma streak_step (h : Streak policy s past) : Streak policy (advance fixed2 policy s c) (past ++ [c]) := by
  rw [advance, step_state]
  simp only
  split_ifs with hup hdown hdwell
  · exact .zero rfl _
  · exact .zero rfl _
  · have hnext : (s.calmDwell + 1).toNat = s.calmDwell.toNat + 1 := Int.toNat_add h.nonneg Int.one_nonneg
    refine ⟨Int.add_nonneg h.nonneg Int.one_nonneg, ?_, ?_⟩
    · rw [hnext, length_append, length_singleton]
      exact Nat.succ_le_succ h.length
    · intro c' hc'
      rw [hnext, recent, length_append, length_singleton, Nat.add_sub_add_right,
        drop_append_of_le_length (Nat.sub_le _ _)] at hc'
      cases mem_append.1 hc' with
      | inl hpast => exact h.below c' hpast
      | inr hlast =>
        rw [mem_singleton.1 hlast]
        exact hdown
  · exact .zero rfl _

lemma run_append_singleton :
    run fixed2 policy s (past ++ [c]) = advance fixed2 policy (run fixed2 policy s past) c := by
  rw [run, foldl_append]
  rfl

lemma streak_run (h0 : s.calmDwell = 0) (past : List (Cycle F)) :
    Streak policy (run fixed2 policy s past) past := by
  induction past using List.reverseRecOn with
  | nil => exact .zero h0 []
  | append_singleton past c ih =>
    rw [run_append_singleton]
    exact streak_step ih

/-- A drop is to the raw level of its cycle, after a dwell of cycles below the level that was in
force. -/
lemma dwell_of_lowered (h0 : s.calmDwell = 0)
    (hlow : (run fixed2 policy s (past ++ [c])).level < (run fixed2 policy s past).level) :
    (run fixed2 policy s (past ++ [c])).level = c.raw policy ∧
    policy.deescalateDwell.toNat ≤ past.length ∧
    ∀ c' ∈ recent policy.deescalateDwell.toNat past, c'.raw policy < (run fixed2 policy s past).level := by
  have hstreak : Streak policy (run fixed2 policy s past) past := streak_run h0 past
  rw [run_append_singleton, advance, step_state] at hlow ⊢
  simp only at hlow ⊢
  split_ifs at hlow ⊢ with hup hdown hdwell
  · exact absurd (hlow.trans hup) (lt_irrefl _)
  · have hle := Int.toNat_le_toNat hdwell
    refine ⟨rfl, hle.trans hstreak.length, fun c' hc' => hstreak.below c' ?_⟩
    exact drop_subset_drop_left past (Nat.sub_le_sub_left hle past.length) hc'
  · exact absurd hlow (lt_irrefl _)
  · exact absurd hlow (lt_irrefl _)

/-- Below the level in force a cycle is at most at the new level, unless it is elevated in a drop from
hostile to calm. -/
lemma le_of_lt_of_lt {raw new old : Level} (hraw : raw < old) (hnew : new < old)
    (hskip : old = .hostile → new = .calm → raw ≠ .elevated) : raw ≤ new := by
  cases old with
  | calm => exact absurd hraw (not_lt.2 raw.calm_le)
  | elevated =>
    cases raw with
    | calm => exact new.calm_le
    | elevated => exact absurd hraw (lt_irrefl _)
    | hostile => exact absurd hraw (by decide)
  | hostile =>
    cases raw with
    | calm => exact new.calm_le
    | hostile => exact absurd hraw (lt_irrefl _)
    | elevated =>
      cases new with
      | calm => exact absurd rfl (hskip rfl rfl)
      | elevated => exact le_rfl
      | hostile => exact absurd hnew (lt_irrefl _)

/-- The level falls from hostile to calm in a calm cycle after the dwell. -/
lemma hostile_to_calm_iff (hhostile : (run fixed2 policy s past).level = .hostile) :
    (run fixed2 policy s (past ++ [c])).level = .calm ↔
      policy.deescalateDwell ≤ (run fixed2 policy s past).calmDwell ∧ c.raw policy = .calm := by
  rw [run_append_singleton, advance, step_state, Cycle.raw, hhostile]
  generalize rawLevel (aggregateVantages c.reports c.quorum) policy = raw
  simp only
  split_ifs with hup hdown hdwell
  · exact absurd hup (by cases raw <;> decide)
  · exact (and_iff_right hdwell).symm
  · exact iff_of_false (by decide) fun h => hdwell h.1
  · refine iff_of_false (by decide) fun h => hdown ?_
    rw [h.2]
    decide

/-- The law of the dwell holds just when no drop from hostile to calm has an elevated cycle in its
dwell. -/
theorem dwell_law_iff (h0 : s.calmDwell = 0) (cycles : List (Cycle F)) :
    DwellLaw fixed2 policy s cycles ↔ NoElevatedSkipped fixed2 policy s cycles := by
  constructor
  · intro hlaw past c rest hcycles hhostile hdwell hraw c' hc' helevated
    have hcalm := (hostile_to_calm_iff hhostile).2 ⟨hdwell, hraw⟩
    have hlow : (run fixed2 policy s (past ++ [c])).level < (run fixed2 policy s past).level := by
      rw [hhostile, hcalm]
      decide
    have hle := (hlaw past c rest hcycles hlow).2 c' (mem_append_left _ hc')
    rw [helevated, hcalm] at hle
    exact absurd hle (by decide)
  · intro hskip past c rest hcycles hlow
    obtain ⟨hraw, hlength, hbelow⟩ := dwell_of_lowered h0 hlow
    refine ⟨hlength, fun c' hc' => ?_⟩
    cases mem_append.1 hc' with
    | inl hpast =>
      apply le_of_lt_of_lt (hbelow c' hpast) hlow
      intro hhostile hcalm
      obtain ⟨hdwell, hcalm⟩ := (hostile_to_calm_iff hhostile).1 hcalm
      exact hskip past c rest hcycles hhostile hdwell hcalm c' hpast
    | inr hlast =>
      rw [mem_singleton.1 hlast]
      exact hraw.ge

/-- Cycles with one raw level bring the level in force to it: at once from below, and from above when the streak
and the cycles outlast the dwell. -/
lemma run_settles {level} {cycles : List (Cycle F)} (hraw : ∀ c ∈ cycles, c.raw policy = level)
    (h : s.level = level ∨
      cycles ≠ [] ∧ (level < s.level → policy.deescalateDwell < s.calmDwell + cycles.length)) :
    (run fixed2 policy s cycles).level = level := by
  induction cycles generalizing s with
  | nil => exact h.resolve_right fun h => h.1 rfl
  | cons c cycles ih =>
    refine ih (fun c hc => hraw c (mem_cons_of_mem _ hc)) ?_
    have hc : rawLevel (aggregateVantages c.reports c.quorum) policy = level := hraw c mem_cons_self
    rw [advance, step_state, hc]
    simp only
    split_ifs with hup hdown hdwell
    · exact .inl rfl
    · exact .inl rfl
    · have hlong := (h.resolve_left hdown.ne').2 hdown
      rw [length_cons] at hlong
      refine .inr ⟨?_, fun _ => by dsimp only; omega⟩
      rintro rfl
      exact hdwell (by simpa [Int.lt_add_one_iff] using hlong)
    · exact .inl (le_antisymm (not_lt.1 hdown) (not_lt.1 hup))

/-- In a run from a state without a streak the level in force is never below the raw level of the last cycle,
and it settles at a raw level that outlasts the dwell. -/
theorem level_in_force (h0 : s.calmDwell = 0) (past : List (Cycle F)) :
    (∀ c, c.raw policy ≤ (run fixed2 policy s (past ++ [c])).level) ∧
      ∀ level cycles, (∀ c ∈ cycles, c.raw policy = level) →
        policy.deescalateDwell.toNat < cycles.length →
          (run fixed2 policy s (past ++ cycles)).level = level := by
  refine ⟨fun c => ?_, fun level cycles hraw hlong => ?_⟩
  · rw [run_append_singleton, advance, step_state]
    simp only
    split_ifs with hup hdown hdwell
    · exact le_rfl
    · exact le_rfl
    · exact hdown.le
    · exact not_lt.1 hup
  · have hstreak : Streak policy (run fixed2 policy s past) past := streak_run h0 past
    have hnonneg := hstreak.nonneg
    rw [run] at hnonneg
    rw [run, foldl_append]
    refine run_settles hraw (.inr ⟨ne_nil_of_length_pos (Nat.zero_lt_of_lt hlong), fun _ => ?_⟩)
    omega

end

def unanimous (unreachableFraction : ℚ) : Cycle ℚ where
  reports := ["a", "b", "c"].map fun vantage => ⟨vantage, unreachableFraction, 0, false⟩
  quorum := 3

def oneCalmCycle : List (Cycle ℚ) :=
  [unanimous (3 / 10), unanimous (1 / 5), unanimous (1 / 5), unanimous (1 / 5), unanimous (1 / 5),
    unanimous (1 / 5), unanimous (1 / 5), unanimous 0]

lemma run_oneCalmCycle :
    run twoDecimals declaredPolicy {} (oneCalmCycle.take 7) = ⟨.hostile, 6⟩ ∧
    run twoDecimals declaredPolicy {} oneCalmCycle = ⟨.calm, 0⟩ := by
  decide +kernel

/-- Seven calm cycles after a hostile one lower the level, and the law is kept. -/
theorem dwell_law_iff_calm :
    DwellLaw twoDecimals declaredPolicy {} (unanimous (3 / 10) :: List.replicate 7 (unanimous 0)) ∧
    run twoDecimals declaredPolicy {} (unanimous (3 / 10) :: List.replicate 7 (unanimous 0)) =
      ⟨.calm, 0⟩ := by
  have hnone : ∀ c ∈ unanimous (3 / 10) :: List.replicate 7 (unanimous 0),
      c.raw declaredPolicy ≠ .elevated := by
    decide +kernel
  refine ⟨(dwell_law_iff rfl _).2 fun past c rest hcycles _ _ _ c' hc' => hnone c' ?_, ?_⟩
  · rw [hcycles]
    exact mem_append_left _ (mem_of_mem_drop hc')
  · decide +kernel

theorem level_in_force_calm :
    (run twoDecimals declaredPolicy {} ([unanimous (3 / 10)] ++ replicate 7 (unanimous 0))).level = .calm :=
  (level_in_force rfl _).2 _ _ (fun c hc => by rw [eq_of_mem_replicate hc]; decide +kernel) (by decide)

/-- One calm cycle after six elevated ones takes the level from hostile to calm. -/
theorem one_calm_cycle_lowers : ¬DwellLaw twoDecimals declaredPolicy {} oneCalmCycle := by
  intro hlaw
  have h := (hlaw (oneCalmCycle.take 7) (unanimous 0) [] rfl ?_).2 (unanimous (1 / 5)) ?_
  · exact absurd h (by decide +kernel)
  · show (run twoDecimals declaredPolicy {} oneCalmCycle).level < _
    rw [run_oneCalmCycle.1, run_oneCalmCycle.2]
    decide
  · exact mem_append_left _ (mem_cons_self ..)

end SocioWorkspace.Mesh
