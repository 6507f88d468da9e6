import SocioWorkspace.Lib.Median

/-!
# The threat controller

Model of `automation/mesh_threat.py`: the reports of the vantages are resolved to one signal by medians and a
majority vote, and a control cycle raises the level in force at once, or lowers it when it has been undercut
for long enough. The text of a fraction is a parameter.
-/

namespace SocioWorkspace.Mesh
open Median

/-- Python `LEVELS`. -/
inductive Level where
  | calm
  | elevated
  | hostile
deriving DecidableEq

namespace Level

/-- Python `_rank`. -/
def rank : Level → ℕ
  | calm => 0
  | elevated => 1
  | hostile => 2

def text : Level → String
  | calm => "calm"
  | elevated => "elevated"
  | hostile => "hostile"

def ofText (s : String) : Option Level := [calm, elevated, hostile].find? (·.text = s)

lemma rank_injective : Function.Injective rank := by
  intro a b h
  cases a <;> cases b <;> first | rfl | cases h

instance : LinearOrder Level := LinearOrder.lift' rank rank_injective

lemma lt_iff {a b : Level} : a < b ↔ a.rank < b.rank := Iff.rfl

lemma calm_le (a : Level) : calm ≤ a := Nat.zero_le _

lemma le_hostile (a : Level) : a ≤ hostile := by cases a <;> decide

@[simp] lemma ofText_text (a : Level) : ofText a.text = some a := by cases a <;> decide

end Level

/-- Python `VantageReport`. -/
structure VantageReport (F : Type) where
  vantage : String
  unreachableFraction : F
  anomaliesSeen : ℤ
  partitionSuspected : Bool

/-- Python `ThreatSignals`. -/
structure ThreatSignals (F : Type) where
  unreachableFraction : F
  anomalies : ℤ
  partition : Bool
  vantages : ℕ

/-- Python `ThreatPolicy`. -/
structure ThreatPolicy (F : Type) where
  tierByLevel : Level → String
  elevatedMinUnreachable : F
  elevatedMinAnomalies : ℤ
  hostileMinUnreachable : F
  hostileMinAnomalies : ℤ
  deescalateDwell : ℤ

inductive Actuation where
  | autoEscalate
  | hold
  | proposeDeescalate
deriving DecidableEq

def Actuation.text : Actuation → String
  | autoEscalate => "auto_escalate"
  | hold => "hold"
  | proposeDeescalate => "propose_deescalate"

/-- Python `ThreatAssessment`. -/
structure ThreatAssessment where
  level : Level
  tier : String
  actuation : Actuation
  proposedLevel : Option Level := none
  proposedTier : Option String := none
  reasons : List String

@[ext]
structure MeshThreatState where
  level : Level := .calm
  calmDwell : ℤ := 0
deriving DecidableEq

section
variable {F : Type} [LE F] [DecidableLE F] [Add F] [Div F] [Zero F] [One F] [OfNat F 2]

def half (a b : F) : F := (a + b) / 2

/-- The exact mean of two counts, as `int` rounds it. -/
def halfCount (a b : ℤ) : ℤ := (a + b).tdiv 2

def blind : ThreatSignals F := ⟨1, 10 ^ 9, true, 0⟩

/-- Python `aggregate_vantages`. The mean of two counts is `int((a + b) / 2)`, where the quotient is a float. -/
def aggregateWith (mean : ℤ → ℤ → ℤ) (reports : List (VantageReport F)) (quorum : ℤ) : ThreatSignals F :=
  if reports.length < quorum ∨ reports = [] then blind
  else
    { unreachableFraction := median half (reports.map (·.unreachableFraction))
      anomalies := median mean (reports.map (·.anomaliesSeen))
      partition := reports.length < 2 * reports.countP (·.partitionSuspected)
      vantages := reports.length }

/-- The same with exact means of counts. -/
def aggregateVantages (reports : List (VantageReport F)) (quorum : ℤ) : ThreatSignals F :=
  aggregateWith halfCount reports quorum

/-- Python `_raw_level`. -/
def rawLevel (signals : ThreatSignals F) (policy : ThreatPolicy F) : Level :=
  if signals.vantages = 0 then .hostile
  else if signals.partition ∨ policy.hostileMinUnreachable ≤ signals.unreachableFraction ∨
      policy.hostileMinAnomalies ≤ signals.anomalies then .hostile
  else if policy.elevatedMinUnreachable ≤ signals.unreachableFraction ∨
      policy.elevatedMinAnomalies ≤ signals.anomalies then .elevated
  else .calm

variable (fixed2 : F → String)

def rawReason (raw : Level) (signals : ThreatSignals F) : String :=
  "raw=" ++ raw.text ++ " (unreachable=" ++ fixed2 signals.unreachableFraction ++ ", anomalies="
    ++ toString signals.anomalies ++ ", partition=" ++ (if signals.partition then "True" else "False")
    ++ ", vantages=" ++ toString signals.vantages ++ ")"

/-- Python `assess_threat`. -/
def assessThreat (signals : ThreatSignals F) (previousLevel : Level) (calmDwell : ℤ)
    (policy : ThreatPolicy F) : ThreatAssessment :=
  let raw := rawLevel signals policy
  let reason := rawReason fixed2 raw signals
  if previousLevel.rank < raw.rank then
    { level := raw
      tier := policy.tierByLevel raw
      actuation := .autoEscalate
      reasons := [reason, "ESCALATE " ++ previousLevel.text ++ "->" ++ raw.text
        ++ " (auto: more resilience is always safe)"] }
  else if raw.rank < previousLevel.rank then
    if policy.deescalateDwell ≤ calmDwell then
      { level := previousLevel
        tier := policy.tierByLevel previousLevel
        actuation := .proposeDeescalate
        proposedLevel := some raw
        proposedTier := some (policy.tierByLevel raw)
        reasons := [reason, "PROPOSE de-escalate " ++ previousLevel.text ++ "->" ++ raw.text
          ++ " (calm " ++ toString calmDwell ++ ">=" ++ toString policy.deescalateDwell
          ++ " epochs; reviewed)"] }
    else
      { level := previousLevel
        tier := policy.tierByLevel previousLevel
        actuation := .hold
        reasons := [reason, "HOLD " ++ previousLevel.text ++ " (calm only " ++ toString calmDwell
          ++ "<" ++ toString policy.deescalateDwell
          ++ " epochs — do not drop resilience yet)"] }
  else
    { level := previousLevel
      tier := policy.tierByLevel previousLevel
      actuation := .hold
      reasons := [reason] }

/-- Python `step`. -/
def step (reports : List (VantageReport F)) (state : MeshThreatState) (policy : ThreatPolicy F)
    (quorum : ℤ) : MeshThreatState × ThreatAssessment :=
  let sig := aggregateVantages reports quorum
  let a := assessThreat fixed2 sig state.level state.calmDwell policy
  match a.actuation with
  | .autoEscalate => (⟨a.level, 0⟩, a)
  | .proposeDeescalate => (⟨a.proposedLevel.getD a.level, 0⟩, a)
  | .hold =>
    let raw := rawLevel sig policy
    let streak := if raw.rank < state.level.rank then state.calmDwell + 1 else 0
    (⟨state.level, streak⟩, a)

/-- The tier that an assessment puts in force (in `detect_mesh_threat`). -/
def ThreatAssessment.applied (a : ThreatAssessment) : Option String :=
  if a.actuation ≠ .proposeDeescalate then some a.tier else a.proposedTier

/-- The policy of `registry/mesh-storage-placement.yaml`. -/
def declaredPolicy : ThreatPolicy ℚ where
  tierByLevel
    | .calm => "baseline"
    | .elevated => "hardened"
    | .hostile => "hostile"
  elevatedMinUnreachable := 1 / 10
  elevatedMinAnomalies := 1
  hostileMinUnreachable := 1 / 4
  hostileMinAnomalies := 3
  deescalateDwell := 6

def twoDecimals (q : ℚ) : String :=
  let n := (q * 100 + 1 / 2).floor
  toString (n / 100) ++ "." ++ (if n % 100 < 10 then "0" else "") ++ toString (n % 100)

variable {fixed2} {reports : List (VantageReport F)} {state : MeshThreatState} {policy : ThreatPolicy F}
  {quorum : ℤ}

/-- The state after a cycle. -/
theorem step_state : (step fixed2 reports state policy quorum).1 =
    let raw := rawLevel (aggregateVantages reports quorum) policy
    if state.level < raw then ⟨raw, 0⟩
    else if raw < state.level then
      if policy.deescalateDwell ≤ state.calmDwell then ⟨raw, 0⟩
      else ⟨state.level, state.calmDwell + 1⟩
    else ⟨state.level, 0⟩ := by
  simp only [step, assessThreat, Level.lt_iff]
  split_ifs <;> rfl

/-- The tier to apply is that of the new level. -/
theorem step_tier : (step fixed2 reports state policy quorum).2.applied =
    some (policy.tierByLevel (step fixed2 reports state policy quorum).1.level) := by
  simp only [step, assessThreat]
  split_ifs <;> rfl

end

section
variable {F : Type} [LE F] [DecidableLE F] {signals : ThreatSignals F} {policy : ThreatPolicy F}

section
variable (signals : ThreatSignals F) (policy : ThreatPolicy F)

def ThreatSignals.Hostile : Prop :=
  signals.partition = true ∨ policy.hostileMinUnreachable ≤ signals.unreachableFraction ∨
    policy.hostileMinAnomalies ≤ signals.anomalies

def ThreatSignals.Elevated : Prop :=
  signals.Hostile policy ∨ policy.elevatedMinUnreachable ≤ signals.unreachableFraction ∨
    policy.elevatedMinAnomalies ≤ signals.anomalies

def ThreatSignals.Reaches : Level → Prop
  | .calm => True
  | .elevated => signals.Elevated policy
  | .hostile => signals.Hostile policy

end

lemma le_rawLevel_iff (hseen : signals.vantages ≠ 0) {level} :
    level ≤ rawLevel signals policy ↔ signals.Reaches policy level := by
  rw [rawLevel, if_neg hseen]
  split_ifs with hhostile helevated
  · refine iff_of_true (Level.le_hostile level) ?_
    cases level with
    | calm => trivial
    | elevated => exact .inl hhostile
    | hostile => exact hhostile
  · cases level with
    | calm => exact iff_of_true (by decide) trivial
    | elevated => exact iff_of_true (by decide) (.inr helevated)
    | hostile => exact iff_of_false (by decide) hhostile
  · cases level with
    | calm => exact iff_of_true (by decide) trivial
    | elevated => exact iff_of_false (by decide) fun h => h.elim hhostile helevated
    | hostile => exact iff_of_false (by decide) hhostile

lemma rawLevel_blind (hblind : signals.vantages = 0) : rawLevel signals policy = .hostile := by
  rw [rawLevel, if_pos hblind]

end

end SocioWorkspace.Mesh
