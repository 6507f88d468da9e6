import SocioWorkspace.Lib.OrderedDict
import SocioWorkspace.Respond.Model

/-!
# Cycles of the responder

Model of the suppressor (`automation/suppression.py`) and of `run_once` (`automation/responder.py`): the inbox
is drained, what was decided within the cooldown is dropped, the rest is grouped by subject and decided. The
file of the suppressor comes back changed. An exception ends the cycle, and the receipts before it remain. The
clock is read once for each beacon.
-/

namespace SocioWorkspace.Respond
open Python List

section Model
variable {F B : Type} (env : Env F) (codec : JsonCodec B) (policy : ResponsePolicy F) (world : World)
variable (executes : Bool)

/-- Python `fingerprint`. -/
def fingerprint (beacon : Dict) : String :=
  env.float.str (kindClass beacon) ++ "::" ++ env.float.str ((beacon.get? "system").getD (.str ""))

/-- Python `Suppressor._load`; without a file there is an empty dict. -/
def load (file : Option B) : Except PyError Dict :=
  match file with
  | none => .ok .empty
  | some bytes =>
    match codec.loads bytes with
    | .ok data => .ok (data.asDict.getD .empty)
    | .error .value => .ok .empty
    | .error e => .error e

def isNumber (v : Value) : Bool :=
  match v.json with
  | .bool _ => true
  | .num _ => true
  | _ => false

/-- Python `isinstance(last, (int, float)) and (now - last) < cooldown_seconds`. -/
def withinCooldown (now : FloatLit) (last : Option Value) : Except PyError Bool :=
  match last.filter isNumber with
  | none => return false
  | some last => do
    let elapsed := env.float.sub (env.float.ofLit now) (← env.float.float last)
    return env.float.lt elapsed policy.suppressionCooldownSeconds

/-- Python `Suppressor.should_process`, with the file that it leaves. -/
def shouldProcess (fp : String) (now : FloatLit) (file : Option B) : Option B × Except PyError Bool :=
  if env.float.le policy.suppressionCooldownSeconds (env.float.lit 0) then (file, .ok true)
  else
    match load codec file with
    | .error e => (file, .error e)
    | .ok data =>
      match withinCooldown env policy now (data.get? fp) with
      | .error e => (file, .error e)
      | .ok true => (file, .ok false)
      | .ok false => (some (codec.dumps (.dict (data.insert fp (.float now)))), .ok true)

/-- The first loop of `run_once`: the beacons that are not suppressed. -/
def drain (file : Option B) : List (Value × FloatLit) → Option B × Except PyError (List Dict)
  | [] => (file, .ok [])
  | (raw, now) :: inbox =>
    match raw.asDict with
    | none => (file, .error .attr)
    | some beacon =>
      match shouldProcess env codec policy (fingerprint env beacon) now file with
      | (file, .error e) => (file, .error e)
      | (file, .ok process) =>
        match drain file inbox with
        | (file, .error e) => (file, .error e)
        | (file, .ok survivors) => (file, .ok (if process then beacon :: survivors else survivors))

def subject (beacon : Dict) : String :=
  env.float.str ((beacon.get? "system").getD (.str "unknown"))

def respond (group : List Dict) : Except PyError Receipt := do
  let receipt ← decideComposed env policy group
  if executes then
    execute world (primaryOf group (← group.mapM evidenceVerdict)) receipt
  else return receipt

/-- The receipts that are emitted for the subjects in turn, and the exception that ends it. -/
def respondAll : List (String × List Dict) → List (String × Receipt) × Option PyError
  | [] => ([], none)
  | (s, group) :: groups =>
    match respond env policy world executes group with
    | .error e => ([], some e)
    | .ok receipt => ((s, receipt) :: (respondAll groups).1, (respondAll groups).2)

/-- The file of the suppressor, the receipts by subject and the exception of a cycle. -/
structure Cycle (B : Type) where
  file : Option B
  emitted : List (String × Receipt)
  raised : Option PyError

/-- Python `run_once` with a suppressor. -/
def runOnce (file : Option B) (inbox : List (Value × FloatLit)) : Cycle B :=
  match drain env codec policy file inbox with
  | (file, .error e) => ⟨file, [], some e⟩
  | (file, .ok survivors) =>
    let (emitted, raised) := respondAll env policy world executes (OrderedDict.group (subject env) survivors)
    ⟨file, emitted, raised⟩

end Model

section Spec
variable {F B : Type} {env : Env F} {codec : JsonCodec B} {policy : ResponsePolicy F} {world : World}
variable {executes : Bool} {group : List Dict} {r : Receipt}

lemma respond_cases (h : respond env policy world executes group = .ok r) :
    ∃ r₀, decideComposed env policy group = .ok r₀ ∧ r.verdict = r₀.verdict ∧
      ((executes = false ∧ r.action = r₀.action) ∨
        executes = true ∧ ∃ warrants outcome, group.mapM evidenceVerdict = .ok warrants ∧
          carryOut world (primaryOf group warrants) r₀.action = .ok outcome ∧
          r.action = if outcome.all (·.resolved) then r₀.action else .escalateHuman) := by
  obtain ⟨r₀, hdecide, h⟩ := bind_eq_ok.1 h
  refine ⟨r₀, hdecide, ?_⟩
  cases executes with
  | false =>
    cases h
    exact ⟨rfl, .inl ⟨rfl, rfl⟩⟩
  | true =>
    obtain ⟨warrants, hwarrants, h⟩ := bind_eq_ok.1 h
    obtain ⟨outcome, houtcome, hverdict, -, haction⟩ := execute_eq_ok h
    exact ⟨hverdict, .inr ⟨rfl, warrants, outcome, hwarrants, houtcome, haction⟩⟩

lemma respond_escalateHuman {r₀ : Receipt} (haction : r₀.action = .escalateHuman)
    (h : (executes = false ∧ r.action = r₀.action) ∨
      executes = true ∧ ∃ warrants outcome, group.mapM evidenceVerdict = .ok warrants ∧
        carryOut world (primaryOf group warrants) r₀.action = .ok outcome ∧
        r.action = if outcome.all (·.resolved) then r₀.action else .escalateHuman) :
    r.action = .escalateHuman := by
  rcases h with ⟨-, h⟩ | ⟨-, warrants, outcome, -, -, h⟩
  · rw [h, haction]
  · rw [h, haction, ite_self]

section
variable (hne : group ≠ []) (h : respond env policy world executes group = .ok r) {beacon : Dict}
variable (hmem : beacon ∈ group)
include hne h hmem

/-- A fenced beacon hands its whole subject to a human, whatever the executor does. -/
lemma respond_fenced (hfenced : Fenced env policy beacon) : r.action = .escalateHuman := by
  obtain ⟨r₀, hdecide, -, hexecute⟩ := respond_cases h
  have hdecided := (decideComposed_eq_ok hne hdecide).1
  generalize hv : r₀.verdict = verdict at hdecided
  generalize ha : r₀.action = action at hdecided
  cases hdecided with
  | fenced hfence | unwarranted hfence hcompose => exact respond_escalateHuman ha hexecute
  | reasoned hfence hcompose hlaw => exact absurd ⟨beacon, hmem, hfenced⟩ hfence

/-- The verdict of a subject is at most the law of each of its beacons. -/
lemma respond_verdict_le {law} (hlaw : policy.lawFor (kindClass beacon) = .ok law) : r.verdict ≤ law := by
  obtain ⟨r₀, hdecide, hverdict, -⟩ := respond_cases h
  have hdecided := (decideComposed_eq_ok hne hdecide).1
  rw [hverdict]
  generalize r₀.verdict = verdict at hdecided
  generalize r₀.action = action at hdecided
  cases hdecided with
  | fenced hfence | unwarranted hfence hcompose => exact bot_le
  | reasoned hfence hcompose heffective =>
    exact WithBot.coe_le_coe.2 ((min_le_left ..).trans (effectiveLaw_le heffective hmem hlaw))

end

variable {groups : List (String × List Dict)} {s : String}

lemma respond_of_emitted (h : (s, r) ∈ (respondAll env policy world executes groups).1) :
    ∃ group, (s, group) ∈ groups ∧ respond env policy world executes group = .ok r := by
  induction groups with
  | nil => cases h
  | cons m groups ih =>
    rw [respondAll] at h
    cases hrespond : respond env policy world executes m.2 with
    | error e =>
      rw [hrespond] at h
      cases h
    | ok receipt =>
      rw [hrespond] at h
      rcases mem_cons.1 h with he | h
      · cases he
        exact ⟨m.2, mem_cons_self .., hrespond⟩
      · obtain ⟨group, hgroup, hr⟩ := ih h
        exact ⟨group, mem_cons_of_mem _ hgroup, hr⟩

/-- Where no group raises, every subject gets the receipt of its group. -/
lemma emitted_of_returns (h : ∀ m ∈ groups, ∃ r, respond env policy world executes m.2 = .ok r)
    (hm : (s, group) ∈ groups) : ∃ r, (s, r) ∈ (respondAll env policy world executes groups).1 ∧
      respond env policy world executes group = .ok r := by
  induction groups with
  | nil => cases hm
  | cons m groups ih =>
    obtain ⟨receipt, hrespond⟩ := h m (mem_cons_self ..)
    rw [respondAll, hrespond]
    rcases mem_cons.1 hm with rfl | hm
    · exact ⟨receipt, mem_cons_self .., hrespond⟩
    · obtain ⟨r, hr, hgroup⟩ := ih (fun m hm => h m (mem_cons_of_mem _ hm)) hm
      exact ⟨r, mem_cons_of_mem _ hr, hgroup⟩

end Spec

def svcBeacon (kind : String) (plan : List (String × Value)) : Dict :=
  .ofList [
    ("kind_class", .str kind),
    ("system", .str "svc"),
    ("evidence", .dict (.ofList [("detector", .str "probe"), ("reproducible", .bool true)])),
    ("plan", .dict (.ofList plan))]

def oneSecond : FloatLit := ⟨"1.0".toList, by decide, by decide, by decide⟩

end SocioWorkspace.Respond
