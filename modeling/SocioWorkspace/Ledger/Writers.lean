import SocioWorkspace.Ledger.Verify

/-!
# The writers of ledger files

Model of the producers that append to a ledger file: `emit_event` of `gbrg/mcp/mcp_gate.py`, the
`_seal_and_persist` functions of `supply_chain_risk.py`, `omnirisk_allocation.py` and
`portfolio_position_binding.py`, and `gate_inclusion` of `gate.py`. The identifiers, times, artifacts and
verdicts are inputs. A `Disk` has the files and their records; without a path the default ledger is used.
-/

namespace SocioWorkspace.Ledger
open HashChain Except List SortedMap

inductive WriteError where
  | ledger (e : LedgerError)
  | record (e : RecordError)
  | fileNotFoundError
  | typeError
  | stopIteration

abbrev Path := String

/-- The ledger files that exist, with their records. -/
abbrev Disk := Path → Option (List Dict)

def DEFAULT_LEDGER : Path := "gbrg/governance/ledger/decisions.jsonl"

def resolvePath (ledgerPath : Option Path) : Path := ledgerPath.getD DEFAULT_LEDGER

/-- All records of a file, none if it is absent (Python `_read_raw`). -/
def readRaw (disk : Disk) (ledgerPath : Option Path) : List Dict := (disk (resolvePath ledgerPath)).getD []

/-- Append one record (Python `append`). -/
def append (disk : Disk) (record : Dict) (ledgerPath : Option Path) : Disk :=
  Function.update disk (resolvePath ledgerPath) (some (readRaw disk ledgerPath ++ [record]))

@[simp] lemma readRaw_append {disk record path} :
    readRaw (append disk record path) path = readRaw disk path ++ [record] := by
  unfold append readRaw
  rw [Function.update_self]
  rfl

section
variable (hexdigest : List Char → String)

def sealEvent (core : Dict) : Dict := core.insert "hash" (.str (sha hexdigest (.dict core)))

/-- The seal of a record as the writers look it up (Python `last.get("hash") or last["receipt"]`). -/
def hashOrReceipt (last : Dict) : Except RecordError Value :=
  match last.get? "hash" with
  | some hash => if hash.truthy then .ok hash else subscript last "receipt"
  | none => subscript last "receipt"

/-- What the next event names as its predecessor (Python `_prev_hash`). -/
def prevHash (records : List Dict) : Except WriteError Value :=
  match readVerified hexdigest records with
  | .error e => .error (.ledger e)
  | .ok records =>
    match records.getLast? with
    | none => .ok (.str (GENESIS hexdigest))
    | some last => (hashOrReceipt last).mapError .record

/-- Subscription of a decoded value (Python `v[key]`). -/
def index (v : Value) (key : String) : Except WriteError Value :=
  match v.asDict with
  | some d => (subscript d key).mapError .record
  | none => .error .typeError

def iterate (v : Value) : Except WriteError (List Value) :=
  match v.iterate with
  | some elems => .ok elems
  | none => .error .typeError

def findTool (name : String) : List Value → Except WriteError (Option Value)
  | [] => .ok none
  | t :: rest => do
    if (← index t "name").isStr name then return some t
    findTool name rest

def findServer (name : String) : List Value → Except WriteError Value
  | [] => .error .stopIteration
  | s :: rest => do
    match ← findTool name (← iterate (← index s "tools")) with
    | some t => return t
    | none => findServer name rest

/-- Python `SPIFFE_ID`. -/
def SPIFFE_ID : String := "spiffe://socioprophet/mcp/gbrg"
/-- Python `SERVER_NAME`. -/
def SERVER_NAME : String := "gbrg-mcp"

/-- The target of an event, from the registry document (Python `_tool_target`). -/
def toolTarget (name : String) (registry : Option Value) : Except WriteError Dict := do
  let some doc := registry | .error .fileNotFoundError
  let entry ← findServer name (← iterate (← index doc "servers"))
  return .ofList [("kind", .str "mcp_tool"), ("spiffe_id", .str SPIFFE_ID),
    ("capability_ref", ← index entry "capability_ref"),
    ("capability_digest", ← index entry "capability_digest"),
    ("server", .str SERVER_NAME), ("tool", .str name)]

/-- The digest of the registry document (Python `_policy_hash`). -/
def policyHash (registry : Option Value) : Except WriteError String :=
  match registry with
  | some doc => .ok (sha hexdigest doc)
  | none => .error .fileNotFoundError

/-- What a call of `emit_event` is given, with its id and time and the registry document. -/
structure EmitRequest where
  eventType : String
  tool : String
  payload : Dict
  allow : Bool
  reason : String
  registry : Option Value
  eventId : String
  ts : String

section
variable (q : EmitRequest)

/-- The part of `emit_event` up to the verified read of the chain head. -/
def emitRead (records : List Dict) : Except WriteError (String × Value) := do
  let policy ← policyHash hexdigest q.registry
  let prev ← prevHash hexdigest records
  return (policy, prev)

def eventCore (policy : String) (prev : Value) (target : Dict) : Dict :=
  .ofList [("event_id", .str q.eventId), ("ts", .str q.ts), ("type", .str q.eventType),
    ("actor", .dict (.ofList [("spiffe_id", .str SPIFFE_ID)])), ("target", .dict target),
    ("payload_hash", .str (sha hexdigest (.dict q.payload))), ("policy_hash", .str policy),
    ("prev_hash", prev),
    ("decision", .dict (.ofList [("allow", .bool q.allow), ("reason", .str q.reason)]))]

/-- The rest of `emit_event`: the event that it appends. -/
def emitSeal (read : String × Value) : Except WriteError Dict := do
  let target ← toolTarget q.tool q.registry
  return sealEvent hexdigest (eventCore hexdigest q read.1 read.2 target)

/-- One durable event (Python `emit_event`). -/
def emitEvent (ledgerPath : Path) (disk : Disk) :
    Except WriteError (Dict × Disk) := do
  let event ← emitSeal hexdigest q (← emitRead hexdigest q (readRaw disk (some ledgerPath)))
  return (event, append disk event (some ledgerPath))

def artifactEvent (type ts : String) (prev : Value) (artifact : Dict) : Dict :=
  sealEvent hexdigest (.ofList [("type", .str type), ("ts", .str ts), ("prev_hash", prev),
    ("artifact", .dict artifact)])

/-- The chain head for supply-chain assessments (Python `_next_prev_hash`). -/
def nextPrevHash (disk : Disk) (ledgerPath : Option Path) : Except WriteError Value :=
  prevHash hexdigest (readRaw disk ledgerPath)

/-- `_seal_and_persist` of `supply_chain_risk.py`. -/
def sealAndPersistScr (ts : String) (artifact : Dict) (ledgerPath : Option Path) (persist : Bool)
    (disk : Disk) : Except WriteError (Dict × Disk) := do
  let prev ← nextPrevHash hexdigest disk ledgerPath
  let event := artifactEvent hexdigest "SupplyChainRiskAssessment" ts prev artifact
  return (event, if persist then append disk event ledgerPath else disk)

/-- Whether there is a ledger to continue (Python `_ledger_exists`). -/
def ledgerExists (disk : Disk) : Option Path → Bool
  | none => false
  | some path => (disk path).isSome

/-- The seal as the verdict writers look it up (Python `last.get("hash") or last.get("receipt")`). -/
def getHashOrReceipt (last : Dict) : Value :=
  match last.get? "hash" with
  | some hash => if hash.truthy then hash else (last.get? "receipt").getD .null
  | none => (last.get? "receipt").getD .null

def lastSealOrGenesis (records : List Dict) : Value :=
  match records.getLast? with
  | none => .str (GENESIS hexdigest)
  | some last => getHashOrReceipt last

/-- Python `ledger.read_all(ledger_path) if _ledger_exists(ledger_path) else []`. -/
def recordsToContinue (disk : Disk) (ledgerPath : Option Path) : Except WriteError (List Dict) :=
  if ledgerExists disk ledgerPath then
    (readVerified hexdigest (readRaw disk ledgerPath)).mapError .ledger
  else .ok []

def sealAndPersistVerdict (type ts : String) (artifact : Dict) (ledgerPath : Option Path)
    (persist : Bool) (disk : Disk) : Except WriteError (Dict × Disk) := do
  let records ← recordsToContinue hexdigest disk ledgerPath
  let event := artifactEvent hexdigest type ts (lastSealOrGenesis hexdigest records) artifact
  return (event, if persist then append disk event ledgerPath else disk)

variable (ts : String) (artifact : Dict) (ledgerPath : Option Path) (persist : Bool) (disk : Disk)

/-- `_seal_and_persist` of `omnirisk_allocation.py`. -/
def sealAndPersistOmni : Except WriteError (Dict × Disk) :=
  sealAndPersistVerdict hexdigest "OmniriskAllocationVerdict" ts artifact ledgerPath persist disk

/-- `_seal_and_persist` of `portfolio_position_binding.py`. -/
def sealAndPersistBinding : Except WriteError (Dict × Disk) :=
  sealAndPersistVerdict hexdigest "PortfolioPositionBindingVerdict" ts artifact ledgerPath persist
    disk

end

/-- `gate_inclusion` with its append. -/
def gateInclusionPersist (py : PyText) (q : InclusionRequest) (ledgerPath : Option Path)
    (persist : Bool) (disk : Disk) : Except WriteError (Dict × Disk) := do
  let decision ← (gateInclusion hexdigest py q).mapError .record
  return (decision.toDict, if persist then append disk decision.toDict ledgerPath else disk)

variable {hexdigest}

/-- An intact chained event that names `prev` as its predecessor. -/
structure EventAfter (hexdigest : List Char → String) (prev : Value) (event : Dict) : Prop where
  chained : chained event = true
  prev_hash : event.get? "prev_hash" = some prev
  intact : (link hexdigest).Intact event

lemma erase_sealEvent {core} (h : core.get? "hash" = none) :
    (sealEvent hexdigest core).erase "hash" = core := by
  apply SortedMap.ext_get
  intro k
  rw [sealEvent, get?_erase, get?_insert]
  by_cases hk : k = "hash"
  · rw [if_pos hk, hk, h]
  · rw [if_neg hk, if_neg hk]

lemma sealEvent_after {core prev} (h : core.get? "hash" = none) (hp : core.get? "prev_hash" = some prev) :
    EventAfter hexdigest prev (sealEvent hexdigest core) := by
  have hh : (sealEvent hexdigest core).get? "hash" = some (.str (sha hexdigest (.dict core))) := by
    rw [sealEvent, get?_insert, if_pos rfl]
  have hp' : (sealEvent hexdigest core).get? "prev_hash" = some prev := by
    rw [sealEvent, get?_insert, if_neg (by decide), hp]
  refine ⟨chained_iff.mpr ⟨_, _, hh, hp'⟩, hp', ?_⟩
  show (sealEvent hexdigest core).get? "hash" =
    some (.str (recomputeEventHash hexdigest (sealEvent hexdigest core)))
  rw [hh, recomputeEventHash, erase_sealEvent h]

lemma artifactEvent_after {type ts prev artifact} :
    EventAfter hexdigest prev (artifactEvent hexdigest type ts prev artifact) := by
  apply sealEvent_after
  · exact get?_ofList_eq_none (show _ ∉ ["type", "ts", "prev_hash", "artifact"] by decide)
  · refine (get?_ofList_eq_some ?_).mpr (by simp)
    show List.Nodup ["type", "ts", "prev_hash", "artifact"]
    decide

lemma emitSeal_after {q read event} (h : emitSeal hexdigest q read = .ok event) :
    EventAfter hexdigest read.2 event := by
  obtain ⟨target, -, e⟩ := bind_eq_ok.mp h
  rw [← ok.inj e]
  apply sealEvent_after
  · exact get?_ofList_eq_none (show _ ∉ ["event_id", "ts", "type", "actor", "target",
      "payload_hash", "policy_hash", "prev_hash", "decision"] by decide)
  · refine (get?_ofList_eq_some ?_).mpr (by simp)
    show List.Nodup ["event_id", "ts", "type", "actor", "target", "payload_hash", "policy_hash",
      "prev_hash", "decision"]
    decide

lemma truthy_sha (v : Value) : (Value.str (sha hexdigest v)).truthy = true := by
  show decide (sha hexdigest v ≠ "") = true
  rw [decide_eq_true_iff]
  intro e
  have e' := congrArg String.toList e
  rw [sha, String.toList_append] at e'
  cases e'

lemma hashOrReceipt_eq_ok {last} (h : (∃ v, last.get? "hash" = some v ∧ v.truthy = true) ∨
    ∃ s, last.get? "receipt" = some s) : hashOrReceipt last = .ok (getHashOrReceipt last) := by
  unfold hashOrReceipt getHashOrReceipt subscript
  cases h with
  | inl h =>
    obtain ⟨v, hv, ht⟩ := h
    simp [hv, ht]
  | inr h =>
    obtain ⟨s, hs⟩ := h
    rw [hs]
    cases last.get? "hash" with
    | none => rfl
    | some v => cases ht : v.truthy <;> simp [ht]

/-- On a verified file the writers agree on the predecessor. -/
lemma prevHash_of_verified {records} (h : Verified hexdigest (GENESIS hexdigest) records) :
    prevHash hexdigest records = .ok (lastSealOrGenesis hexdigest records) := by
  unfold prevHash lastSealOrGenesis
  rw [readVerified_eq_ok.mpr ⟨h, rfl⟩]
  cases records using reverseRecOn with
  | nil => rfl
  | append_singleton rs last =>
    simp only [getLast?_concat]
    rw [hashOrReceipt_eq_ok, Except.mapError]
    cases hc : chained last with
    | true => exact .inl ⟨_, ((verified_snoc_chained hc).mp h).2.2, truthy_sha _⟩
    | false =>
      obtain ⟨s, -, hr⟩ := ((verified_snoc_decision hc).mp h).2
      exact .inr ⟨_, hr⟩

lemma lastSeal_of_event {records} (h : Verified hexdigest (GENESIS hexdigest) records)
    (hl : ∀ last ∈ records.getLast?, chained last = true) :
    some (lastSealOrGenesis hexdigest records) = chainHead hexdigest records := by
  cases records using reverseRecOn with
  | nil => rfl
  | append_singleton rs last =>
    have hc := hl last (by simp)
    have hi : last.get? "hash" = some (.str (recomputeEventHash hexdigest last)) :=
      ((verified_snoc_chained hc).mp h).2.2
    unfold lastSealOrGenesis chainHead
    rw [getLast?_concat, filter_append, filter_cons_of_pos hc, filter_nil, tip_snoc]
    show some (getHashOrReceipt last) = last.get? "hash"
    rw [getHashOrReceipt, hi]
    exact congrArg some (if_pos (truthy_sha _))

lemma lastSeal_of_decision {records last} (hl : records.getLast? = some last)
    (hh : last.get? "hash" = none) {s} (hr : last.get? "receipt" = some s) :
    lastSealOrGenesis hexdigest records = s := by
  unfold lastSealOrGenesis
  rw [hl]
  show getHashOrReceipt last = s
  rw [getHashOrReceipt, hh, hr]
  rfl
lemma prevHash_eq_ok_iff {records v} : prevHash hexdigest records = .ok v ↔
    Verified hexdigest (GENESIS hexdigest) records ∧ v = lastSealOrGenesis hexdigest records := by
  refine ⟨fun h => ?_, fun h => by rw [prevHash_of_verified h.1, h.2]⟩
  have hv : Verified hexdigest (GENESIS hexdigest) records := by
    by_contra hv
    unfold prevHash at h
    split at h
    · cases h
    · rename_i hr
      exact hv (readVerified_eq_ok.mp hr).1
  rw [prevHash_of_verified hv] at h
  cases h
  exact ⟨hv, rfl⟩

lemma emitRead_eq_ok {q records read} : emitRead hexdigest q records = .ok read ↔
    policyHash hexdigest q.registry = .ok read.1 ∧
      Verified hexdigest (GENESIS hexdigest) records ∧
        read.2 = lastSealOrGenesis hexdigest records := by
  obtain ⟨policy, prev⟩ := read
  simp only [emitRead, bind_eq_ok, prevHash_eq_ok_iff, pure, Except.pure, ok.injEq, Prod.mk.injEq]
  refine ⟨?_, ?_⟩
  · intro ⟨_, hp, _, hv, rfl, rfl⟩
    exact ⟨hp, hv⟩
  · intro ⟨hp, hv⟩
    exact ⟨_, hp, _, hv, rfl, rfl⟩

lemma exists_emitSeal_iff {q read} : (∃ event, emitSeal hexdigest q read = .ok event) ↔
    ∃ target, toolTarget q.tool q.registry = .ok target := by
  refine ⟨?_, ?_⟩
  · intro ⟨event, h⟩
    obtain ⟨target, ht, -⟩ := bind_eq_ok.mp h
    exact ⟨target, ht⟩
  · intro ⟨target, ht⟩
    exact ⟨_, bind_eq_ok.mpr ⟨target, ht, rfl⟩⟩

lemma emitEvent_eq_ok {q path disk event disk'} :
    emitEvent hexdigest q path disk = .ok (event, disk') ↔
      (∃ read, emitRead hexdigest q (readRaw disk (some path)) = .ok read ∧
        emitSeal hexdigest q read = .ok event) ∧ disk' = append disk event (some path) := by
  simp only [emitEvent, bind_eq_ok, pure, Except.pure, ok.injEq, Prod.mk.injEq]
  refine ⟨?_, ?_⟩
  · intro ⟨read, hr, _, hs, rfl, e⟩
    exact ⟨⟨read, hr, hs⟩, e.symm⟩
  · intro ⟨⟨read, hr, hs⟩, e⟩
    exact ⟨read, hr, event, hs, rfl, e.symm⟩

lemma sealAndPersistScr_eq_ok {ts artifact path disk event disk'} :
    sealAndPersistScr hexdigest ts artifact path true disk = .ok (event, disk') ↔
      Verified hexdigest (GENESIS hexdigest) (readRaw disk path) ∧
        event = artifactEvent hexdigest "SupplyChainRiskAssessment" ts
          (lastSealOrGenesis hexdigest (readRaw disk path)) artifact ∧
        disk' = append disk event path := by
  simp only [sealAndPersistScr, nextPrevHash, bind_eq_ok, prevHash_eq_ok_iff, pure, Except.pure,
    ok.injEq, Prod.mk.injEq, if_true]
  refine ⟨?_, ?_⟩
  · rintro ⟨_, ⟨hv, rfl⟩, rfl, rfl⟩
    exact ⟨hv, rfl, rfl⟩
  · rintro ⟨hv, rfl, rfl⟩
    exact ⟨_, ⟨hv, rfl⟩, rfl, rfl⟩

/-- With a path the verdict writers continue the file at that path. -/
lemma recordsToContinue_explicit {path disk records} :
    recordsToContinue hexdigest disk (some path) = .ok records ↔
      Verified hexdigest (GENESIS hexdigest) (readRaw disk (some path)) ∧
        records = readRaw disk (some path) := by
  unfold recordsToContinue
  cases he : ledgerExists disk (some path) with
  | true => rw [if_pos rfl, mapError_eq_ok, readVerified_eq_ok]
  | false =>
    have he' : (disk path).isSome = false := he
    have hr : readRaw disk (some path) = [] := by
      show (disk path).getD [] = []
      cases hd : disk path with
      | none => rfl
      | some rs => rw [hd] at he'; cases he'
    rw [if_neg Bool.false_ne_true, hr, ok.injEq, eq_comm]
    exact ⟨fun e => ⟨verified_nil _, e⟩, fun h => h.2⟩

lemma sealAndPersistVerdict_explicit {type ts artifact path disk event disk'} :
    sealAndPersistVerdict hexdigest type ts artifact (some path) true disk = .ok (event, disk') ↔
      Verified hexdigest (GENESIS hexdigest) (readRaw disk (some path)) ∧
        event = artifactEvent hexdigest type ts
          (lastSealOrGenesis hexdigest (readRaw disk (some path))) artifact ∧
        disk' = append disk event (some path) := by
  simp only [sealAndPersistVerdict, bind_eq_ok, recordsToContinue_explicit, pure, Except.pure,
    ok.injEq, Prod.mk.injEq, if_true]
  refine ⟨?_, ?_⟩
  · rintro ⟨_, ⟨hv, rfl⟩, rfl, rfl⟩
    exact ⟨hv, rfl, rfl⟩
  · rintro ⟨hv, rfl, rfl⟩
    exact ⟨_, ⟨hv, rfl⟩, rfl, rfl⟩

lemma gateInclusionPersist_eq_ok {py q path disk record disk'} :
    gateInclusionPersist hexdigest py q path true disk = .ok (record, disk') ↔
      ∃ d, gateInclusion hexdigest py q = .ok d ∧ record = d.toDict ∧
        disk' = append disk record path := by
  simp only [gateInclusionPersist, bind_eq_ok, mapError_eq_ok, pure, Except.pure, ok.injEq,
    Prod.mk.injEq, if_true]
  refine exists_congr fun d => and_congr_right fun _ => ?_
  refine ⟨?_, ?_⟩
  · rintro ⟨rfl, rfl⟩
    exact ⟨rfl, rfl⟩
  · rintro ⟨rfl, rfl⟩
    exact ⟨rfl, rfl⟩
end

end SocioWorkspace.Ledger
