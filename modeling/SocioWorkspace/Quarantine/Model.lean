import SocioWorkspace.Lib.OrderedDict
import SocioWorkspace.Lib.PyJson

/-!
# Session quarantine

Model of `SessionQuarantineProtocol` of `automation/session_quarantine.py`. An event is a decoded dict with the
number of the `event_received` call that brought it, which stands for the identity of the object. `received`
has the events of all calls, also of those that raised. `==` on decoded values, `str` and `uuid4` are
parameters (`Builtins`). Times are microseconds; random ids of receipts and of evidence, the time of a receipt
and log lines are left out.
-/

namespace SocioWorkspace.Quarantine
open Python

/-- Python `==`, `str` and the random ids of events without one. -/
structure Builtins where
  eq : Value → Value → Bool
  str : Value → String
  uuid : ℕ → String

structure Event where
  serial : ℕ
  fields : Dict
deriving DecidableEq

def Event.get (e : Event) (key : String) : Value := (e.fields.get? key).getD .null

/-- Python `OrphanEntry`. -/
structure OrphanEntry where
  eventId : Value
  event : Event
  receivedAt : ℤ
  reconciled : Bool
  recoveredSessionId : Option String

def OrphanEntry.recover (entry : OrphanEntry) (sessionId : String) : OrphanEntry :=
  { entry with reconciled := true, recoveredSessionId := some sessionId }

def OrphanEntry.close (entry : OrphanEntry) : OrphanEntry := { entry with reconciled := true }

inductive Status where
  | quarantined
  | recovered
deriving DecidableEq

/-- Python `EvidenceRef`. -/
structure EvidenceRef where
  eventId : Value
  kind : String
  hint : String

/-- Python `OrphanEventReceipt`, and the number of the event. -/
structure OrphanEventReceipt where
  serial : ℕ
  eventId : Value
  status : Status
  ttlSeconds : ℤ
  reconciliationAttempts : ℕ
  evidenceRefs : List EvidenceRef
  recoveredSessionId : Option String

/-- Python `_RECONCILE_KEYS`. -/
def RECONCILE_KEYS : List String := ["conversation_id", "parent_id", "workspace_id", "task_id"]

/-- Python `SessionQuarantineProtocol`. -/
structure Protocol where
  ttlSeconds : ℤ
  sessions : List (String × List Event)
  orphanQueue : List (Value × OrphanEntry)
  receipts : List OrphanEventReceipt
  reconcileCounts : List (Value × ℕ)
  received : List Event

def Protocol.init (ttlSeconds : ℤ) : Protocol := ⟨ttlSeconds, [], [], [], [], []⟩

/-- Python `DEFAULT_TTL_SECONDS`. -/
def DEFAULT_TTL_SECONDS : ℤ := 300

namespace Protocol

def attached (s : Protocol) : List Event := s.sessions.flatMap Prod.snd

/-- Python `get_orphan_queue`. -/
def pending (s : Protocol) : List OrphanEntry :=
  (s.orphanQueue.map Prod.snd).filter fun entry => !entry.reconciled

/-- Python `SessionQuarantineProtocol.register_session`. -/
def registerSession (s : Protocol) (sessionId : String) : Protocol :=
  if sessionId ∈ s.sessions.map Prod.fst then s
  else { s with sessions := s.sessions ++ [(sessionId, [])] }

/-- Python `SessionQuarantineProtocol._attach_to_session`. -/
def attachToSession (s : Protocol) (sessionId : String) (e : Event) : Protocol :=
  { s with sessions := OrderedDict.modify (· == ·) sessionId (· ++ [e]) s.sessions }

variable (py : Builtins)

/-- Python `SessionQuarantineProtocol._enqueue_orphan`. -/
def enqueueOrphan (s : Protocol) (eventId : Value) (e : Event) (now : ℤ) : Protocol :=
  { s with orphanQueue := OrderedDict.set py.eq eventId ⟨eventId, e, now, false, none⟩ s.orphanQueue }

def eventId (n : ℕ) (fields : Dict) : Value :=
  let given := (fields.get? "event_id").getD .null
  if given.truthy then given else .str (py.uuid n)

def stamped (n : ℕ) (fields : Dict) : Event :=
  ⟨n, if (fields.get? "event_id").isSome then fields else fields.insert "event_id" (eventId py n fields)⟩

/-- The session that an event names, if it is known. An id that is no member of a dict raises. -/
def knownSession (s : Protocol) (fields : Dict) : Except PyError (Option String) :=
  let sessionId := (fields.get? "session_id").getD (.str "")
  if !sessionId.truthy then .ok none
  else if !sessionId.hashable then .error .type
  else .ok (sessionId.asStr.filter (· ∈ s.sessions.map Prod.fst))

/-- Python `event_received`: the new state, or the exception that the call raises. -/
def eventReceived (s : Protocol) (fields : Dict) (now : ℤ) : Except PyError Protocol := do
  let e := stamped py s.received.length fields
  let id := eventId py s.received.length fields
  match ← s.knownSession fields with
  | some sessionId => return s.attachToSession sessionId e
  | none => if id.hashable then return s.enqueueOrphan py id e now else throw .type

def sharesKey (e : Event) (key : String) (a : Event) : Bool :=
  (e.get key).truthy && py.eq (a.get key) (e.get key)

/-- Python `SessionQuarantineProtocol._find_matching_session`. -/
def findMatchingSession (s : Protocol) (e : Event) : Option String :=
  RECONCILE_KEYS.findSome? fun key =>
    (s.sessions.find? fun session => session.2.any (sharesKey py e key)).map Prod.fst

/-- Python `SessionQuarantineProtocol._build_evidence_refs`. -/
def buildEvidenceRefs (entry : OrphanEntry) : List EvidenceRef :=
  (RECONCILE_KEYS.filter fun key => (entry.event.get key).truthy).map fun key =>
    ⟨entry.eventId, key, key ++ "=" ++ py.str (entry.event.get key)⟩

def reconcileCount (s : Protocol) (eventId : Value) : ℕ :=
  (OrderedDict.get? py.eq s.reconcileCounts eventId).getD 0

/-- Python `SessionQuarantineProtocol._emit_receipt`. -/
def emitReceipt (s : Protocol) (entry : OrphanEntry) (status : Status) : Protocol :=
  { s with receipts := s.receipts ++ [⟨entry.event.serial, entry.eventId, status, s.ttlSeconds,
      s.reconcileCount py entry.eventId, buildEvidenceRefs py entry, entry.recoveredSessionId⟩] }

def countAttempt (s : Protocol) (eventId : Value) : Protocol :=
  { s with reconcileCounts :=
      OrderedDict.set py.eq eventId (s.reconcileCount py eventId + 1) s.reconcileCounts }

/-- The turn of one entry in `reconcile`: the entry afterwards, and whether it is to be quarantined. -/
def visit (now : ℤ) (s : Protocol) (entry : OrphanEntry) : Protocol × OrphanEntry × Bool :=
  if entry.reconciled then (s, entry, false)
  else
    let s := s.countAttempt py entry.eventId
    match (s.findMatchingSession py entry.event).filter (· ≠ "") with
    | some sessionId =>
      ((s.attachToSession sessionId entry.event).emitReceipt py (entry.recover sessionId) .recovered,
        entry.recover sessionId, false)
    | none => (s, entry, s.ttlSeconds * 1000000 ≤ now - entry.receivedAt)

/-- The loop of `reconcile` over the queue. -/
def sweep (now : ℤ) (s : Protocol) :
    List (Value × OrphanEntry) → Protocol × List (Value × OrphanEntry × Bool)
  | [] => (s, [])
  | (key, entry) :: entries =>
    let (s, visited) := s.visit py now entry
    let (s, rest) := s.sweep now entries
    (s, (key, visited) :: rest)

/-- Python `_quarantine`, on what the loop has marked. -/
def quarantine (s : Protocol) : List (Value × OrphanEntry × Bool) → Protocol × List (Value × OrphanEntry)
  | [] => (s, [])
  | (key, entry, true) :: entries =>
    let (s, rest) := (s.emitReceipt py entry.close .quarantined).quarantine entries
    (s, (key, entry.close) :: rest)
  | (key, entry, false) :: entries =>
    let (s, rest) := s.quarantine entries
    (s, (key, entry) :: rest)

/-- Python `SessionQuarantineProtocol.reconcile`. -/
def reconcile (s : Protocol) (now : ℤ) : Protocol :=
  let (s, visited) := s.sweep py now s.orphanQueue
  let (s, queue) := s.quarantine py visited
  { s with orphanQueue := queue }

def record (s : Protocol) (e : Event) : Protocol := { s with received := s.received ++ [e] }

inductive Call where
  | registerSession (sessionId : String)
  | eventReceived (fields : Dict) (now : ℤ)
  | reconcile (now : ℤ)

/-- One call; an event whose call raises is received and goes nowhere. -/
def step (s : Protocol) : Call → Protocol
  | .registerSession sessionId => s.registerSession sessionId
  | .eventReceived fields now =>
    let e := stamped py s.received.length fields
    match s.eventReceived py fields now with
    | .ok s => s.record e
    | .error _ => s.record e
  | .reconcile now => s.reconcile py now

end Protocol

end SocioWorkspace.Quarantine
