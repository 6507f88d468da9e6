import SocioWorkspace.Lib.Padded
import SocioWorkspace.Lib.SortedMap

/-!
# The file queue

Model of `DurableQueue` of `automation/durable_queue.py`: one directory, and any number of processes that run
`put` and `get_nowait` on it. A step is one call to the file system, the clock or the random generator, and a
process may crash between any two of them. A file is empty or holds an entry. `empty`, `qsize` and `peek_all`
are left out.
-/

namespace SocioWorkspace.Queue
open Padded List

/-- What `time.monotonic_ns()` can return. -/
abbrev Nanos := Fin (2 ^ 63)

/-- Python `uuid.uuid4().hex`. -/
@[ext]
structure Uuid where
  hex : List Char
  length_hex : hex.length = 32
  hex_digits : ∀ c ∈ hex, c.isDigit ∨ ('a' ≤ c ∧ c ≤ 'f')
deriving DecidableEq

@[ext]
structure ItemId where
  ns : Nanos
  uuid : Uuid
deriving DecidableEq

namespace ItemId

/-- Python `f"{time.monotonic_ns():020d}-{uuid.uuid4().hex}"`. -/
def text (id : ItemId) : List Char := padded 20 id.ns ++ '-' :: id.uuid.hex

/-- Python `f"{item_id}.json"`. -/
def target (id : ItemId) : String := .ofList (id.text ++ ".json".toList)

def claim (id : ItemId) : String := .ofList (id.text ++ ".claimed".toList)

end ItemId

/-- Python `Path.with_suffix` on a name with a suffix. -/
def withSuffix (name suffix : String) : String :=
  .ofList (((name.toList.reverse.dropWhile (· ≠ '.')).drop 1).reverse ++ suffix.toList)

/-- The name that `mkstemp(prefix=".tmp-", suffix=".json")` builds around its random part. -/
def tmpName (random : String) : String := ".tmp-" ++ random ++ ".json"

/-- Where a `put` call is. -/
inductive Put (E : Type) where
  | idle
  | named (id : ItemId) (entry : E)
  | opened (id : ItemId) (entry : E) (tmp : String)
  | written (id : ItemId) (entry : E) (tmp : String)

/-- Where a `get_nowait` call is. -/
inductive Get (E : Type) where
  | idle
  | scanning (paths : List String)
  | claimed (path : String)
  | read (path : String) (data : Option E)
  | unlinked (path : String) (data : Option E)

/-- What a caller sees, and the crashes of consumers. -/
inductive Event (E : Type) where
  | started (id : ItemId)
  | completed (id : ItemId)
  | returned (path : String) (data : E)
  | crashed (held : Option String)

structure State (E : Type) where
  clock : Nanos
  drawn : List Uuid
  files : SortedMap String (Option E)
  puts : ℕ → Put E
  gets : ℕ → Get E
  log : List (Event E)

def State.init (E : Type) (clock : Nanos) : State E := ⟨clock, [], .empty, fun _ => .idle, fun _ => .idle, []⟩

def Put.id? {E : Type} : Put E → Option ItemId
  | idle => none
  | named id _ => some id
  | opened id _ _ => some id
  | written id _ _ => some id

def Put.tmp? {E : Type} : Put E → Option String
  | idle => none
  | named _ _ => none
  | opened _ _ tmp => some tmp
  | written _ _ tmp => some tmp

/-- The item that a `get_nowait` call has claimed and not returned. -/
def Get.held? {E : Type} : Get E → Option String
  | idle => none
  | scanning _ => none
  | claimed path => some path
  | read path _ => some path
  | unlinked path _ => some path

/-- Python `glob("*.json")` without the temporary files. -/
def visible (name : String) : Bool :=
  ".json".toList.isSuffixOf name.toList && !".tmp-".toList.isPrefixOf name.toList

section
variable {E : Type}

/-- Python `DurableQueue._pending`. -/
def State.pending (s : State E) : List String := s.files.keys.filter visible

namespace State

section
variable (s : State E)

def setPut (p : ℕ) (call : Put E) : State E := { s with puts := Function.update s.puts p call }

def setGet (k : ℕ) (call : Get E) : State E := { s with gets := Function.update s.gets k call }

def setFiles (files : SortedMap String (Option E)) : State E := { s with files }

def emit (event : Event E) : State E := { s with log := s.log ++ [event] }

end

end State

/-- A step of the `put` call of process `p`. -/
inductive PutStep (p : ℕ) : State E → State E → Prop where
  /-- `item_id` is made of the clock and of a fresh random part. -/
  | start {s uuid entry} : s.puts p = .idle → uuid ∉ s.drawn →
    PutStep p s (({ s with drawn := uuid :: s.drawn }.setPut p (.named ⟨s.clock, uuid⟩ entry)).emit
      (.started ⟨s.clock, uuid⟩))
  | mkstemp {s id entry random} : s.puts p = .named id entry → s.files.get? (tmpName random) = none →
    PutStep p s ((s.setFiles (s.files.insert (tmpName random) none)).setPut p
      (.opened id entry (tmpName random)))
  | dump {s id entry tmp} : s.puts p = .opened id entry tmp →
    PutStep p s ((s.setFiles (s.files.insert tmp (some entry))).setPut p (.written id entry tmp))
  | rename {s id entry tmp content} : s.puts p = .written id entry tmp →
    s.files.get? tmp = some content →
    PutStep p s (((s.setFiles ((s.files.erase tmp).insert id.target content)).setPut p .idle).emit
      (.completed id))
  /-- An exception behind `mkstemp`: the temporary file is removed and the call raises. -/
  | fail {s tmp} : (s.puts p).tmp? = some tmp → PutStep p s ((s.setFiles (s.files.erase tmp)).setPut p .idle)

/-- A step of the `get_nowait` call of process `k`. -/
inductive GetStep (k : ℕ) : State E → State E → Prop where
  | list {s} : s.gets k = .idle → GetStep k s (s.setGet k (.scanning s.pending))
  | claim {s path paths content} : s.gets k = .scanning (path :: paths) →
    s.files.get? path = some content →
    GetStep k s ((s.setFiles ((s.files.erase path).insert (withSuffix path ".claimed") content)).setGet k
      (.claimed path))
  /-- Another process was faster: `FileNotFoundError`, `continue`. -/
  | lose {s path paths} : s.gets k = .scanning (path :: paths) → s.files.get? path = none →
    GetStep k s (s.setGet k (.scanning paths))
  /-- `raise queue.Empty`. -/
  | empty {s} : s.gets k = .scanning [] → GetStep k s (s.setGet k .idle)
  | read {s path content} : s.gets k = .claimed path →
    s.files.get? (withSuffix path ".claimed") = some content →
    GetStep k s (s.setGet k (.read path content))
  /-- The claimed file is gone: the call raises. -/
  | missing {s path} : s.gets k = .claimed path →
    s.files.get? (withSuffix path ".claimed") = none → GetStep k s (s.setGet k .idle)
  | unlink {s path content} : s.gets k = .read path content →
    GetStep k s ((s.setFiles (s.files.erase (withSuffix path ".claimed"))).setGet k
      (.unlinked path content))
  /-- `return data`. -/
  | ret {s path data} : s.gets k = .unlinked path (some data) →
    GetStep k s ((s.setGet k .idle).emit (.returned path data))
  /-- `json.loads` of an empty file: the call raises. -/
  | garbage {s path} : s.gets k = .unlinked path none → GetStep k s (s.setGet k .idle)

inductive Tick : State E → State E → Prop where
  | tick {s ns} : s.clock ≤ ns → Tick s { s with clock := ns }

/-- A process stops, or the host boots again when every process has stopped. -/
inductive Crash : State E → State E → Prop where
  | get {s} (k) : Crash s ((s.setGet k .idle).emit (.crashed (s.gets k).held?))
  | put {s} (p) : Crash s (s.setPut p .idle)
  | reboot {s ns} : (∀ p, s.puts p = .idle) → (∀ k, s.gets k = .idle) → Crash s { s with clock := ns }

/-- One step of any process, of the clock or of a fault. -/
inductive Step : State E → State E → Prop where
  | tick {s t} : Tick s t → Step s t
  | put {s t} (p) : PutStep p s t → Step s t
  | get {s t} (k) : GetStep k s t → Step s t
  | crash {s t} : Crash s t → Step s t

inductive Reachable : State E → Prop where
  | init (clock) : Reachable (.init E clock)
  | step {s t} : Reachable s → Step s t → Reachable t

end

namespace ItemId

lemma text_length (id : ItemId) : (padded 20 id.ns).length = 20 := length_padded (by omega) (by omega)

lemma text_injective : Function.Injective text := by
  intro a b h
  have hlen : (padded 20 a.ns).length = (padded 20 b.ns).length := by
    rw [text_length, text_length]
  obtain ⟨hns, hrest⟩ := append_inj h hlen
  have huuid := tail_eq_of_cons_eq hrest
  exact ItemId.ext (Fin.ext (padded_injective 20 hns)) (Uuid.ext huuid)

lemma target_inj {a b : ItemId} : a.target = b.target ↔ a = b := by
  refine ⟨fun h => text_injective ?_, congrArg target⟩
  exact append_cancel_right (String.ofList_injective h)

lemma claim_inj {a b : ItemId} : a.claim = b.claim ↔ a = b := by
  refine ⟨fun h => text_injective ?_, congrArg claim⟩
  exact append_cancel_right (String.ofList_injective h)

lemma toList_target (id : ItemId) : id.target.toList = id.text ++ ".json".toList :=
  String.toList_ofList

lemma toList_claim (id : ItemId) : id.claim.toList = id.text ++ ".claimed".toList :=
  String.toList_ofList

lemma target_ne_claim (a b : ItemId) : a.target ≠ b.claim := by
  intro h
  have hrev := congrArg List.reverse (String.ofList_injective h)
  rw [reverse_append, reverse_append] at hrev
  cases head_eq_of_cons_eq hrev

lemma text_head (id : ItemId) : ∃ c rest, id.text = c :: rest ∧ c.isDigit = true := by
  have hlen := text_length id
  cases h : padded 20 id.ns with
  | nil =>
    rw [h] at hlen
    cases hlen
  | cons c rest =>
    have hc : c ∈ padded 20 id.ns := by
      rw [h]
      exact mem_cons_self ..
    refine ⟨c, rest ++ '-' :: id.uuid.hex, ?_, isDigit_of_mem_padded hc⟩
    rw [text, h]
    rfl

lemma not_tmp_isPrefixOf (id : ItemId) (suffix : List Char) :
    ".tmp-".toList.isPrefixOf (id.text ++ suffix) = false := by
  obtain ⟨c, rest, h, hc⟩ := id.text_head
  have hdot : ('.' == c) = false := by
    refine beq_eq_false_iff_ne.2 fun e => ?_
    rw [← e] at hc
    cases hc
  rw [h]
  show ('.' == c && _) = false
  rw [hdot]
  rfl

lemma tmp_isPrefixOf (random : String) : ".tmp-".toList.isPrefixOf (tmpName random).toList = true := by
  rw [ isPrefixOf_iff_prefix, tmpName, String.toList_append, String.toList_append, append_assoc]
  exact prefix_append _ _

section
variable (id : ItemId)

lemma target_ne_tmp (random : String) : id.target ≠ tmpName random := by
  intro h
  have hpre := not_tmp_isPrefixOf id ".json".toList
  rw [← toList_target, h, tmp_isPrefixOf] at hpre
  cases hpre

lemma claim_ne_tmp (random : String) : id.claim ≠ tmpName random := by
  intro h
  have hpre := not_tmp_isPrefixOf id ".claimed".toList
  rw [← toList_claim, h, tmp_isPrefixOf] at hpre
  cases hpre

@[simp] lemma withSuffix_target : withSuffix id.target ".claimed" = id.claim := by
  rw [withSuffix, toList_target, reverse_append]
  show String.ofList (id.text.reverse.reverse ++ _) = _
  rw [reverse_reverse]
  rfl

@[simp] lemma visible_target : visible id.target = true := by
  have hsuffix : ".json".toList.isSuffixOf (id.text ++ ".json".toList) = true :=
    isSuffixOf_iff_suffix.2 (suffix_append _ _)
  rw [visible, toList_target, hsuffix, not_tmp_isPrefixOf]
  rfl

@[simp] lemma visible_claim : visible id.claim = false := by
  have hsuffix : ".json".toList.isSuffixOf (id.text ++ ".claimed".toList) = false := by
    rw [List.isSuffixOf, reverse_append]
    rfl
  rw [visible, toList_claim, hsuffix]
  rfl

end

/-- Names sort by the clock, and by the random part between equal clock values. -/
theorem target_lt_iff (a b : ItemId) :
    a.target < b.target ↔ a.ns < b.ns ∨ a.ns = b.ns ∧ a.uuid.hex < b.uuid.hex := by
  have hpad : (padded 20 a.ns).length = (padded 20 b.ns).length := by
    rw [text_length, text_length]
  have hhex : a.uuid.hex.length = b.uuid.hex.length := by
    rw [a.uuid.length_hex, b.uuid.length_hex]
  have hns : padded 20 a.ns < padded 20 b.ns ↔ a.ns < b.ns := padded_lt_iff (by omega) (by omega) (by omega)
  have heq : padded 20 a.ns = padded 20 b.ns ↔ a.ns = b.ns :=
    ⟨fun h => Fin.ext (padded_injective 20 h), fun h => by rw [h]⟩
  rw [String.lt_iff_toList_lt, toList_target, toList_target, text, text, append_assoc,
    append_assoc, append_lt_append_iff hpad, hns, heq, cons_append, cons_append,
    cons_lt_cons_self, append_lt_append_iff hhex]
  simp

end ItemId

lemma get?_rename {E : Type} {old new name} (h : name ≠ old) (h' : name ≠ new)
    (files : SortedMap String (Option E)) (content : Option E) :
    ((files.erase old).insert new content).get? name = files.get? name := by
  rw [SortedMap.get?_insert_of_ne h', SortedMap.get?_erase_of_ne h]

@[simp] lemma visible_tmp (random : String) : visible (tmpName random) = false := by
  rw [visible, ItemId.tmp_isPrefixOf, Bool.not_true, Bool.and_false]

end SocioWorkspace.Queue
