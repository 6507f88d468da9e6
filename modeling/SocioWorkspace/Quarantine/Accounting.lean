import SocioWorkspace.Lib.Run
import SocioWorkspace.Quarantine.Model

/-!
# Accounting of lifecycle events

For each event, how often it is attached to a session, pending in the queue, named by a receipt of its
recovery and named by a receipt of its quarantine. `Sound` holds in every run: nothing is counted twice.
What can fail is that an event is counted at all.

`step_sound` goes through the calls of the protocol and `run_sound` is the induction over a run.
`nothing_lost_iff` says which calls keep every event accounted for.
-/

namespace SocioWorkspace.Quarantine
open Python List Option OrderedDict

namespace Protocol

def isPending (n : ℕ) (entry : OrphanEntry) : Bool := !entry.reconciled && entry.event.serial = n

def attachedCount (s : Protocol) (n : ℕ) : ℕ := s.attached.countP (·.serial = n)

def pendingCount (s : Protocol) (n : ℕ) : ℕ := s.orphanQueue.countP (isPending n ·.2)

def receiptCount (status : Status) (s : Protocol) (n : ℕ) : ℕ :=
  s.receipts.countP fun r => r.status = status ∧ r.serial = n

/-- Attached on arrival, pending, recovered or quarantined: one of them, and once. -/
def Accounted (s : Protocol) (n : ℕ) : Prop :=
  (s.attachedCount n, s.pendingCount n, receiptCount .recovered s n, receiptCount .quarantined s n) ∈
    [(1, 0, 0, 0), (0, 1, 0, 0), (1, 0, 1, 0), (0, 0, 0, 1)]

instance (s : Protocol) (n : ℕ) : Decidable (s.Accounted n) :=
  inferInstanceAs (Decidable (_ ∈ [(1, 0, 0, 0), (0, 1, 0, 0), (1, 0, 1, 0), (0, 0, 0, 1)]))

def NothingLost (s : Protocol) : Prop := ∀ n < s.received.length, s.Accounted n

def places (s : Protocol) (n : ℕ) : ℕ := s.attachedCount n + s.pendingCount n + receiptCount .quarantined s n

structure Sound (s : Protocol) : Prop where
  once : ∀ n, s.places n ≤ 1
  recovered : ∀ n, receiptCount .recovered s n ≤ s.attachedCount n
  known : ∀ n, s.received.length ≤ n → s.places n = 0

lemma Sound.accounted_iff {s} (h : Sound s) (n : ℕ) : s.Accounted n ↔ s.places n = 1 := by
  have hrecovered := h.recovered n
  unfold places at *
  unfold Accounted
  simp only [mem_cons, not_mem_nil, Prod.mk.injEq, or_false]
  omega

variable {py : Builtins} {s : Protocol}

lemma attached_attachToSession {sessionId} (h : sessionId ∈ s.sessions.map Prod.fst)
    (e : Event) : (s.attachToSession sessionId e).attached.Perm (e :: s.attached) := by
  obtain ⟨session, hsession, rfl⟩ := mem_map.1 h
  obtain ⟨l₁, k, events, l₂, hsplit, -, hmodify⟩ :=
    @OrderedDict.modify_cases _ _ (· == ·) s.sessions session.1 (· ++ [e])
      ⟨session, hsession, beq_self_eq_true _⟩
  rw [attached, attached, attachToSession, hmodify, hsplit]
  simp only [flatMap_append, flatMap_cons]
  refine List.Perm.trans ?_ perm_middle
  refine List.Perm.append_left _ ?_
  rw [append_assoc]
  exact perm_middle

lemma attachedCount_attach {sessionId} (h : sessionId ∈ s.sessions.map Prod.fst) (e : Event)
    (n : ℕ) : (s.attachToSession sessionId e).attachedCount n =
      s.attachedCount n + if e.serial = n then 1 else 0 := by
  rw [attachedCount, (attached_attachToSession h e).countP_eq, countP_cons]
  simp [attachedCount]

lemma mem_of_findMatchingSession {e sessionId}
    (h : s.findMatchingSession py e = some sessionId) : sessionId ∈ s.sessions.map Prod.fst := by
  obtain ⟨key, -, hkey⟩ := exists_of_findSome?_eq_some h
  obtain ⟨session, hsession, rfl⟩ := map_eq_some_iff.1 hkey
  exact mem_map_of_mem (mem_of_find?_eq_some hsession)

lemma receiptCount_emit (entry : OrphanEntry) (status status' : Status) (n : ℕ) :
    receiptCount status' (s.emitReceipt py entry status) n =
      receiptCount status' s n + if status = status' ∧ entry.event.serial = n then 1 else 0 := by
  rw [receiptCount, emitReceipt, countP_append, countP_singleton]
  simp [receiptCount]

lemma visit_cases (py : Builtins) (s : Protocol) (now : ℤ) (entry : OrphanEntry) :
    entry.reconciled = true ∧ s.visit py now entry = (s, entry, false) ∨
    entry.reconciled = false ∧
      ((∃ sessionId, sessionId ≠ "" ∧ s.findMatchingSession py entry.event = some sessionId ∧
        s.visit py now entry = (((s.countAttempt py entry.eventId).attachToSession sessionId
          entry.event).emitReceipt py (entry.recover sessionId) .recovered, entry.recover sessionId,
          false)) ∨
      (∀ sessionId, s.findMatchingSession py entry.event = some sessionId → sessionId = "") ∧
        s.visit py now entry = (s.countAttempt py entry.eventId, entry,
          decide (s.ttlSeconds * 1000000 ≤ now - entry.receivedAt))) := by
  cases hdone : entry.reconciled with
  | true =>
    refine .inl ⟨rfl, ?_⟩
    rw [visit, hdone]
    rfl
  | false =>
    -- counting the attempt does not change what the sessions hold
    have hcount : (s.countAttempt py entry.eventId).findMatchingSession py entry.event =
        s.findMatchingSession py entry.event := rfl
    refine .inr ⟨rfl, ?_⟩
    rw [visit, hdone]
    simp only [Bool.false_eq_true, if_false, hcount]
    cases hmatch : s.findMatchingSession py entry.event with
    | none =>
      refine .inr ⟨?_, rfl⟩
      intro _ h
      cases h
    | some sessionId =>
      by_cases hempty : sessionId = ""
      · refine .inr ⟨?_, ?_⟩
        · intro _ h
          cases h
          exact hempty
        · rw [hempty]
          rfl
      · refine .inl ⟨sessionId, hempty, rfl, ?_⟩
        rw [filter_some, if_pos (decide_eq_true hempty)]

/-- What the turn of one entry does to the counts of an event. -/
structure Visited (n : ℕ) (s : Protocol) (entry : OrphanEntry) (s' : Protocol) (entry' : OrphanEntry)
    (marked : Bool) : Prop where
  places : s'.attachedCount n + (if isPending n entry' then 1 else 0) =
    s.attachedCount n + (if isPending n entry then 1 else 0)
  recovered : receiptCount .recovered s' n + s.attachedCount n =
    receiptCount .recovered s n + s'.attachedCount n
  quarantined : receiptCount .quarantined s' n = receiptCount .quarantined s n
  received : s'.received = s.received
  marked : marked = true → entry'.reconciled = false

section
variable (py : Builtins) (s : Protocol)

lemma visited (n : ℕ) (now : ℤ) (entry : OrphanEntry) :
    Visited n s entry (s.visit py now entry).1 (s.visit py now entry).2.1 (s.visit py now entry).2.2 := by
  obtain ⟨hdone, hvisit⟩ | ⟨hdone, ⟨sessionId, -, hmatch, hvisit⟩ | ⟨-, hvisit⟩⟩ := visit_cases py s now entry
  · rw [hvisit]
    exact ⟨rfl, rfl, rfl, rfl, nofun⟩
  · rw [hvisit]
    have hattached := attachedCount_attach (s := s.countAttempt py entry.eventId)
      (mem_of_findMatchingSession hmatch) entry.event n
    have hsame : (s.countAttempt py entry.eventId).attachedCount n = s.attachedCount n := rfl
    have hreceipts : ∀ status, receiptCount status ((s.countAttempt py entry.eventId).attachToSession
        sessionId entry.event) n = receiptCount status s n := fun _ => rfl
    rw [hsame] at hattached
    refine ⟨?_, ?_, ?_, rfl, nofun⟩
    · show attachedCount ((s.countAttempt py entry.eventId).attachToSession sessionId entry.event) n + 0 = _
      rw [hattached, isPending, hdone]
      simp
    · rw [receiptCount_emit, hreceipts]
      show _ + s.attachedCount n = _ +
        attachedCount ((s.countAttempt py entry.eventId).attachToSession sessionId entry.event) n
      rw [hattached]
      simp only [true_and, OrphanEntry.recover]
      omega
    · rw [receiptCount_emit, hreceipts, if_neg (fun h => nomatch h.1)]
      rfl
  · rw [hvisit]
    exact ⟨rfl, rfl, rfl, rfl, fun _ => hdone⟩

lemma sweep_counts (n : ℕ) (now : ℤ) (entries : List (Value × OrphanEntry)) :
    (s.sweep py now entries).1.attachedCount n +
        (s.sweep py now entries).2.countP (isPending n ·.2.1) =
      s.attachedCount n + entries.countP (isPending n ·.2) ∧
    receiptCount .recovered (s.sweep py now entries).1 n + s.attachedCount n =
      receiptCount .recovered s n + (s.sweep py now entries).1.attachedCount n ∧
    receiptCount .quarantined (s.sweep py now entries).1 n = receiptCount .quarantined s n ∧
    (s.sweep py now entries).1.received = s.received ∧
    ∀ m ∈ (s.sweep py now entries).2, m.2.2 = true → m.2.1.reconciled = false := by
  induction entries generalizing s with
  | nil => exact ⟨rfl, rfl, rfl, rfl, nofun⟩
  | cons m entries ih =>
    obtain ⟨key, entry⟩ := m
    have hvisit := visited py s n now entry
    obtain ⟨hplaces, hrecovered, hquarantined, hreceived, hmarked⟩ := ih (s.visit py now entry).1
    have hsweep : s.sweep py now ((key, entry) :: entries) =
        (((s.visit py now entry).1.sweep py now entries).1,
          (key, (s.visit py now entry).2) :: ((s.visit py now entry).1.sweep py now entries).2) := rfl
    rw [hsweep, countP_cons, countP_cons]
    have hv := hvisit.places
    have hr := hvisit.recovered
    refine ⟨by dsimp only at *; omega, by dsimp only at *; omega, ?_, ?_, ?_⟩
    · exact hquarantined.trans hvisit.quarantined
    · exact hreceived.trans hvisit.received
    · exact forall_mem_cons.2 ⟨hvisit.marked, hmarked⟩

lemma quarantine_counts (n : ℕ) (entries : List (Value × OrphanEntry × Bool))
    (hmarked : ∀ m ∈ entries, m.2.2 = true → m.2.1.reconciled = false) :
    receiptCount .quarantined (s.quarantine py entries).1 n +
        (s.quarantine py entries).2.countP (isPending n ·.2) =
      receiptCount .quarantined s n + entries.countP (isPending n ·.2.1) ∧
    receiptCount .recovered (s.quarantine py entries).1 n = receiptCount .recovered s n ∧
    (s.quarantine py entries).1.sessions = s.sessions ∧
    (s.quarantine py entries).1.received = s.received := by
  induction entries generalizing s with
  | nil => exact ⟨rfl, rfl, rfl, rfl⟩
  | cons m entries ih =>
    obtain ⟨key, entry, marked⟩ := m
    rw [forall_mem_cons] at hmarked
    cases marked with
    | true =>
      obtain ⟨hplaces, hrecovered, hsessions, hreceived⟩ :=
        ih (s.emitReceipt py entry.close .quarantined) hmarked.2
      have hquarantine : s.quarantine py ((key, entry, true) :: entries) =
          (((s.emitReceipt py entry.close .quarantined).quarantine py entries).1, (key, entry.close) ::
            ((s.emitReceipt py entry.close .quarantined).quarantine py entries).2) := rfl
      rw [hquarantine, countP_cons, countP_cons]
      rw [receiptCount_emit] at hplaces hrecovered
      refine ⟨?_, hrecovered, hsessions, hreceived⟩
      have hopen : entry.reconciled = false := hmarked.1 rfl
      have hpending : (if isPending n entry then 1 else 0) =
          if Status.quarantined = .quarantined ∧ entry.close.event.serial = n then 1 else 0 := by
        rw [isPending, hopen]
        simp [OrphanEntry.close]
      have hclosed : (if isPending n entry.close then 1 else 0) = 0 := rfl
      dsimp only at *
      omega
    | false =>
      obtain ⟨hplaces, hrecovered, hsessions, hreceived⟩ := ih s hmarked.2
      have hquarantine : s.quarantine py ((key, entry, false) :: entries) =
          ((s.quarantine py entries).1, (key, entry) :: (s.quarantine py entries).2) := rfl
      rw [hquarantine, countP_cons, countP_cons]
      refine ⟨?_, hrecovered, hsessions, hreceived⟩
      dsimp only at *
      omega

lemma reconcile_counts (n : ℕ) (now : ℤ) :
    (s.reconcile py now).places n = s.places n ∧
    receiptCount .recovered (s.reconcile py now) n + s.attachedCount n =
      receiptCount .recovered s n + (s.reconcile py now).attachedCount n ∧
    (s.reconcile py now).received = s.received := by
  obtain ⟨hplaces, hrecovered, hquarantined, hreceived, hmarked⟩ := sweep_counts py s n now s.orphanQueue
  obtain ⟨hplaces', hrecovered', hsessions', hreceived'⟩ :=
    quarantine_counts py (s.sweep py now s.orphanQueue).1 n _ hmarked
  have hattached : (s.reconcile py now).attachedCount n =
      (s.sweep py now s.orphanQueue).1.attachedCount n := by
    show countP _ (flatMap _ _) = countP _ (flatMap _ _)
    rw [← hsessions']
    rfl
  have hpending : (s.reconcile py now).pendingCount n =
      ((s.sweep py now s.orphanQueue).1.quarantine py (s.sweep py now s.orphanQueue).2).2.countP
        (isPending n ·.2) := rfl
  have hreceipts : ∀ status, receiptCount status (s.reconcile py now) n = receiptCount status
      ((s.sweep py now s.orphanQueue).1.quarantine py (s.sweep py now s.orphanQueue).2).1 n :=
    fun _ => rfl
  refine ⟨?_, ?_, hreceived'.trans hreceived⟩
  · rw [places, places, hattached, hpending, hreceipts, pendingCount]
    omega
  · rw [hattached, hreceipts, hrecovered']
    exact hrecovered

/-- The call returns, and it does not take the place of an entry that is still pending. -/
def Keeps : Call → Prop
  | .registerSession _ => True
  | .eventReceived fields _ =>
    match s.knownSession fields with
    | .error _ => False
    | .ok (some _) => True
    | .ok none => (eventId py s.received.length fields).hashable ∧
      ∀ entry, OrderedDict.get? py.eq s.orphanQueue (eventId py s.received.length fields) = some entry →
        entry.reconciled = true
  | .reconcile _ => True

end

lemma Sound.frame {s'} (h : Sound s) (hplaces : ∀ n, s'.places n = s.places n)
    (hrecovered : ∀ n, receiptCount .recovered s' n + s.attachedCount n =
      receiptCount .recovered s n + s'.attachedCount n)
    (hreceived : s'.received = s.received) : Sound s' ∧ (NothingLost s → NothingLost s') := by
  have hsound : Sound s' := by
    refine ⟨fun n => ?_, fun n => ?_, fun n hn => ?_⟩
    · rw [hplaces]
      exact h.once n
    · have hr := hrecovered n
      have ha := h.recovered n
      omega
    · rw [hplaces]
      rw [hreceived] at hn
      exact h.known n hn
  refine ⟨hsound, fun hlost n hn => ?_⟩
  rw [hreceived] at hn
  rw [hsound.accounted_iff, hplaces, ← h.accounted_iff]
  exact hlost n hn

lemma step_eventReceived_cases (py : Builtins) (s : Protocol) (fields : Dict) (now : ℤ) :
    let e := stamped py s.received.length fields
    let id := eventId py s.received.length fields
    ¬ Keeps py s (.eventReceived fields now) ∧ s.step py (.eventReceived fields now) = s.record e ∨
    (∃ sessionId, s.knownSession fields = .ok (some sessionId) ∧
      s.step py (.eventReceived fields now) = (s.attachToSession sessionId e).record e) ∨
    s.knownSession fields = .ok none ∧ id.hashable = true ∧
      s.step py (.eventReceived fields now) = (s.enqueueOrphan py id e now).record e := by
  intro e id
  cases hknown : s.knownSession fields with
  | error err =>
    refine .inl ⟨?_, ?_⟩
    · rw [Keeps, hknown]
      exact fun h => h
    · rw [step, eventReceived, hknown]
      rfl
  | ok session =>
    cases session with
    | some sessionId =>
      refine .inr (.inl ⟨sessionId, rfl, ?_⟩)
      rw [step, eventReceived, hknown]
      rfl
    | none =>
      cases hid : id.hashable with
      | false =>
        refine .inl ⟨?_, ?_⟩
        · rw [Keeps, hknown]
          intro h
          exact Bool.false_ne_true (hid.symm.trans h.1)
        · have hraises : s.eventReceived py fields now = .error .type := by
            rw [eventReceived, hknown]
            exact if_neg (ne_true_of_eq_false hid)
          rw [step, hraises]
      | true =>
        refine .inr (.inr ⟨rfl, rfl, ?_⟩)
        have hqueued : s.eventReceived py fields now = .ok (s.enqueueOrphan py id e now) := by
          rw [eventReceived, hknown]
          exact if_pos hid
        rw [step, hqueued]

lemma mem_of_knownSession {fields sessionId}
    (h : s.knownSession fields = .ok (some sessionId)) : sessionId ∈ s.sessions.map Prod.fst := by
  unfold knownSession at h
  dsimp only at h
  split_ifs at h
  · cases h
  · have hmem := (filter_eq_some_iff.1 (Except.ok.inj h)).2
    exact of_decide_eq_true hmem

lemma Sound.arrive {s' e} (h : Sound s) (hreceived : s'.received = s.received ++ [e])
    (hplaces : ∀ n, s'.places n ≤ s.places n + if s.received.length = n then 1 else 0)
    (hrecovered : ∀ n, receiptCount .recovered s' n = receiptCount .recovered s n)
    (hattached : ∀ n, s.attachedCount n ≤ s'.attachedCount n) : Sound s' := by
  refine ⟨fun n => ?_, fun n => ?_, fun n hn => ?_⟩
  · have hp := hplaces n
    have ho := h.once n
    split_ifs at hp with hn
    · have hk := h.known n hn.le
      omega
    · omega
  · rw [hrecovered]
    exact (h.recovered n).trans (hattached n)
  · rw [hreceived, length_append, length_singleton] at hn
    have hp := hplaces n
    have hk := h.known n (by omega)
    rw [if_neg (by omega)] at hp
    omega

lemma NothingLost.arrive {s' e} (hlost : NothingLost s) (h : Sound s)
    (h' : Sound s') (hreceived : s'.received = s.received ++ [e])
    (hplaces : ∀ n, s'.places n = s.places n + if s.received.length = n then 1 else 0) :
    NothingLost s' := by
  intro n hn
  rw [hreceived, length_append, length_singleton] at hn
  rw [h'.accounted_iff, hplaces]
  by_cases hnew : s.received.length = n
  · rw [if_pos hnew, h.known n hnew.le]
  · rw [if_neg hnew, (h.accounted_iff n).1 (hlost n (by omega))]

lemma places_attach {fields sessionId}
    (h : s.knownSession fields = .ok (some sessionId)) (e : Event) (n : ℕ) :
    ((s.attachToSession sessionId e).record e).places n = s.places n + if e.serial = n then 1 else 0 := by
  have hattached := attachedCount_attach (mem_of_knownSession h) e n
  show (s.attachToSession sessionId e).attachedCount n + s.pendingCount n +
    receiptCount .quarantined s n = _
  rw [hattached, places]
  omega

/-- An orphan under an id: the entry that had the id is gone from the queue. -/
lemma places_enqueue (py : Builtins) (s : Protocol) (id : Value) (e : Event) (now : ℤ) (n : ℕ) :
    ((s.enqueueOrphan py id e now).record e).places n +
        (get? py.eq s.orphanQueue id).toList.countP (isPending n) =
      s.places n + if e.serial = n then 1 else 0 := by
  have hqueue := @OrderedDict.countP_set _ _ py.eq (isPending n) id
    ⟨id, e, now, false, none⟩ s.orphanQueue
  have hnew : isPending n ⟨id, e, now, false, none⟩ = decide (e.serial = n) := rfl
  rw [hnew] at hqueue
  simp only [decide_eq_true_eq] at hqueue
  show s.attachedCount n + (OrderedDict.set py.eq id ⟨id, e, now, false, none⟩ s.orphanQueue).countP
    (isPending n ·.2) + receiptCount .quarantined s n + _ = _
  rw [places, pendingCount]
  omega

lemma places_pos {entry key} (hentry : (key, entry) ∈ s.orphanQueue)
    (hopen : entry.reconciled = false) : 0 < s.places entry.event.serial := by
  have hpending : 0 < s.pendingCount entry.event.serial := by
    refine countP_pos_iff.2 ⟨(key, entry), hentry, ?_⟩
    rw [isPending, hopen]
    simp
  rw [places]
  omega

lemma Sound.raise (h : Sound s) (e : Event) : Sound (s.record e) ∧ ¬ NothingLost (s.record e) := by
  have hsound : Sound (s.record e) :=
    h.arrive rfl (fun n => Nat.le_add_right _ _) (fun _ => rfl) fun _ => le_rfl
  refine ⟨hsound, fun hlost => ?_⟩
  have hlt : s.received.length < (s.record e).received.length := by
    rw [record, length_append, length_singleton]
    omega
  have hplace : s.places s.received.length = 1 := (hsound.accounted_iff _).1 (hlost _ hlt)
  rw [h.known _ le_rfl] at hplace
  cases hplace

lemma Sound.attach {fields sessionId e} (h : Sound s)
    (he : e.serial = s.received.length) (hknown : s.knownSession fields = .ok (some sessionId)) :
    Sound ((s.attachToSession sessionId e).record e) ∧
      (NothingLost s → NothingLost ((s.attachToSession sessionId e).record e)) := by
  have hplaces := places_attach hknown e
  rw [he] at hplaces
  have hattached := attachedCount_attach (mem_of_knownSession hknown) e
  have hsound : Sound ((s.attachToSession sessionId e).record e) := by
    refine h.arrive rfl (fun n => (hplaces n).le) (fun _ => rfl) fun n => ?_
    show s.attachedCount n ≤ (s.attachToSession sessionId e).attachedCount n
    rw [hattached]
    exact Nat.le_add_right _ _
  exact ⟨hsound, fun hlost => hlost.arrive h hsound rfl hplaces⟩

lemma Sound.enqueue {id e now} (h : Sound s) (py : Builtins) (he : e.serial = s.received.length) :
    Sound ((s.enqueueOrphan py id e now).record e) ∧ (NothingLost s →
      (NothingLost ((s.enqueueOrphan py id e now).record e) ↔
        ∀ entry, get? py.eq s.orphanQueue id = some entry → entry.reconciled = true)) := by
  have hplaces := places_enqueue py s id e now
  rw [he] at hplaces
  have hsound : Sound ((s.enqueueOrphan py id e now).record e) :=
    h.arrive rfl (fun n => (Nat.le_add_right _ _).trans (hplaces n).le) (fun _ => rfl) fun _ => le_rfl
  refine ⟨hsound, fun hlost => ?_⟩
  cases hold : get? py.eq s.orphanQueue id with
  | none =>
    rw [hold] at hplaces
    exact iff_of_true (hlost.arrive h hsound rfl hplaces) nofun
  | some entry =>
    obtain ⟨key, hentry⟩ := mem_of_get? hold
    rw [hold] at hplaces
    cases hdone : entry.reconciled with
    | true =>
      have hcount : ∀ n, (some entry).toList.countP (isPending n) = 0 := fun n => by
        rw [toList_some, countP_singleton, isPending, hdone]
        rfl
      refine iff_of_true (hlost.arrive h hsound rfl fun n => ?_) ?_
      · rw [← hplaces n, hcount, Nat.add_zero]
      · rintro _ ⟨⟩
        exact hdone
    | false =>
      -- the event of the old entry has no place any more
      refine iff_of_false (fun hlost' => ?_) fun hall => ?_
      · have hpos := places_pos hentry hdone
        have honce := h.once entry.event.serial
        have hbound : entry.event.serial < s.received.length := by
          by_contra hge
          rw [h.known _ (not_lt.1 hge)] at hpos
          cases hpos
        have hcount : (some entry).toList.countP (isPending entry.event.serial) = 1 := by
          rw [toList_some, countP_singleton, isPending, hdone]
          simp
        have hlt : entry.event.serial < ((s.enqueueOrphan py id e now).record e).received.length := by
          show _ < (s.received ++ [e]).length
          rw [length_append]
          omega
        have hplace := (hsound.accounted_iff _).1 (hlost' _ hlt)
        have htotal := hplaces entry.event.serial
        rw [hcount, if_neg hbound.ne', hplace] at htotal
        omega
      · rw [hall entry rfl] at hdone
        cases hdone

lemma step_sound (py : Builtins) (call : Call) (h : Sound s) : Sound (s.step py call) ∧
    (NothingLost s → (NothingLost (s.step py call) ↔ Keeps py s call)) := by
  cases call with
  | registerSession sessionId =>
    have hsame : ∀ n, (s.registerSession sessionId).attachedCount n = s.attachedCount n := fun n => by
      rw [registerSession]
      split_ifs
      · rfl
      · simp [attachedCount, attached]
    have hrest : (s.registerSession sessionId).orphanQueue = s.orphanQueue ∧
        (s.registerSession sessionId).receipts = s.receipts ∧
        (s.registerSession sessionId).received = s.received := by
      rw [registerSession]
      split_ifs <;> exact ⟨rfl, rfl, rfl⟩
    have hplaces : ∀ n, (s.registerSession sessionId).places n = s.places n := fun n => by
      rw [places, places, hsame, pendingCount, pendingCount, receiptCount, receiptCount, hrest.1, hrest.2.1]
    have hframe := h.frame hplaces
      (fun n => by rw [hsame, receiptCount, receiptCount, hrest.2.1]) hrest.2.2
    exact ⟨hframe.1, fun hlost => iff_of_true (hframe.2 hlost) trivial⟩
  | eventReceived fields now =>
    obtain ⟨hkeeps, hstep⟩ | ⟨sessionId, hknown, hstep⟩ | ⟨hknown, hhash, hstep⟩ :=
      step_eventReceived_cases py s fields now
    · rw [hstep]
      obtain ⟨hsound, hlost⟩ := h.raise (stamped py s.received.length fields)
      exact ⟨hsound, fun _ => iff_of_false hlost hkeeps⟩
    · rw [hstep]
      obtain ⟨hsound, hlost⟩ := h.attach (e := stamped py s.received.length fields) rfl hknown
      refine ⟨hsound, fun h => iff_of_true (hlost h) ?_⟩
      rw [Keeps, hknown]
      trivial
    · rw [hstep]
      obtain ⟨hsound, hlost⟩ := h.enqueue (e := stamped py s.received.length fields) py rfl
      refine ⟨hsound, fun h => (hlost h).trans ?_⟩
      rw [Keeps, hknown]
      exact (and_iff_right hhash).symm
  | reconcile now =>
    have hcounts := fun n => reconcile_counts py s n now
    have hframe := h.frame (fun n => (hcounts n).1) (fun n => (hcounts n).2.1) (hcounts 0).2.2
    exact ⟨hframe.1, fun hlost => iff_of_true (hframe.2 hlost) trivial⟩

lemma sound_init (ttlSeconds : ℤ) : Sound (.init ttlSeconds) :=
  ⟨fun _ => Nat.zero_le 1, fun _ => le_rfl, fun _ _ => rfl⟩

/-- A run keeps every event accounted for exactly if each of its calls is allowed. -/
theorem nothing_lost_iff (py : Builtins) (ttlSeconds : ℤ) (calls : List Call) :
    Run.Always (step py) NothingLost (.init ttlSeconds) calls ↔
      Run.Along (step py) (Keeps py) (.init ttlSeconds) calls :=
  Run.always_iff_along (fun _ call h => (step_sound py call h).1)
    (fun _ call h hlost => (step_sound py call h).2 hlost) (sound_init ttlSeconds) nofun

lemma sweep_young {now : ℤ} (entries : List (Value × OrphanEntry)) :
    ∀ m ∈ (s.sweep py now entries).2, m.2.2 = false → m.2.1.reconciled = false →
      now - m.2.1.receivedAt < s.ttlSeconds * 1000000 := by
  induction entries generalizing s with
  | nil => nofun
  | cons m entries ih =>
    have hvisit : (s.visit py now m.2).1.ttlSeconds = s.ttlSeconds ∧ ((s.visit py now m.2).2.2 = false →
        (s.visit py now m.2).2.1.reconciled = false →
          now - (s.visit py now m.2).2.1.receivedAt < s.ttlSeconds * 1000000) := by
      obtain ⟨hdone, hvisit⟩ | ⟨-, ⟨_, -, -, hvisit⟩ | ⟨-, hvisit⟩⟩ := visit_cases py s now m.2
      · rw [hvisit]
        exact ⟨rfl, fun _ hopen => by simp_all⟩
      · rw [hvisit]
        exact ⟨rfl, nofun⟩
      · rw [hvisit]
        exact ⟨rfl, fun hmarked _ => by simpa using hmarked⟩
    exact forall_mem_cons.2 ⟨hvisit.2, hvisit.1 ▸ ih⟩

lemma quarantine_open {entry : OrphanEntry} (entries : List (Value × OrphanEntry × Bool))
    (h : entry ∈ (s.quarantine py entries).2.map Prod.snd) (hopen : entry.reconciled = false) :
    (entry, false) ∈ entries.map Prod.snd := by
  induction entries generalizing s with
  | nil => exact absurd h not_mem_nil
  | cons m entries ih =>
    obtain ⟨key, entry', _ | _⟩ := m
    · exact (mem_cons.1 h).elim (fun e => e ▸ mem_cons_self) fun h => mem_cons_of_mem _ (ih h)
    · refine mem_cons_of_mem _ (ih ((mem_cons.1 h).resolve_left ?_))
      rintro rfl
      cases hopen

/-- In every run no event is counted twice, and what is pending after `reconcile` is younger than the TTL. -/
theorem run_sound (py : Builtins) (ttlSeconds : ℤ) (calls : List Call) :
    let s := calls.foldl (step py) (.init ttlSeconds)
    Sound s ∧ ∀ now, ∀ entry ∈ (s.reconcile py now).pending,
      now - entry.receivedAt < s.ttlSeconds * 1000000 := by
  refine ⟨?_, fun now entry h => ?_⟩
  · induction calls using reverseRecOn with
    | nil => exact sound_init ttlSeconds
    | append_singleton calls call ih =>
      rw [foldl_append]
      exact (step_sound py call ih).1
  · obtain ⟨hmem, hopen⟩ := mem_filter.1 h
    obtain ⟨m, hm, he⟩ := mem_map.1 (quarantine_open _ hmem (by simpa using hopen))
    have := sweep_young _ m hm
    rw [he] at this
    exact this rfl (by simpa using hopen)

end Protocol

def plainBuiltins : Builtins := ⟨fun v w => v = w, fun v => .ofList v.json.print, toString⟩

def orphan (id : String) : Dict := .ofList [("event_id", .str id)]

/-- Two orphans with one id: the first is neither attached nor pending, and no receipt names it. -/
theorem orphan_overwritten : ¬ Run.Always (Protocol.step plainBuiltins) Protocol.NothingLost
    (.init DEFAULT_TTL_SECONDS) [.eventReceived (orphan "e1") 0, .eventReceived (orphan "e1") 1] := by
  intro h
  have hlast := h.2.2 0
  revert hlast
  decide +kernel

end SocioWorkspace.Quarantine
