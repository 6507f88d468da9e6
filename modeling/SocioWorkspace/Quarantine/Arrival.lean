import SocioWorkspace.Lib.OnePass
import SocioWorkspace.Quarantine.Accounting

/-!
# Arrival order and the first reconciliation

Before its first pass the protocol only gathers. The pass then closes the set of attached events under links,
going once through the queue (`attached_sweep`).

`gathered_gather` is the induction over the arrivals, with the step `Gathered.step`, and `arrival_order_iff`
combines it with the first pass of `reconcile`.
-/

namespace SocioWorkspace.Quarantine
open Python OnePass List Option

namespace Protocol

inductive Arrival where
  | registerSession (sessionId : String)
  | eventReceived (fields : Dict) (now : ℤ)

def Arrival.call : Arrival → Call
  | .registerSession sessionId => .registerSession sessionId
  | .eventReceived fields now => .eventReceived fields now

def gather (py : Builtins) (ttlSeconds : ℤ) (arrivals : List Arrival) : Protocol :=
  arrivals.foldl (fun s arrival => s.step py arrival.call) (.init ttlSeconds)

def Links (py : Builtins) (e a : Event) : Prop := ∃ key ∈ RECONCILE_KEYS, sharesKey py e key a = true

def Registered (s : Protocol) (e : Event) : Prop :=
  ∃ sessionId ∈ s.sessions.map Prod.fst, e.get "session_id" = .str sessionId

def Quarantined (s : Protocol) (e : Event) : Prop :=
  ∃ r ∈ s.receipts, r.status = .quarantined ∧ r.serial = e.serial

/-- No event is left behind that has a session, or a link to an event that has one. -/
def NoneLeftBehind (py : Builtins) (s : Protocol) : Prop :=
  ∀ e ∈ s.received, (Registered s e ∨ ∃ a ∈ s.attached, Links py e a) → e ∈ s.attached ∧ ¬ Quarantined s e

def queued (s : Protocol) : List Event := s.orphanQueue.map (·.2.event)

variable {py : Builtins} {s : Protocol}

structure Gathered (s : Protocol) : Prop where
  sound : Sound s
  fresh : ∀ m ∈ s.orphanQueue, m.2.reconciled = false
  known : ∀ e ∈ s.queued, e ∈ s.received
  unnamed : ∀ session ∈ s.sessions, session.1 = "" → session.2 = []

variable {sessionId : String}

lemma ne_empty_of_knownSession {fields}
    (h : s.knownSession fields = .ok (some sessionId)) : sessionId ≠ "" := by
  rintro rfl
  unfold knownSession at h
  dsimp only at h
  split_ifs at h with htruthy
  · cases h
  · have hstr := (filter_eq_some_iff.1 (Except.ok.inj h)).1
    rw [Value.asStr_eq_some.1 hstr] at htruthy
    exact htruthy rfl

lemma unnamed_attach (h : ∀ session ∈ s.sessions, session.1 = "" → session.2 = [])
    (hsession : sessionId ≠ "") (e : Event) :
    ∀ session ∈ (s.attachToSession sessionId e).sessions, session.1 = "" → session.2 = [] := by
  intro session hmem hname
  cases OrderedDict.mem_modify hmem with
  | inl hmem => exact h session hmem hname
  | inr hsame =>
    rw [hname] at hsame
    exact absurd (eq_of_beq hsame).symm hsession

lemma Gathered.step (h : Gathered s) (arrival : Arrival) : Gathered (s.step py arrival.call) := by
  have hsound := (step_sound py arrival.call h.sound).1
  cases arrival with
  | registerSession sessionId =>
    refine ⟨hsound, ?_, ?_, ?_⟩
    all_goals
      rw [Arrival.call, Protocol.step, registerSession]
    · split_ifs <;> exact h.fresh
    · split_ifs <;> exact h.known
    · split_ifs
      · exact h.unnamed
      · intro session hmem
        cases mem_append.1 hmem with
        | inl hmem => exact h.unnamed session hmem
        | inr hmem =>
          rw [mem_singleton.1 hmem]
          exact fun _ => rfl
  | eventReceived fields now =>
    have hold : ∀ e ∈ s.queued, e ∈ s.received ++ [stamped py s.received.length fields] :=
      fun e he => mem_append_left _ (h.known e he)
    obtain ⟨-, hstep⟩ | ⟨sessionId, hknown, hstep⟩ | ⟨-, -, hstep⟩ := step_eventReceived_cases py s fields now
    all_goals
      rw [Arrival.call] at hsound ⊢
      rw [hstep] at hsound ⊢
    · exact ⟨hsound, h.fresh, hold, h.unnamed⟩
    · exact ⟨hsound, h.fresh, hold, unnamed_attach h.unnamed (ne_empty_of_knownSession hknown) _⟩
    · refine ⟨hsound, fun m hm => ?_, fun e he => ?_, h.unnamed⟩
      · cases OrderedDict.mem_set hm with
        | inl hm => exact h.fresh m hm
        | inr hm => rw [hm]
      · obtain ⟨m, hm, rfl⟩ := mem_map.1 he
        cases OrderedDict.mem_set hm with
        | inl hm => exact hold _ (mem_map_of_mem hm)
        | inr hm =>
          rw [hm]
          exact mem_append_right _ (mem_singleton_self _)

lemma gathered_gather (py : Builtins) (ttlSeconds : ℤ) (arrivals : List Arrival) :
    Gathered (gather py ttlSeconds arrivals) := by
  refine foldlRecOn arrivals _ ?_ fun s h arrival _ => h.step arrival
  exact ⟨sound_init ttlSeconds, nofun, nofun, nofun⟩

variable {e : Event}

lemma exists_match_iff :
    (∃ sessionId, s.findMatchingSession py e = some sessionId) ↔ ∃ a ∈ s.attached, Links py e a := by
  rw [← isSome_iff_exists, findMatchingSession, findSome?_isSome_iff]
  constructor
  · rintro ⟨key, hkey, hsome⟩
    rw [isSome_map, find?_isSome] at hsome
    obtain ⟨session, hsession, hany⟩ := hsome
    obtain ⟨a, ha, hshares⟩ := any_eq_true.1 hany
    exact ⟨a, mem_flatMap.2 ⟨session, hsession, ha⟩, key, hkey, hshares⟩
  · rintro ⟨a, ha, key, hkey, hshares⟩
    obtain ⟨session, hsession, ha⟩ := mem_flatMap.1 ha
    refine ⟨key, hkey, ?_⟩
    rw [isSome_map, find?_isSome]
    exact ⟨session, hsession, any_eq_true.2 ⟨a, ha, hshares⟩⟩

lemma ne_empty_of_match (hunnamed : ∀ session ∈ s.sessions, session.1 = "" → session.2 = [])
    (h : s.findMatchingSession py e = some sessionId) : sessionId ≠ "" := by
  obtain ⟨key, -, hkey⟩ := exists_of_findSome?_eq_some h
  obtain ⟨session, hsession, rfl⟩ := map_eq_some_iff.1 hkey
  intro hname
  have hany := find?_some hsession
  rw [hunnamed session (mem_of_find?_eq_some hsession) hname] at hany
  cases hany

lemma visit_fresh {entry} (py : Builtins) (now : ℤ)
    (hunnamed : ∀ session ∈ s.sessions, session.1 = "" → session.2 = [])
    (hopen : entry.reconciled = false) :
    {e | e ∈ (s.visit py now entry).1.attached} =
      {e | e ∈ s.attached ∨ e = entry.event ∧ ∃ a ∈ s.attached, Links py entry.event a} ∧
    (∀ session ∈ (s.visit py now entry).1.sessions, session.1 = "" → session.2 = []) ∧
    (s.visit py now entry).1.sessions.map Prod.fst = s.sessions.map Prod.fst := by
  obtain ⟨hdone, -⟩ | ⟨-, ⟨sessionId, hne, hmatch, hvisit⟩ | ⟨hnone, hvisit⟩⟩ := visit_cases py s now entry
  · rw [hdone] at hopen
    cases hopen
  · rw [hvisit]
    have hlink := exists_match_iff.1 ⟨sessionId, hmatch⟩
    refine ⟨?_, unnamed_attach hunnamed hne entry.event, OrderedDict.map_fst_modify ..⟩
    ext e
    have hperm := attached_attachToSession (s := s) (mem_of_findMatchingSession hmatch) entry.event
    show e ∈ (s.attachToSession sessionId entry.event).attached ↔ _
    rw [hperm.mem_iff, mem_cons, or_comm]
    exact or_congr_right (and_iff_left hlink).symm
  · rw [hvisit]
    have hlink : ¬ ∃ a ∈ s.attached, Links py entry.event a := by
      intro hlink
      obtain ⟨sessionId, hmatch⟩ := exists_match_iff.2 hlink
      exact ne_empty_of_match hunnamed hmatch (hnone sessionId hmatch)
    refine ⟨?_, hunnamed, rfl⟩
    ext e
    exact (or_iff_left fun h => hlink h.2).symm

/-- The loop of `reconcile` is a pass that closes the attached events under links. -/
lemma attached_sweep {entries} (py : Builtins) (now : ℤ)
    (hunnamed : ∀ session ∈ s.sessions, session.1 = "" → session.2 = [])
    (hopen : ∀ m ∈ entries, m.2.reconciled = false) :
    {e | e ∈ (s.sweep py now entries).1.attached} =
      onePass (Links py) {e | e ∈ s.attached} (entries.map (·.2.event)) ∧
    (s.sweep py now entries).1.sessions.map Prod.fst = s.sessions.map Prod.fst := by
  induction entries generalizing s with
  | nil => exact ⟨rfl, rfl⟩
  | cons m entries ih =>
    obtain ⟨key, entry⟩ := m
    rw [forall_mem_cons] at hopen
    obtain ⟨hattached, hunnamed', hkeys⟩ := visit_fresh py now hunnamed hopen.1
    obtain ⟨hrest, hkeys'⟩ := ih hunnamed' hopen.2
    refine ⟨?_, hkeys'.trans hkeys⟩
    rw [hattached] at hrest
    exact hrest

lemma reconcile_frame (now : ℤ) :
    (s.reconcile py now).sessions = (s.sweep py now s.orphanQueue).1.sessions := by
  have hmarked := (sweep_counts py s 0 now s.orphanQueue).2.2.2.2
  exact (quarantine_counts py (s.sweep py now s.orphanQueue).1 0 _ hmarked).2.2.1

lemma Sound.not_quarantined (h : Sound s) (he : e ∈ s.attached) : ¬ Quarantined s e := by
  rintro ⟨r, hr, hstatus, hserial⟩
  have hattached : 0 < s.attachedCount e.serial := countP_pos_iff.2 ⟨e, he, decide_eq_true rfl⟩
  have hquarantined : 0 < receiptCount .quarantined s e.serial :=
    countP_pos_iff.2 ⟨r, hr, decide_eq_true ⟨hstatus, hserial⟩⟩
  have honce := h.once e.serial
  rw [places] at honce
  omega

/-- Python `reconcile`: one pass over the queue leaves nothing behind exactly if every orphan that links to a
session at all is reached from it through orphans that are queued before it. -/
theorem arrival_order_iff (py : Builtins) (ttlSeconds : ℤ) (arrivals : List Arrival) (now : ℤ) :
    let s := gather py ttlSeconds arrivals
    NoneLeftBehind py (s.reconcile py now) ↔
      ∀ e ∈ s.received, Registered s e ∨ Connected (Links py) {a | a ∈ s.attached} s.queued e →
        e ∈ s.attached ∨ ∃ before after, s.queued = before ++ e :: after ∧
          Reached (Links py) {a | a ∈ s.attached} before e := by
  intro s
  have hs : Gathered s := gathered_gather py ttlSeconds arrivals
  have hcounts := fun n => reconcile_counts py s n now
  have hsound := (hs.sound.frame (fun n => (hcounts n).1) (fun n => (hcounts n).2.1) (hcounts 0).2.2).1
  obtain ⟨hpass, hkeys⟩ := attached_sweep py now hs.unnamed hs.fresh
  have hattached : ∀ e, e ∈ (s.reconcile py now).attached ↔
      e ∈ onePass (Links py) {a | a ∈ s.attached} s.queued := by
    intro e
    show _ ↔ e ∈ onePass (Links py) {a | a ∈ s.attached} (s.orphanQueue.map (·.2.event))
    rw [← hpass, attached, reconcile_frame]
    rfl
  have hregistered : ∀ e, Registered (s.reconcile py now) e ↔ Registered s e := by
    intro e
    rw [Registered, reconcile_frame, hkeys]
    rfl
  have hmem := fun e => @mem_onePass _ (Links py) {a | a ∈ s.attached} e s.queued
  have hclosed := @onePass_closed_iff _ (Links py) {a | a ∈ s.attached} s.queued
    {e | e ∈ s.received} hs.known
  have hleft : NoneLeftBehind py (s.reconcile py now) ↔ ∀ e ∈ s.received,
      (Registered s e ∨ ∃ a ∈ onePass (Links py) {a | a ∈ s.attached} s.queued, Links py e a) →
        e ∈ onePass (Links py) {a | a ∈ s.attached} s.queued := by
    rw [NoneLeftBehind, (hcounts 0).2.2]
    refine forall₂_congr fun e _ => ?_
    simp only [hregistered, hattached]
    refine ⟨fun h hcase => (h hcase).1, fun h hcase => ⟨h hcase, ?_⟩⟩
    exact hsound.not_quarantined ((hattached e).2 (h hcase))
  rw [hleft]
  constructor
  · intro h e he hcase
    refine (hmem e).1 ?_
    cases hcase with
    | inl hcase => exact h e he (.inl hcase)
    | inr hcase => exact hclosed.1 (fun a ha hlink => h a ha (.inr hlink)) e he hcase
  · intro h e he hcase
    cases hcase with
    | inl hcase => exact (hmem e).2 (h e he (.inl hcase))
    | inr hcase =>
      exact hclosed.2 (fun a ha hconn => (hmem a).2 (h a ha (.inr hconn))) e he hcase

end Protocol

def sessionEvent (id sessionId : String) : Dict :=
  .ofList [("event_id", .str id), ("session_id", .str sessionId)]

/-- An event that comes before its session is registered is quarantined when its time is over. -/
theorem early_event_left_behind : ¬ Protocol.NoneLeftBehind plainBuiltins
    ((Protocol.gather plainBuiltins DEFAULT_TTL_SECONDS
      [.eventReceived (sessionEvent "e1" "s1") 0, .registerSession "s1"]).reconcile plainBuiltins
        300000000) := by
  intro h
  have hattached := (h ⟨0, sessionEvent "e1" "s1"⟩ (by decide +kernel)
    (.inl ⟨"s1", by decide +kernel, by decide +kernel⟩)).1
  revert hattached
  decide +kernel

end SocioWorkspace.Quarantine
