import SocioWorkspace.Queue.Delivery

/-!
# The order of the file queue

A listing is sorted by name, and a name starts with the clock of the host that drew it. A consumer that
is alone on the directory, beside any number of producers, returns two pending items in the order of
their names (`Ahead`), and returns each of them sooner or later (`exists_returned`).
-/

namespace SocioWorkspace.Queue
open Relation List Function ItemId SortedMap

section
variable {E : Type}

/-- `put(a)` returned before `put(b)` started. -/
def Precedes (log : List (Event E)) (a b : ItemId) : Prop :=
  ∃ n, .completed a ∈ log.take n ∧ .started b ∈ log.drop n

/-- Process `k` is the only consumer, and nothing crashes. -/
inductive Serve (k : ℕ) : State E → State E → Prop where
  | tick {s t} : Tick s t → Serve k s t
  | put {s t} (p) : PutStep p s t → Serve k s t
  | get {s t} : GetStep k s t → Serve k s t

/-- Whenever `b` was returned, `a` had been returned before. -/
def ReturnsFirst (log : List (Event E)) (a b : ItemId) : Prop :=
  ∀ l₁ l₂ data, log = l₁ ++ .returned b.target data :: l₂ → ∃ data, .returned a.target data ∈ l₁

/-- A single consumer returns two pending items in the order of their `put` calls. -/
def Fifo (s : State E) : Prop :=
  ∀ a b, Precedes s.log a b → a.target ∈ s.pending → b.target ∈ s.pending → ∀ k, s.gets k = .idle →
    (∃ t, ReflTransGen (Serve k) s t ∧ ∃ data, .returned b.target data ∈ t.log) ∧
      ∀ t, ReflTransGen (Serve k) s t → ReturnsFirst t.log a b

variable {s t : State E} {k : ℕ} {a b id : ItemId} {log : List (Event E)}

lemma pending_sorted (s : State E) : s.pending.Pairwise (· < ·) := s.files.sorted.sublist filter_sublist

lemma get_alone {paths entry} (hk : s.gets k = .idle) (hpending : s.pending = id.target :: paths)
    (hentry : s.files.get? id.target = some (some entry)) :
    ReflTransGen (GetStep k) s ⟨s.clock, s.drawn, (s.files.erase id.target).erase id.claim, s.puts,
      s.gets, s.log ++ [.returned id.target entry]⟩ := by
  have hclaim := claim_alone hk hpending hentry
  have hread := hclaim.tail
    (@GetStep.read E k _ id.target (some entry) (update_self ..) (by
      rw [withSuffix_target]
      exact get?_insert_self ..))
  have hunlink := hread.tail
    (@GetStep.unlink E k _ id.target (some entry) (update_self ..))
  have hret := hunlink.tail (@GetStep.ret E k _ id.target entry (update_self ..))
  convert hret using 1
  simp only [State.setGet, State.setFiles, State.emit, State.mk.injEq, true_and, and_true, withSuffix_target]
  refine ⟨SortedMap.ext_get fun name => ?_, ?_⟩
  · simp only [get?_insert, get?_erase]
    split_ifs <;> rfl
  · rw [update_idem, update_idem, update_idem, ← hk, update_eq_self]

/-- The rest of the listing is what is listed when the first item has left. -/
lemma pending_behind {paths} (hpending : s.pending = id.target :: paths) :
    ((s.files.erase id.target).erase id.claim).keys.filter visible = paths := by
  have hsorted := pending_sorted s
  rw [hpending, pairwise_cons] at hsorted
  have hclaim : ∀ name ∈ s.pending, decide (name ≠ id.claim) = true := fun name hname =>
    decide_eq_true (ne_claim_of_visible (mem_filter.1 hname).2)
  have hne : ∀ name ∈ paths, decide (name ≠ id.target) = true :=
    fun name hname => decide_eq_true (hsorted.1 name hname).ne'
  calc ((s.files.erase id.target).erase id.claim).keys.filter visible
      = (s.pending.filter (· ≠ id.claim)).filter (· ≠ id.target) := by
        rw [keys_erase, keys_erase, State.pending]
        simp only [filter_filter]
        refine filter_congr fun name _ => ?_
        cases visible name <;> simp [Bool.and_comm]
    _ = s.pending.filter (· ≠ id.target) := by rw [filter_eq_self.2 hclaim]
    _ = paths := by rw [hpending, filter_cons_of_neg (by simp), filter_eq_self.2 hne]

/-- A consumer on its own returns the items of its first listing one after the other. -/
lemma exists_returned {paths rest} (h : Reachable s) (hk : s.gets k = .idle)
    (hpending : s.pending = paths ++ b.target :: rest) :
    ∃ t returns data, ReflTransGen (GetStep k) s t ∧
      t.log = s.log ++ returns ++ [.returned b.target data] ∧
      ∀ path data, .returned path data ∈ returns → path ∈ paths := by
  induction paths generalizing s with
  | nil =>
    obtain ⟨L, hL⟩ := exists_linked h
    have hmem : b.target ∈ s.pending := by
      rw [hpending]
      exact mem_cons_self ..
    obtain ⟨entry, hentry⟩ := hL.items.file b (hL.items.stage b (target_mem_pending.1 hmem))
    refine ⟨_, [], entry, get_alone hk hpending hentry, ?_, nofun⟩
    rw [append_nil]
  | cons path paths ih =>
    obtain ⟨L, hL⟩ := exists_linked h
    have hmem : path ∈ s.pending := by
      rw [hpending]
      exact mem_cons_self ..
    obtain ⟨hkey, hvisible⟩ := mem_filter.1 hmem
    obtain ⟨content, hcontent⟩ := mem_keys_iff.1 hkey
    obtain ⟨id, rfl⟩ := hL.items.names path hvisible (by rw [hcontent]; rfl)
    obtain ⟨entry, hentry⟩ := hL.items.file id (hL.items.stage id (target_mem_pending.1 hmem))
    have hfirst := get_alone hk hpending hentry
    obtain ⟨t, returns, data, hsteps, hlog, hreturns⟩ :=
      ih (h.trans (.get k) hfirst) hk (pending_behind hpending)
    refine ⟨t, .returned id.target entry :: returns, data, hfirst.trans hsteps, ?_, ?_⟩
    · rw [hlog]
      simp
    · intro path' data' hmem'
      cases mem_cons.1 hmem' with
      | inl he =>
        cases he
        exact mem_cons_self ..
      | inr hmem' => exact mem_cons_of_mem _ (hreturns path' data' hmem')

lemma ReturnsFirst.append {event} (h : ReturnsFirst log a b)
    (hevent : ∀ data, event = .returned b.target data → ∃ data, .returned a.target data ∈ log) :
    ReturnsFirst (log ++ [event]) a b := by
  intro l₁ l₂ data hlog
  cases eq_nil_or_concat l₂ with
  | inl hnil =>
    rw [hnil] at hlog
    obtain ⟨rfl, he⟩ := append_inj' hlog rfl
    exact hevent data (head_eq_of_cons_eq he)
  | inr hconcat =>
    obtain ⟨l₂', last, rfl⟩ := hconcat
    rw [concat_eq_append, ← cons_append, ← append_assoc] at hlog
    obtain ⟨hlog, -⟩ := append_inj' hlog rfl
    exact h l₁ l₂' data hlog

/-- Nothing of `a` or `b` has left, or `a` has left first. -/
structure Waiting (k : ℕ) (t : State E) (a b : ItemId) : Prop where
  next : a.target ∈ t.pending ∨ (t.gets k).held? = some a.target
  later : b.target ∈ t.pending
  scan : ∀ paths, t.gets k = .scanning paths → paths.Pairwise (· < ·) ∧ (b.target ∈ paths → a.target ∈ paths)

/-- `a` leaves before `b`. -/
structure Ahead (k : ℕ) (t : State E) (a b : ItemId) : Prop where
  first : ReturnsFirst t.log a b
  left : (∃ data, .returned a.target data ∈ t.log) ∨ Waiting k t a b

variable {L : ItemId → Stage}

lemma pending_put {p} (hs : PutStep p s t) (hL : Linked s L)
    (h : id.target ∈ s.pending) : id.target ∈ t.pending := by
  cases hs with
  | start => exact h
  | @mkstemp _ _ random _ _ =>
    exact (pending_congr (get?_insert_of_ne (target_ne_tmp id random) ..)).2 h
  | @dump _ _ tmp hp =>
    obtain ⟨⟨r, rfl⟩, -⟩ := hL.drafts.tmp p tmp (by rw [hp]; rfl)
    exact (pending_congr (get?_insert_of_ne (target_ne_tmp id r) ..)).2 h
  | @rename id' _ tmp content hp hcontent =>
    obtain ⟨⟨r, rfl⟩, -⟩ := hL.drafts.tmp p tmp (by rw [hp]; rfl)
    by_cases he : id.target = id'.target
    · rw [he]
      refine target_mem_pending.2 ?_
      exact congrArg Option.isSome (get?_insert_self ..)
    · exact (pending_congr (get?_rename (target_ne_tmp id r) he ..)).2 h
  | @fail tmp hp =>
    obtain ⟨⟨r, rfl⟩, -⟩ := hL.drafts.tmp p tmp hp
    exact (pending_congr (get?_erase_of_ne (target_ne_tmp id r) _)).2 h

lemma put_gets_log {p} (hs : PutStep p s t) : t.gets = s.gets ∧
    (t.log = s.log ∨ ∃ event : Event E, t.log = s.log ++ [event] ∧ ∀ path, event.isReturn path = false) := by
  cases hs with
  | start => exact ⟨rfl, .inr ⟨_, rfl, fun _ => rfl⟩⟩
  | mkstemp | dump => exact ⟨rfl, .inl rfl⟩
  | rename => exact ⟨rfl, .inr ⟨_, rfl, fun _ => rfl⟩⟩
  | fail => exact ⟨rfl, .inl rfl⟩

lemma Ahead.put {p} (h : Ahead k s a b) (hL : Linked s L) (hs : PutStep p s t) : Ahead k t a b := by
  obtain ⟨hgets, hlog⟩ := put_gets_log hs
  have hleft : ∀ {log' : List (Event E)}, (∀ event ∈ s.log, event ∈ log') →
      (∃ data, .returned a.target data ∈ log') ∨ Waiting k t a b := by
    intro log' hsub
    refine h.left.imp (fun ⟨data, hdata⟩ => ⟨data, hsub _ hdata⟩) fun hw => ⟨?_, ?_, ?_⟩
    · rw [hgets]
      exact hw.next.imp_left (pending_put hs hL)
    · exact pending_put hs hL hw.later
    · rw [hgets]
      exact hw.scan
  cases hlog with
  | inl hlog =>
    rw [← hlog] at hleft
    exact ⟨hlog ▸ h.first, hleft fun _ he => he⟩
  | inr hlog =>
    obtain ⟨event, hlog, hevent⟩ := hlog
    refine ⟨?_, hlog ▸ hleft fun _ he => mem_append_left _ he⟩
    rw [hlog]
    refine h.first.append fun data he => ?_
    have hret := hevent b.target
    rw [he] at hret
    exact absurd hret (by simp [Event.isReturn])

lemma Waiting.move {call} (h : Waiting k s a b) (hheld : call.held? = (s.gets k).held?)
    (hscan : ∀ paths, call = .scanning paths →
      paths.Pairwise (· < ·) ∧ (b.target ∈ paths → a.target ∈ paths)) :
    Waiting k (s.setGet k call) a b := by
  have hcall : (s.setGet k call).gets k = call := update_self ..
  refine ⟨?_, h.later, ?_⟩
  · rw [hcall, hheld]
    exact h.next
  · rw [hcall]
    exact hscan

lemma Waiting.pending (h : Waiting k s a b) (hfree : (s.gets k).held? = none) : a.target ∈ s.pending := by
  refine h.next.resolve_right ?_
  rw [hfree]
  nofun

lemma Waiting.claim {paths content} (h : Waiting k s a b)
    (hlt : a.target < b.target) (hk : s.gets k = .scanning (id.target :: paths)) :
    Waiting k ((s.setFiles ((s.files.erase id.target).insert id.claim content)).setGet k
      (.claimed id.target)) a b := by
  have ha := h.pending (by rw [hk]; rfl)
  obtain ⟨hsorted, hscan⟩ := h.scan _ hk
  -- the first path of the listing is not that of `b`, since that of `a` comes before it
  have hb : b.target ≠ id.target := by
    intro he
    rw [he] at hlt hscan
    cases mem_cons.1 (hscan (mem_cons_self ..)) with
    | inl h => exact hlt.ne h
    | inr h => exact lt_asymm hlt ((pairwise_cons.1 hsorted).1 _ h)
  have hkeep : ∀ id' : ItemId, id'.target ≠ id.target → id'.target ∈ s.pending → id'.target ∈
      ((s.setFiles ((s.files.erase id.target).insert id.claim content)).setGet k
        (.claimed id.target)).pending := by
    intro id' hne
    exact (pending_congr (get?_rename hne (target_ne_claim id' id) ..)).2
  have hcall : ((s.setFiles ((s.files.erase id.target).insert id.claim content)).setGet k
      (.claimed id.target)).gets k = .claimed id.target := update_self ..
  refine ⟨?_, hkeep b hb h.later, ?_⟩
  · rw [hcall]
    by_cases he : a.target = id.target
    · rw [he]
      exact .inr rfl
    · exact .inl (hkeep a he ha)
  · rw [hcall]
    nofun

lemma Ahead.ret {data} (h : Ahead k s a b) (hL : Linked s L) (hheld : (s.gets k).held? = some id.target)
    (hstage : L id = .claimed k) : Ahead k ((s.setGet k .idle).emit (.returned id.target data)) a b := by
  constructor
  · refine h.first.append fun data' he => ?_
    refine h.left.resolve_right fun hw => ?_
    -- the item that is returned is not pending
    have hb := hL.items.stage b (target_mem_pending.1 hw.later)
    have hid : id = b := target_inj.1 (Event.returned.inj he).1
    rw [hid, hb] at hstage
    cases hstage
  · refine h.left.elim (fun ⟨data', hdata⟩ => .inl ⟨data', mem_append_left _ hdata⟩) fun hw => ?_
    cases hw.next with
    | inl ha =>
      refine .inr ⟨.inl ha, hw.later, ?_⟩
      have hcall : ((s.setGet k .idle).emit (.returned id.target data)).gets k = .idle := update_self ..
      rw [hcall]
      nofun
    | inr ha =>
      rw [hheld] at ha
      rw [← Option.some.inj ha]
      exact .inl ⟨data, mem_append_right _ (mem_singleton_self _)⟩

lemma Ahead.get (h : Ahead k s a b) (hlt : a.target < b.target)
    (hL : Linked s L) (hs : GetStep k s t) : Ahead k t a b := by
  cases hs with
  | list hk =>
    have hfree : (s.gets k).held? = none := by
      rw [hk]
      rfl
    refine ⟨h.first, h.left.imp_right fun hw => hw.move hfree.symm ?_⟩
    rintro _ ⟨⟩
    exact ⟨pending_sorted s, fun _ => hw.pending hfree⟩
  | @claim path paths content hk hcontent =>
    obtain ⟨id, rfl⟩ := hL.claims.scanned k _ hk path (mem_cons_self ..)
    rw [withSuffix_target]
    exact ⟨h.first, h.left.imp_right fun hw => hw.claim hlt hk⟩
  | @lose path paths hk hgone =>
    have hfree : (s.gets k).held? = none := by
      rw [hk]
      rfl
    refine ⟨h.first, h.left.imp_right fun hw => hw.move hfree.symm ?_⟩
    rintro _ ⟨⟩
    obtain ⟨hsorted, hscan⟩ := hw.scan _ hk
    refine ⟨(pairwise_cons.1 hsorted).2, fun hb => ?_⟩
    refine (mem_cons.1 (hscan (mem_cons_of_mem _ hb))).resolve_left ?_
    rintro rfl
    have ha := target_mem_pending.1 (hw.pending hfree)
    rw [hgone] at ha
    cases ha
  | empty hk | read hk _ =>
    exact ⟨h.first, h.left.imp_right fun hw => hw.move (by rw [hk]; rfl) nofun⟩
  | @missing path hk hgone =>
    obtain ⟨entry, hentry⟩ := hL.claims.content k path hk
    rw [hgone] at hentry
    cases hentry
  | @unlink path content hk =>
    obtain ⟨id, rfl, -⟩ := hL.claims.held k path (by rw [hk]; rfl)
    rw [withSuffix_target]
    refine ⟨h.first, h.left.imp_right fun hw => ?_⟩
    have hkeep : ∀ id' : ItemId, id'.target ∈ s.pending →
        id'.target ∈ (s.setFiles (s.files.erase id.claim)).pending := by
      intro id'
      exact (pending_congr (get?_erase_of_ne (target_ne_claim id' id) _)).2
    have hw' : Waiting k (s.setFiles (s.files.erase id.claim)) a b :=
      ⟨hw.next.imp_left (hkeep a), hkeep b hw.later, hw.scan⟩
    have hheld : (Get.unlinked id.target content).held? = (s.gets k).held? := by
      rw [hk]
      rfl
    exact hw'.move hheld nofun
  | @ret path data hk =>
    obtain ⟨id, rfl, hstage⟩ := hL.claims.held k path (by rw [hk]; rfl)
    exact h.ret hL (by rw [hk]; rfl) hstage
  | @garbage path hk =>
    have hdata := hL.claims.data k path none (.inr hk)
    cases hdata

lemma Ahead.serve (hlt : a.target < b.target) (hs : Reachable s) (h : Ahead k s a b)
    (hsteps : ReflTransGen (Serve k) s t) : Ahead k t a b := by
  have hboth : Reachable t ∧ Ahead k t a b := by
    induction hsteps with
    | refl => exact ⟨hs, h⟩
    | tail _ hstep ih =>
      obtain ⟨hreach, hahead⟩ := ih
      obtain ⟨L, hL⟩ := exists_linked hreach
      cases hstep with
      | tick ht =>
        refine ⟨hreach.step (.tick ht), ?_⟩
        cases ht
        exact ⟨hahead.first, hahead.left.imp_right fun hw => ⟨hw.next, hw.later, hw.scan⟩⟩
      | put p hp => exact ⟨hreach.step (.put p hp), hahead.put hL hp⟩
      | get hg => exact ⟨hreach.step (.get k hg), hahead.get hlt hL hg⟩
  exact hboth.2

section
variable (h : Reachable s)
include h

lemma not_returned_of_pending (hid : id.target ∈ s.pending) (data : E) :
    .returned id.target data ∉ s.log := by
  obtain ⟨L, hL⟩ := exists_linked h
  refine countP_isReturn_eq_zero.1 ?_ data
  rw [hL.logged.returned id, hL.items.stage id (target_mem_pending.1 hid)]
  rfl

/-- A consumer that is alone can return any pending item. -/
lemma exists_serve_returned (hidle : s.gets k = .idle) (hb : b.target ∈ s.pending) :
    ∃ t, ReflTransGen (Serve k) s t ∧ ∃ l₁ data, t.log = l₁ ++ [.returned b.target data] ∧
      ∀ id : ItemId, id.target ∈ s.pending → ∀ data, .returned id.target data ∈ l₁ →
        id.target < b.target := by
  obtain ⟨paths, rest, hpending⟩ := append_of_mem hb
  obtain ⟨t, returns, data, hsteps, hlog, hreturns⟩ := exists_returned h hidle hpending
  refine ⟨t, ?_, s.log ++ returns, data, hlog, fun id hid data' hmem => ?_⟩
  · exact hsteps.lift (fun s => s) fun _ _ => .get
  · have hsorted := pending_sorted s
    rw [hpending, pairwise_append] at hsorted
    refine hsorted.2.2 _ (hreturns _ _ ((mem_append.1 hmem).resolve_left ?_)) _ (mem_cons_self ..)
    exact not_returned_of_pending h hid data'

lemma exists_idle : ∃ n, ∀ k, n ≤ k → s.gets k = .idle := by
  have hset : ∀ (s : State E) (k n : ℕ) (call : Get E), (∀ k, n ≤ k → s.gets k = .idle) →
      ∃ n, ∀ j, n ≤ j → update s.gets k call j = .idle := by
    intro s k n call hn
    refine ⟨max n (k + 1), fun j hj => ?_⟩
    rw [update_of_ne (by omega)]
    exact hn j (by omega)
  induction h with
  | init => exact ⟨0, fun _ _ => rfl⟩
  | @step s t _ hs ih =>
    obtain ⟨n, hn⟩ := ih
    cases hs with
    | tick ht =>
      cases ht
      exact ⟨n, hn⟩
    | put p hp =>
      rw [(put_gets_log hp).1]
      exact ⟨n, hn⟩
    | get k hk => cases hk <;> exact hset s k n _ hn
    | crash hc =>
      cases hc with
      | get k => exact hset s k n _ hn
      | put p | reboot => exact ⟨n, hn⟩

lemma target_lt_of_fifo (hfifo : Fifo s) (hab : Precedes s.log a b)
    (ha : a.target ∈ s.pending) (hb : b.target ∈ s.pending) : a.target < b.target := by
  obtain ⟨k, hidle⟩ := exists_idle h
  obtain ⟨t, hsteps, l₁, data, hlog, hbefore⟩ := exists_serve_returned h (hidle k le_rfl) hb
  obtain ⟨data', ha'⟩ := (hfifo a b hab ha hb k (hidle k le_rfl)).2 t hsteps l₁ [] data hlog
  exact hbefore a ha data' ha'

/-- Python `get_nowait`: entries are returned in the order of their puts exactly if of two pending ones the earlier
has the smaller clock reading, or the same one and the smaller random part. -/
theorem fifo_iff : Fifo s ↔
    ∀ a b, Precedes s.log a b → a.target ∈ s.pending → b.target ∈ s.pending →
      a.ns < b.ns ∨ a.ns = b.ns ∧ a.uuid.hex < b.uuid.hex := by
  constructor
  · intro hfifo a b hab ha hb
    exact (target_lt_iff a b).1 (target_lt_of_fifo h hfifo hab ha hb)
  · intro horder a b hab ha hb k hidle
    have hlt := (target_lt_iff a b).2 (horder a b hab ha hb)
    constructor
    · obtain ⟨t, hsteps, l₁, data, hlog, -⟩ := exists_serve_returned h hidle hb
      refine ⟨t, hsteps, data, ?_⟩
      rw [hlog]
      exact mem_append_right _ (mem_singleton_self _)
    · intro t hsteps
      have hahead : Ahead k s a b := by
        refine ⟨?_, .inr ⟨.inl ha, hb, ?_⟩⟩
        · intro l₁ l₂ data hlog
          refine absurd ?_ (not_returned_of_pending h hb data)
          rw [hlog]
          exact mem_append_right _ (mem_cons_self ..)
        · rw [hidle]
          nofun
      exact (hahead.serve hlt h hsteps).first

end

end

def oneUuid : Uuid where
  hex := List.replicate 32 '1'
  length_hex := rfl
  hex_digits c hc := by
    rw [List.eq_of_mem_replicate hc]
    exact .inl rfl

def twoPuts (ns ns' : Nanos) : State Unit :=
  ⟨ns', [oneUuid, zeroUuid], (SortedMap.empty.insert (ItemId.target ⟨ns, zeroUuid⟩) (some ())).insert
      (ItemId.target ⟨ns', oneUuid⟩) (some ()), fun _ => .idle, fun _ => .idle,
    [.started ⟨ns, zeroUuid⟩, .completed ⟨ns, zeroUuid⟩, .started ⟨ns', oneUuid⟩, .completed ⟨ns', oneUuid⟩]⟩

lemma reachable_twoPuts (ns ns' : Nanos) : Reachable (twoPuts ns ns') := by
  have hfirst := (Reachable.init ns).trans (.put 0) (@put_alone Unit 0 _ zeroUuid () "" rfl nofun rfl)
  have hboot := hfirst.step (.crash (@Crash.reboot _ _ ns' (fun _ => rfl) fun _ => rfl))
  refine hboot.trans (.put 0) (@put_alone Unit 0 _ oneUuid () "" rfl ?_ ?_)
  · exact not_mem_cons_of_ne_of_not_mem (by decide) nofun
  · exact get?_insert_of_ne (target_ne_tmp ⟨ns, zeroUuid⟩ "").symm ..

lemma precedes_twoPuts (ns ns' : Nanos) : Precedes (twoPuts ns ns').log ⟨ns, zeroUuid⟩ ⟨ns', oneUuid⟩ :=
  ⟨2, mem_of_getLast? rfl, mem_cons_self ..⟩

lemma pending_twoPuts (ns ns' : Nanos) : target ⟨ns, zeroUuid⟩ ∈ (twoPuts ns ns').pending ∧
    target ⟨ns', oneUuid⟩ ∈ (twoPuts ns ns').pending := by
  constructor <;> rw [target_mem_pending, twoPuts]
  · rw [get?_insert, get?_insert_self]
    split_ifs <;> rfl
  · rw [get?_insert_self]
    rfl

/-- The clock has gone on. -/
theorem fifo_twoPuts : Reachable (twoPuts 0 1) ∧ Fifo (twoPuts 0 1) := by
  refine ⟨reachable_twoPuts 0 1, ?_⟩
  refine (fifo_iff (reachable_twoPuts 0 1)).2 ?_
  rintro a b ⟨n, ha, hb⟩ - -
  have hab : a = ⟨0, zeroUuid⟩ ∧ b = ⟨1, oneUuid⟩ := by
    match n with
    | 0 | 1 => simp [twoPuts] at ha
    | 2 => exact ⟨by simpa [twoPuts] using ha, by simpa [twoPuts] using hb⟩
    | n + 3 =>
      have hlast : .started b ∈ [Event.completed (E := Unit) ⟨1, oneUuid⟩] := mem_of_mem_drop hb
      simp at hlast
  rw [hab.1, hab.2]
  decide

/-- The clock has started again from a smaller value: the second item leaves first. -/
theorem not_fifo_twoPuts : Reachable (twoPuts 1 0) ∧ ¬ Fifo (twoPuts 1 0) := by
  refine ⟨reachable_twoPuts 1 0, fun hfifo => ?_⟩
  have hpending := pending_twoPuts 1 0
  have hlt := target_lt_of_fifo (reachable_twoPuts 1 0) hfifo (precedes_twoPuts 1 0) hpending.1
    hpending.2
  revert hlt
  decide

end SocioWorkspace.Queue
