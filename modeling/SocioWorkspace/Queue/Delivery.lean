import SocioWorkspace.Queue.Lifecycle

/-!
# Delivery from the file queue

Every step of a process on the directory is a move of at most one item (`linked_step`), so every
reachable state shows a stage for each item (`exists_linked`).

`linked_step` goes through the steps of `put` and `get_nowait` and the crash, one lemma each, and
`exists_linked` is the induction over a run. `exactly_once_and_durable_iff` reads off it that nothing is
returned twice, and that an item is lost only with a consumer that crashes while it holds the claim.
-/

namespace SocioWorkspace.Queue
open Function ItemId List SortedMap State

open Relation

section
variable {E : Type} {files' : SortedMap String (Option E)} {L : ItemId → Stage} {p k : ℕ}

variable {s t : State E}

lemma Linked.absent {uuid} (h : Linked s L) (ns : Nanos) (hfresh : uuid ∉ s.drawn) :
    L ⟨ns, uuid⟩ = .absent := by
  by_contra hne
  exact hfresh (h.drafts.drawn ⟨ns, uuid⟩ hne)

variable {id : ItemId}

lemma Linked.drop (h : Linked s L) (hp : (s.puts p).id? = some id)
    (hfiles : ∀ r, (s.puts p).tmp? ≠ some (tmpName r) → files'.get? (tmpName r) = s.files.get? (tmpName r))
    (hclaim : ∀ id : ItemId, files'.get? id.claim = s.files.get? id.claim)
    (hvisible : ∀ name, visible name → files'.get? name = s.files.get? name) :
    Linked ((s.setFiles files').setPut p .idle) (update L id .absent) ∧
      Evolves L (update L id .absent) := by
  have hstage := h.drafts.stage p id hp
  have hne : ∀ x, x ≠ .drafted p → x ≠ .absent →
      ∀ id', update L id .absent id' = x ↔ L id' = x := by
    intro x hx hx' id'
    exact update_eq_iff hstage x hx.symm hx'.symm id'
  refine ⟨⟨?_, ?_, ?_, h.logged.shift hstage rfl nofun nofun nofun nofun⟩, .of_stage hstage (.drop p)⟩
  · refine h.drafts.retire hfiles (ne_absent_of_update hstage nofun) fun id' q hq hid' => ?_
    refine (hne (.drafted q) ?_ Stage.noConfusion id').2 hid'
    exact fun e => hq (Stage.drafted.inj e)
  · exact h.claims.frame hclaim fun id' k => hne (.claimed k) Stage.noConfusion Stage.noConfusion id'
  · exact h.items.frame hvisible (hne .pending Stage.noConfusion Stage.noConfusion)

lemma ne_tmp_of_visible {name r} (h : visible name = true) : name ≠ tmpName r := by
  rintro rfl
  rw [visible_tmp] at h
  cases h

lemma ne_claim_of_visible {name} (h : visible name = true) : name ≠ id.claim := by
  rintro rfl
  rw [visible_claim] at h
  cases h

lemma Linked.start {uuid entry} (h : Linked s L) (hfresh : uuid ∉ s.drawn) :
    Linked (({ s with drawn := uuid :: s.drawn }.setPut p (.named ⟨s.clock, uuid⟩ entry)).emit
        (.started ⟨s.clock, uuid⟩)) (update L ⟨s.clock, uuid⟩ (.drafted p)) ∧
      Evolves L (update L ⟨s.clock, uuid⟩ (.drafted p)) := by
  have habsent := h.absent s.clock hfresh
  have hne : ∀ x : Stage, x ≠ .absent → x ≠ .drafted p →
      ∀ id', update L ⟨s.clock, uuid⟩ (.drafted p) id' = x ↔ L id' = x := by
    intro x hx hx' id'
    exact update_eq_iff habsent x hx.symm hx'.symm id'
  refine ⟨⟨h.drafts.start hfresh, ?_, ?_, ?_⟩, .of_stage habsent (.draft p)⟩
  · exact h.claims.frame (fun _ => rfl) fun id' k => hne _ Stage.noConfusion Stage.noConfusion id'
  · exact h.items.frame (fun _ _ => rfl) (hne _ Stage.noConfusion Stage.noConfusion)
  · refine Logged.emit_silent ?_ nofun (fun _ => rfl) nofun
    exact h.logged.shift habsent rfl nofun nofun nofun nofun

/-- A call writes its temporary file. -/
lemma Linked.write {call r content} (h : Linked s L)
    (hid : call.id? = (s.puts p).id?) (htmp : call.tmp? = some (tmpName r))
    (hown : ∀ q, q ≠ p → (s.puts q).tmp? ≠ some (tmpName r))
    (hwritten : ∀ id entry tmp, call = .written id entry tmp → content = some entry) :
    Linked ((s.setFiles (s.files.insert (tmpName r) content)).setPut p call) L := by
  refine ⟨h.drafts.write hid htmp ⟨r, rfl⟩ hown hwritten, ?_, ?_, h.logged⟩
  · refine h.claims.frame (fun id => ?_) fun _ _ => Iff.rfl
    exact get?_insert_of_ne (claim_ne_tmp id r) ..
  · refine h.items.frame (fun name hname => ?_) fun _ => Iff.rfl
    exact get?_insert_of_ne (ne_tmp_of_visible hname) ..

lemma Linked.rename {entry r} (h : Linked s L) (hp : (s.puts p).tmp? = some (tmpName r))
    (hstage : L id = .drafted p) :
    Linked (((s.setFiles ((s.files.erase (tmpName r)).insert id.target (some entry))).setPut p .idle).emit
        (.completed id)) (update L id .pending) ∧ Evolves L (update L id .pending) := by
  have hget : ∀ name, name ≠ id.target → name ≠ tmpName r →
      ((s.files.erase (tmpName r)).insert id.target (some entry)).get? name = s.files.get? name :=
    fun name hname hname' => get?_rename hname' hname ..
  refine ⟨⟨?_, ?_, ?_, ?_⟩, .of_stage hstage (.publish p)⟩
  · refine h.drafts.retire ?_ (ne_absent_of_update hstage nofun) ?_
    · intro r' hr'
      refine hget _ (target_ne_tmp id r').symm fun e => hr' ?_
      rw [hp, e]
    · intro id' q hq hid'
      refine (update_eq_iff hstage _ ?_ Stage.noConfusion id').2 hid'
      exact fun e => hq (Stage.drafted.inj e).symm
  · refine h.claims.frame (fun id' => ?_) fun id' k => ?_
    · exact hget _ (target_ne_claim id id').symm (claim_ne_tmp id' r)
    · exact update_eq_iff hstage _ Stage.noConfusion Stage.noConfusion id'
  · refine h.items.set (fun name hname hne => ?_) (.inl ⟨rfl, entry, ?_⟩)
    · exact hget name hne (ne_tmp_of_visible hname)
    · exact get?_insert_self ..
  · refine h.logged.emit ?_ ?_ ?_
    · intro id'
      by_cases he : id' = id
      · rw [he, update_self]
        exact iff_of_true rfl (.inr rfl)
      · rw [update_of_ne he]
        exact (or_iff_left fun e => he (Event.completed.inj e).symm).symm
    · intro id'
      exact if_congr (update_eq_iff hstage _ Stage.noConfusion Stage.noConfusion id') rfl rfl
    · intro id'
      rw [update_eq_iff hstage _ Stage.noConfusion Stage.noConfusion]
      exact (or_iff_left nofun).symm

lemma linked_put (h : Linked s L) (hs : PutStep p s t) : ∃ L', Linked t L' ∧ Evolves L L' := by
  cases hs with
  | start hp hfresh => exact ⟨_, h.start hfresh⟩
  | @mkstemp id entry random hp hfree =>
    refine ⟨L, h.write (by rw [hp]; rfl) rfl ?_ ?_, .stay⟩
    · intro q _ hq
      have hsome := (h.drafts.tmp q _ hq).2
      rw [hfree] at hsome
      cases hsome
    · rintro _ _ _ ⟨⟩
  | @dump id entry tmp hp =>
    obtain ⟨⟨r, rfl⟩, -⟩ := h.drafts.tmp p tmp (by rw [hp]; rfl)
    refine ⟨L, h.write (by rw [hp]; rfl) rfl ?_ ?_, .stay⟩
    · intro q hq hq'
      exact hq (h.drafts.owner q p _ hq' (by rw [hp]; rfl))
    · rintro _ _ _ ⟨⟩
      rfl
  | @rename id entry tmp content hp hcontent =>
    have htmp : (s.puts p).tmp? = some tmp := by
      rw [hp]
      rfl
    obtain ⟨⟨r, rfl⟩, -⟩ := h.drafts.tmp p tmp htmp
    have hfull := h.drafts.content p id entry _ hp
    rw [hcontent] at hfull
    cases hfull
    exact ⟨_, h.rename htmp (h.drafts.stage p id (by rw [hp]; rfl))⟩
  | @fail tmp hp =>
    obtain ⟨⟨r, rfl⟩, -⟩ := h.drafts.tmp p tmp hp
    obtain ⟨id, hid⟩ : ∃ id, (s.puts p).id? = some id := by
      cases hput : s.puts p with
      | idle =>
        rw [hput] at hp
        cases hp
      | named id entry | opened id entry tmp | written id entry tmp => exact ⟨id, rfl⟩
    refine ⟨_, h.drop hid ?_ ?_ ?_⟩
    · intro r' hr'
      refine get?_erase_of_ne (fun e => hr' ?_) _
      rw [hp, e]
    · intro id'
      exact get?_erase_of_ne (claim_ne_tmp id' r) _
    · intro name hname
      exact get?_erase_of_ne (ne_tmp_of_visible hname) _

lemma Linked.move {call} (h : Linked s L) (hheld : call.held? = (s.gets k).held?)
    (hscan : ∀ paths, call = .scanning paths → ∀ path ∈ paths, ∃ id : ItemId, path = id.target)
    (hcontent : ∀ path, call ≠ .claimed path)
    (hdata : ∀ path content, call = .read path content ∨ call = .unlinked path content →
      content.isSome) : Linked (s.setGet k call) L :=
  ⟨h.drafts, h.claims.move hheld hscan hcontent hdata fun _ _ _ _ => rfl, h.items, h.logged⟩

lemma Linked.release {stage event} (h : Linked s L)
    (hstage : L id = .claimed k) (hmove : Moves (.claimed k) stage)
    (hlogged : Logged (s.log ++ [event]) (update L id stage)) :
    Linked ((s.setGet k .idle).emit event) (update L id stage) ∧
      Evolves L (update L id stage) := by
  have hnew : (∀ p, stage ≠ .drafted p) ∧ stage ≠ .pending ∧ ∀ j, stage ≠ .claimed j := by
    cases hmove with
    | deliver | lose => exact ⟨nofun, nofun, nofun⟩
  refine ⟨⟨?_, ?_, ?_, hlogged⟩, .of_stage hstage hmove⟩
  · refine h.drafts.frame (fun _ => rfl) (ne_absent_of_update hstage nofun) fun id' p hid' => ?_
    exact (update_eq_iff hstage _ Stage.noConfusion (hnew.1 p) id').2 hid'
  · refine h.claims.release fun id' j => ?_
    by_cases he : id' = id
    · rw [he, update_self, hstage]
      exact iff_of_false (hnew.2.2 j) fun hj => hj.1 (Stage.claimed.inj hj.2).symm
    · rw [update_of_ne he]
      refine ⟨fun hid' => ⟨?_, hid'⟩, fun hid' => hid'.2⟩
      rintro rfl
      -- a process holds one item at a time
      have hheld := h.claims.holder j id hstage
      rw [h.claims.holder j id' hid'] at hheld
      exact he (target_inj.1 (Option.some.inj hheld))
  · exact h.items.frame (fun _ _ => rfl) (update_eq_iff hstage _ Stage.noConfusion hnew.2.1)

lemma Linked.idle (h : Linked s L) (hfree : (s.gets k).held? = none) : Linked (s.setGet k .idle) L :=
  h.move hfree.symm nofun nofun (by rintro _ _ (h | h) <;> cases h)

lemma Linked.claim {entry} (h : Linked s L) (hfree : (s.gets k).held? = none) (hstage : L id = .pending) :
    Linked ((s.setFiles ((s.files.erase id.target).insert id.claim (some entry))).setGet k
        (.claimed id.target)) (update L id (.claimed k)) ∧
      Evolves L (update L id (.claimed k)) := by
  have hget : ∀ name, name ≠ id.target → name ≠ id.claim →
      ((s.files.erase id.target).insert id.claim (some entry)).get? name = s.files.get? name :=
    fun name hname hname' => get?_rename hname hname' ..
  refine ⟨⟨?_, h.claims.claim hfree hstage, ?_, h.logged.shift hstage rfl nofun nofun nofun nofun⟩,
    .of_stage hstage (.claim k)⟩
  · refine h.drafts.frame (fun r => ?_) (ne_absent_of_update hstage nofun) fun id' p hid' => ?_
    · exact hget _ (target_ne_tmp id r).symm (claim_ne_tmp id r).symm
    · exact (update_eq_iff hstage _ Stage.noConfusion Stage.noConfusion id').2 hid'
  · refine h.items.set (fun name hname hne => ?_) (.inr ⟨Stage.noConfusion, ?_⟩)
    · exact hget name hne (ne_claim_of_visible hname)
    · refine (get?_insert_of_ne (target_ne_claim id id) ..).trans ?_
      exact get?_erase_self ..

/-- The call that holds an item removes its claimed file. -/
lemma Linked.unlink {content} (h : Linked s L) (hk : s.gets k = .read id.target content) :
    Linked ((s.setFiles (s.files.erase id.claim)).setGet k (.unlinked id.target content)) L := by
  have hheld : (s.gets k).held? = some id.target := by
    rw [hk]
    rfl
  have hget : ∀ name, name ≠ id.claim → (s.files.erase id.claim).get? name = s.files.get? name :=
    fun name hname => get?_erase_of_ne hname _
  refine ⟨?_, ?_, ?_, h.logged⟩
  · exact h.drafts.frame (fun r => hget _ (claim_ne_tmp id r).symm) (fun _ h => h) fun _ _ h => h
  · refine h.claims.move hheld.symm nofun nofun ?_ ?_
    · rintro _ _ (⟨⟨⟩⟩ | ⟨⟨⟩⟩)
      exact h.claims.data k _ _ (.inl hk)
    · intro j path hj hpath
      have hheld' : (s.gets j).held? = some path := by
        rw [hpath]
        rfl
      obtain ⟨id', rfl, hid'⟩ := h.claims.held j path hheld'
      rw [withSuffix_target]
      refine hget _ fun e => hj ?_
      rw [claim_inj.1 e] at hheld'
      exact h.claims.unique hheld' hheld
  · exact h.items.frame (fun name hname => hget name (ne_claim_of_visible hname)) fun _ => Iff.rfl

lemma linked_get (h : Linked s L) (hs : GetStep k s t) : ∃ L', Linked t L' ∧ Evolves L L' := by
  cases hs with
  | list hk =>
    refine ⟨L, h.move (by rw [hk]; rfl) ?_ nofun (by rintro _ _ (h | h) <;> cases h), .stay⟩
    rintro _ ⟨⟩ path hpath
    obtain ⟨hkey, hvisible⟩ := mem_filter.1 hpath
    obtain ⟨content, hcontent⟩ := mem_keys_iff.1 hkey
    exact h.items.names path hvisible (by rw [hcontent]; rfl)
  | @claim path paths content hk hcontent =>
    obtain ⟨id, rfl⟩ := h.claims.scanned k _ hk path (mem_cons_self ..)
    have hstage := h.items.stage id (by rw [hcontent]; rfl)
    obtain ⟨entry, hentry⟩ := h.items.file id hstage
    rw [hcontent] at hentry
    cases hentry
    rw [withSuffix_target]
    exact ⟨_, h.claim (by rw [hk]; rfl) hstage⟩
  | @lose path paths hk hgone =>
    refine ⟨L, h.move (by rw [hk]; rfl) ?_ nofun (by rintro _ _ (h | h) <;> cases h), .stay⟩
    rintro _ ⟨⟩ path' hpath'
    exact h.claims.scanned k _ hk path' (mem_cons_of_mem _ hpath')
  | empty hk => exact ⟨L, h.idle (by rw [hk]; rfl), .stay⟩
  | @read path content hk hcontent =>
    refine ⟨L, h.move (by rw [hk]; rfl) nofun nofun ?_, .stay⟩
    obtain ⟨entry, hentry⟩ := h.claims.content k path hk
    rw [hcontent] at hentry
    cases hentry
    rintro _ _ (⟨⟨⟩⟩ | ⟨⟨⟩⟩)
    rfl
  | @missing path hk hgone =>
    -- a claimed file stays until its holder removes it
    obtain ⟨entry, hentry⟩ := h.claims.content k path hk
    rw [hgone] at hentry
    cases hentry
  | @unlink path content hk =>
    obtain ⟨id, rfl, hid⟩ := h.claims.held k path (by rw [hk]; rfl)
    rw [withSuffix_target]
    exact ⟨L, h.unlink hk, .stay⟩
  | @ret path data hk =>
    obtain ⟨id, rfl, hstage⟩ := h.claims.held k path (by rw [hk]; rfl)
    refine ⟨_, h.release hstage (.deliver k) (h.logged.emit ?_ ?_ ?_)⟩
    · intro id'
      rw [isPublished_update hstage (by rfl)]
      exact (or_iff_left nofun).symm
    · intro id'
      by_cases he : id' = id
      · rw [he, update_self, hstage]
        simp [Event.isReturn]
      · have hne : id.target ≠ id'.target := fun e => he (target_inj.1 e).symm
        rw [update_of_ne he]
        simp [Event.isReturn, hne]
    · intro id'
      rw [update_eq_iff hstage _ Stage.noConfusion Stage.noConfusion]
      exact (or_iff_left nofun).symm
  | @garbage path hk =>
    have hdata := h.claims.data k path none (.inr hk)
    cases hdata

lemma linked_crash (h : Linked s L) (hs : Crash s t) : ∃ L', Linked t L' ∧ Evolves L L' := by
  cases hs with
  | get k =>
    cases hheld : (s.gets k).held? with
    | none =>
      have hidle := h.idle hheld
      exact ⟨L, ⟨hidle.drafts, hidle.claims, hidle.items,
        hidle.logged.emit_silent nofun (fun _ => rfl) nofun⟩, .stay⟩
    | some path =>
      obtain ⟨id, rfl, hstage⟩ := h.claims.held k path hheld
      refine ⟨_, h.release hstage (.lose k) (h.logged.emit ?_ ?_ ?_)⟩
      · intro id'
        rw [isPublished_update hstage (by rfl)]
        exact (or_iff_left nofun).symm
      · intro id'
        exact if_congr (update_eq_iff hstage _ Stage.noConfusion Stage.noConfusion id') rfl rfl
      · intro id'
        by_cases he : id' = id
        · rw [he, update_self]
          exact iff_of_true rfl (.inr rfl)
        · rw [update_of_ne he]
          refine (or_iff_left fun e => he ?_).symm
          exact (target_inj.1 (Option.some.inj (Event.crashed.inj e))).symm
  | put p =>
    cases hid : (s.puts p).id? with
    | none =>
      have hidle : s.puts p = .idle := by
        cases hput : s.puts p with
        | idle => rfl
        | named _ _ | opened _ _ _ | written _ _ _ => rw [hput] at hid; cases hid
      have hsame : s.setPut p .idle = s := by
        rw [setPut, ← hidle, update_eq_self]
      rw [hsame]
      exact ⟨L, h, .stay⟩
    | some id => exact ⟨_, h.drop hid (fun _ _ => rfl) (fun _ => rfl) fun _ _ => rfl⟩
  | reboot _ _ => exact ⟨L, ⟨h.drafts, h.claims, h.items, h.logged⟩, .stay⟩

/-- Every step is a move of at most one item. -/
theorem linked_step (h : Linked s L) (hs : Step s t) : ∃ L', Linked t L' ∧ Evolves L L' := by
  cases hs with
  | tick ht =>
    cases ht
    exact ⟨L, ⟨h.drafts, h.claims, h.items, h.logged⟩, .stay⟩
  | put p hp => exact linked_put h hp
  | get k hk => exact linked_get h hk
  | crash hc => exact linked_crash h hc

lemma linked_init (clock : Nanos) : Linked (.init E clock) fun _ => .absent where
  drafts := ⟨fun _ h => absurd rfl h, nofun, nofun, nofun, nofun⟩
  claims := ⟨nofun, nofun, nofun, nofun, by rintro _ _ _ (h | h) <;> cases h⟩
  items := ⟨nofun, nofun, nofun⟩
  logged := ⟨fun _ => iff_of_false nofun nofun, fun _ => rfl, fun _ => iff_of_false nofun nofun⟩

theorem exists_linked (h : Reachable s) : ∃ L, Linked s L := by
  induction h with
  | init clock => exact ⟨_, linked_init clock⟩
  | step _ hs ih =>
    obtain ⟨L, hL⟩ := ih
    obtain ⟨L', hL', -⟩ := linked_step hL hs
    exact ⟨L', hL'⟩

lemma target_mem_pending : id.target ∈ s.pending ↔ (s.files.get? id.target).isSome := by
  rw [pending, mem_filter, mem_keys_iff, visible_target, Option.isSome_iff_exists]
  exact and_iff_left rfl

lemma pending_congr (h : t.files.get? id.target = s.files.get? id.target) :
    id.target ∈ t.pending ↔ id.target ∈ s.pending := by
  rw [target_mem_pending, target_mem_pending, h]

lemma countP_isReturn_eq_zero {log : List (Event E)} {path} :
    log.countP (Event.isReturn path) = 0 ↔ ∀ data, .returned path data ∉ log := by
  rw [countP_eq_zero]
  constructor
  · intro h data hmem
    exact h _ hmem (decide_eq_true rfl)
  · intro h event hmem hevent
    cases event with
    | returned path' data =>
      have he : path' = path := of_decide_eq_true hevent
      rw [he] at hmem
      exact h data hmem
    | started _ | completed _ | crashed _ => cases hevent

/-- No `get_nowait` call holds an item. -/
def NoClaim (s : State E) : Prop := ∀ k, (s.gets k).held? = none

/-- No entry is returned by two calls. -/
def ReturnedOnce (s : State E) : Prop := ∀ id : ItemId, s.log.countP (Event.isReturn id.target) ≤ 1

/-- When no call holds an item, the entries that are added and not returned are pending. -/
def NothingLost (s : State E) : Prop :=
  NoClaim s → ∀ id, .completed id ∈ s.log → (∀ data, .returned id.target data ∉ s.log) → id.target ∈ s.pending

/-- Python `put` and `get_nowait`: in every reachable state of the queue no entry is returned twice, and none is
lost exactly if no consumer has crashed with a claim in its hands. -/
theorem exactly_once_and_durable_iff (h : Reachable s) : ReturnedOnce s ∧ NothingLost s ↔
    (NoClaim s → ∀ id : ItemId, .crashed (some id.target) ∉ s.log) := by
  obtain ⟨L, hL⟩ := exists_linked h
  have honce : ReturnedOnce s := by
    intro id
    rw [hL.logged.returned id]
    split_ifs <;> omega
  constructor
  · rintro ⟨-, hlost⟩ hclaim id hcrash
    have hstage := (hL.logged.lost id).1 hcrash
    have hcompleted : .completed id ∈ s.log := (hL.logged.completed id).2 (by rw [hstage]; rfl)
    have hreturned : ∀ data, .returned id.target data ∉ s.log := by
      refine countP_isReturn_eq_zero.1 ?_
      rw [hL.logged.returned id, hstage]
      rfl
    have hpending := hL.items.stage id (target_mem_pending.1 (hlost hclaim id hcompleted hreturned))
    rw [hstage] at hpending
    cases hpending
  · refine fun hcrash => ⟨honce, fun hclaim id hcompleted hreturned => ?_⟩
    have hpublished := (hL.logged.completed id).1 hcompleted
    have hcount := countP_isReturn_eq_zero.2 hreturned
    rw [hL.logged.returned id] at hcount
    cases hstage : L id with
    | absent =>
      rw [hstage] at hpublished
      cases hpublished
    | drafted p =>
      rw [hstage] at hpublished
      cases hpublished
    | pending =>
      obtain ⟨entry, hentry⟩ := hL.items.file id hstage
      exact target_mem_pending.2 (by rw [hentry]; rfl)
    | claimed k =>
      have hheld := hL.claims.holder k id hstage
      rw [hclaim k] at hheld
      cases hheld
    | delivered =>
      rw [if_pos hstage] at hcount
      cases hcount
    | lost => exact absurd ((hL.logged.lost id).2 hstage) (hcrash hclaim id)

/-- A `get_nowait` call ends with `queue.Empty`, or with an entry of a finished `put` that no call has returned
before: it never raises on a file. -/
theorem get_ends (h : Reachable s) (hs : GetStep k s t) (hend : t.gets k = .idle) :
    s.gets k = .scanning [] ∧ t.log = s.log ∨
      ∃ id : ItemId, ∃ data, t.log = s.log ++ [.returned id.target data] ∧ .completed id ∈ s.log ∧
        ∀ d, .returned id.target d ∉ s.log := by
  obtain ⟨L, hL⟩ := exists_linked h
  cases hs with
  | empty hk => exact .inl ⟨hk, rfl⟩
  | ret hk =>
    obtain ⟨id, rfl, hid⟩ := hL.claims.held k _ (by rw [hk]; rfl)
    refine .inr ⟨id, _, rfl, (hL.logged.completed id).2 (by rw [hid]; rfl), ?_⟩
    rw [← countP_isReturn_eq_zero, hL.logged.returned, hid]
    rfl
  | missing hk hnone =>
    obtain ⟨entry, hentry⟩ := hL.claims.content k _ hk
    rw [hnone] at hentry
    cases hentry
  | garbage hk => exact absurd (hL.claims.data k _ _ (.inr hk)) (by simp)
  | _ => simp [setGet] at hend

lemma Reachable.trans {R : State E → State E → Prop} (h : Reachable s)
    (hR : ∀ {s t}, R s t → Step s t) (hsteps : ReflTransGen R s t) : Reachable t := by
  induction hsteps with
  | refl => exact h
  | tail _ hs ih => exact ih.step (hR hs)

lemma put_alone {uuid entry random} (hp : s.puts p = .idle)
    (hfresh : uuid ∉ s.drawn) (hfree : s.files.get? (tmpName random) = none) :
    ReflTransGen (PutStep p) s ⟨s.clock, uuid :: s.drawn,
      s.files.insert (target ⟨s.clock, uuid⟩) (some entry), s.puts, s.gets,
      s.log ++ [.started ⟨s.clock, uuid⟩, .completed ⟨s.clock, uuid⟩]⟩ := by
  have hstart := ReflTransGen.single (@PutStep.start E p s uuid entry hp hfresh)
  have hmkstemp := hstart.tail
    (@PutStep.mkstemp E p _ ⟨s.clock, uuid⟩ entry random (update_self ..) hfree)
  have hdump := hmkstemp.tail
    (@PutStep.dump E p _ ⟨s.clock, uuid⟩ entry (tmpName random) (update_self ..))
  have hrename := hdump.tail
    (@PutStep.rename E p _ ⟨s.clock, uuid⟩ entry (tmpName random) (some entry) (update_self ..)
      (get?_insert_self ..))
  convert hrename using 1
  simp only [setPut, setFiles, emit, State.mk.injEq, true_and]
  refine ⟨SortedMap.ext_get fun name => ?_, ?_, ?_⟩
  · simp only [get?_insert, get?_erase]
    split_ifs with h1 h2
    · rfl
    · rw [h2, hfree]
    · rfl
  · rw [update_idem, update_idem, update_idem, ← hp, update_eq_self]
  · rw [append_assoc]
    rfl

lemma claim_alone {paths content} (hk : s.gets k = .idle)
    (hpending : s.pending = id.target :: paths) (hcontent : s.files.get? id.target = some content) :
    ReflTransGen (GetStep k) s ((s.setFiles ((s.files.erase id.target).insert id.claim content)).setGet k
      (.claimed id.target)) := by
  have hlist := ReflTransGen.single (GetStep.list hk)
  rw [hpending] at hlist
  have hclaim := hlist.tail
    (@GetStep.claim E k _ id.target paths content (update_self ..) hcontent)
  convert hclaim using 1
  simp [setGet, setFiles]

end

def zeroUuid : Uuid where
  hex := List.replicate 32 '0'
  length_hex := rfl
  hex_digits c hc := by
    rw [List.eq_of_mem_replicate hc]
    exact .inl rfl

def item0 : ItemId := ⟨0, zeroUuid⟩

def onePending : State Unit :=
  ⟨0, [zeroUuid], SortedMap.empty.insert item0.target (some ()), fun _ => .idle, fun _ => .idle,
    [.started item0, .completed item0]⟩

def oneLost : State Unit :=
  ⟨0, [zeroUuid], (onePending.files.erase item0.target).insert item0.claim (some ()), fun _ => .idle,
    fun _ => .idle, [.started item0, .completed item0, .crashed (some item0.target)]⟩

lemma reachable_onePending : Reachable onePending := by
  refine (Reachable.init 0).trans (.put 0) ?_
  exact @put_alone Unit 0 _ zeroUuid () "" rfl nofun rfl

lemma reachable_oneLost : Reachable oneLost := by
  have hpending : onePending.pending = [item0.target] := filter_cons_of_pos item0.visible_target
  have hget : onePending.files.get? item0.target = some (some ()) := get?_insert_self ..
  have hclaim := claim_alone (k := 0) rfl hpending hget
  have hcrash := (reachable_onePending.trans (.get 0) hclaim).step (.crash (.get 0))
  convert hcrash using 1
  simp [setGet, setFiles, emit, oneLost, onePending, Get.held?]

/-- A put that nobody has claimed. -/
theorem onePending_durable : ReturnedOnce onePending ∧ NothingLost onePending := by
  refine (exactly_once_and_durable_iff reachable_onePending).2 fun _ id => ?_
  simp [onePending]

/-- The one entry is neither pending nor returned, and nobody holds it. -/
theorem oneLost_not_durable :
    Reachable oneLost ∧ NoClaim oneLost ∧ ¬ (ReturnedOnce oneLost ∧ NothingLost oneLost) := by
  refine ⟨reachable_oneLost, fun _ => rfl, fun h => ?_⟩
  have hpending := h.2 (fun _ => rfl) item0 (by simp [oneLost]) (by simp [oneLost])
  rw [target_mem_pending, oneLost, get?_insert_of_ne (target_ne_claim item0 item0),
    get?_erase_self] at hpending
  cases hpending

/-- The entry of the one put is returned. -/
theorem get_ends_onePending : ∃ s t : State Unit, GetStep 0 s t ∧ ∃ id : ItemId, ∃ data,
    t.log = s.log ++ [.returned id.target data] ∧ .completed id ∈ s.log ∧
      ∀ d, .returned id.target d ∉ s.log := by
  have hpending : onePending.pending = [item0.target] := filter_cons_of_pos item0.visible_target
  have hget : onePending.files.get? item0.target = some (some ()) := get?_insert_self ..
  have hclaim := reachable_onePending.trans (.get 0) (claim_alone (k := 0) rfl hpending hget)
  have hread := hclaim.step (.get 0 (.read rfl (by rw [withSuffix_target]; exact get?_insert_self ..)))
  have hunlink := hread.step (.get 0 (.unlink rfl))
  refine ⟨_, _, .ret rfl, (get_ends hunlink (.ret rfl) rfl).resolve_left ?_⟩
  rintro ⟨hk, -⟩
  cases hk

end SocioWorkspace.Queue
