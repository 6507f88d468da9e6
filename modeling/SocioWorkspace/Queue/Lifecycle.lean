import SocioWorkspace.Queue.Model

/-!
# The life of a queue item

An item goes through a few stages (`Moves`), from the `put` that drafts it to the `get_nowait` that delivers
it. `Linked` says how the directory, the calls and what the callers have seen show the stage of each item.

`Drafts`, `Claims`, `Items` and `Logged` are the four parts of `Linked`: the files of the calls of `put`, those
of `get_nowait`, the visible files, and the log. Each part has its frame lemma and one lemma for each move.
-/

namespace SocioWorkspace.Queue
open List Function ItemId

inductive Stage where
  | absent
  | drafted (p : ℕ)
  | pending
  | claimed (k : ℕ)
  | delivered
  | lost
deriving DecidableEq

/-- How an item goes from one stage to the next. -/
inductive Moves : Stage → Stage → Prop where
  | draft (p) : Moves .absent (.drafted p)
  | drop (p) : Moves (.drafted p) .absent
  | publish (p) : Moves (.drafted p) .pending
  | claim (k) : Moves .pending (.claimed k)
  | deliver (k) : Moves (.claimed k) .delivered
  | lose (k) : Moves (.claimed k) .lost

/-- The stages behind a completed `put`. -/
def Stage.isPublished : Stage → Bool
  | absent => false
  | drafted _ => false
  | pending => true
  | claimed _ => true
  | delivered => true
  | lost => true

/-- A call of `get_nowait` returned the entry behind a path. -/
def Event.isReturn {E : Type} (path : String) : Event E → Bool
  | started _ => false
  | completed _ => false
  | returned path' _ => path' = path
  | crashed _ => false

inductive Evolves (L : ItemId → Stage) : (ItemId → Stage) → Prop where
  | stay : Evolves L L
  | move {id stage} : Moves (L id) stage → Evolves L (Function.update L id stage)

section
variable {E : Type}

/-- The `put` calls and their temporary files. -/
structure Drafts (puts : ℕ → Put E) (files : SortedMap String (Option E)) (drawn : List Uuid)
    (L : ItemId → Stage) : Prop where
  drawn : ∀ id, L id ≠ .absent → id.uuid ∈ drawn
  stage : ∀ p id, (puts p).id? = some id → L id = .drafted p
  tmp : ∀ p tmp, (puts p).tmp? = some tmp → (∃ r, tmp = tmpName r) ∧ (files.get? tmp).isSome
  owner : ∀ p q tmp, (puts p).tmp? = some tmp → (puts q).tmp? = some tmp → p = q
  content : ∀ p id entry tmp, puts p = .written id entry tmp → files.get? tmp = some (some entry)

/-- The `get_nowait` calls and the files that they have claimed. -/
structure Claims (gets : ℕ → Get E) (files : SortedMap String (Option E)) (L : ItemId → Stage) :
    Prop where
  held : ∀ k path, (gets k).held? = some path → ∃ id : ItemId, path = id.target ∧ L id = .claimed k
  holder : ∀ k id, L id = .claimed k → (gets k).held? = some id.target
  scanned : ∀ k paths, gets k = .scanning paths → ∀ path ∈ paths, ∃ id : ItemId, path = id.target
  content : ∀ k path, gets k = .claimed path →
    ∃ entry, files.get? (withSuffix path ".claimed") = some (some entry)
  data : ∀ k path content, gets k = .read path content ∨ gets k = .unlinked path content → content.isSome

structure Items (files : SortedMap String (Option E)) (L : ItemId → Stage) : Prop where
  file : ∀ id : ItemId, L id = .pending → ∃ entry, files.get? id.target = some (some entry)
  stage : ∀ id : ItemId, (files.get? id.target).isSome → L id = .pending
  names : ∀ name, visible name → (files.get? name).isSome → ∃ id : ItemId, name = id.target

/-- What the callers have seen of each item. -/
structure Logged (log : List (Event E)) (L : ItemId → Stage) : Prop where
  completed : ∀ id, .completed id ∈ log ↔ (L id).isPublished
  returned : ∀ id, log.countP (Event.isReturn id.target) = if L id = .delivered then 1 else 0
  lost : ∀ id : ItemId, .crashed (some id.target) ∈ log ↔ L id = .lost

/-- A state shows these stages of the items. -/
structure Linked (s : State E) (L : ItemId → Stage) : Prop where
  drafts : Drafts s.puts s.files s.drawn L
  claims : Claims s.gets s.files L
  items : Items s.files L
  logged : Logged s.log L

variable {puts : ℕ → Put E} {gets : ℕ → Get E} {files files' : SortedMap String (Option E)}
  {drawn : List Uuid} {log : List (Event E)} {L L' : ItemId → Stage} {p k : ℕ}

variable {id : ItemId}

/-- The move of one item does not touch a stage that it neither leaves nor enters. -/
lemma update_eq_iff {old stage} (h : L id = old) (x : Stage) (hold : old ≠ x)
    (hnew : stage ≠ x) (id' : ItemId) : update L id stage id' = x ↔ L id' = x := by
  by_cases he : id' = id
  · rw [he, update_self, h]
    exact iff_of_false hnew hold
  · rw [update_of_ne he]

lemma ne_absent_of_update {old stage} (h : L id = old) (hold : old ≠ .absent) (id' : ItemId)
    (hid' : update L id stage id' ≠ .absent) : L id' ≠ .absent := by
  by_cases he : id' = id
  · rw [he, h]
    exact hold
  · rw [update_of_ne he] at hid'
    exact hid'

lemma isPublished_update {old stage} (h : L id = old)
    (hpublished : stage.isPublished = old.isPublished) (id' : ItemId) :
    (update L id stage id').isPublished = (L id').isPublished := by
  by_cases he : id' = id
  · rw [he, update_self, h, hpublished]
  · rw [update_of_ne he]

lemma Evolves.of_stage {old stage} (h : L id = old) (hmove : Moves old stage) :
    Evolves L (update L id stage) :=
  .move (h ▸ hmove)

/-- What `Drafts` says of one call. -/
structure DraftAt (files : SortedMap String (Option E)) (L : ItemId → Stage) (p : ℕ) (call : Put E) :
    Prop where
  stage : ∀ id, call.id? = some id → L id = .drafted p
  tmp : ∀ tmp, call.tmp? = some tmp → (∃ r, tmp = tmpName r) ∧ (files.get? tmp).isSome
  content : ∀ id entry tmp, call = .written id entry tmp → files.get? tmp = some (some entry)

lemma DraftAt.frame {call} (h : DraftAt files L p call)
    (hfiles : ∀ tmp, call.tmp? = some tmp → files'.get? tmp = files.get? tmp)
    (hdraft : ∀ id, L id = .drafted p → L' id = .drafted p) : DraftAt files' L' p call where
  stage id hid := hdraft id (h.stage id hid)
  tmp tmp htmp := by
    rw [hfiles tmp htmp]
    exact h.tmp tmp htmp
  content id entry tmp hcall := by
    rw [hfiles tmp (by rw [hcall]; rfl)]
    exact h.content id entry tmp hcall

namespace Drafts

lemma at_process (h : Drafts puts files drawn L) (p : ℕ) : DraftAt files L p (puts p) :=
  ⟨h.stage p, h.tmp p, h.content p⟩

/-- The call of one process changes; its temporary file is none of the others'. -/
lemma update {call drawn'} (h : Drafts puts files drawn L)
    (hdrawn : ∀ id, L' id ≠ .absent → id.uuid ∈ drawn') (hcall : DraftAt files' L' p call)
    (hother : ∀ q, q ≠ p → DraftAt files' L' q (puts q))
    (hown : ∀ q tmp, q ≠ p → call.tmp? = some tmp → (puts q).tmp? ≠ some tmp) :
    Drafts (Function.update puts p call) files' drawn' L' := by
  have hat : ∀ q, DraftAt files' L' q (Function.update puts p call q) :=
    (Function.forall_update_iff puts fun q call => DraftAt files' L' q call).2 ⟨hcall, hother⟩
  refine ⟨hdrawn, fun q => (hat q).stage, fun q => (hat q).tmp, ?_, fun q => (hat q).content⟩
  intro q q' tmp hq hq'
  by_cases hqp : q = p <;> by_cases hqp' : q' = p
  · rw [hqp, hqp']
  · rw [hqp, Function.update_self] at hq
    rw [Function.update_of_ne hqp'] at hq'
    exact absurd hq' (hown q' tmp hqp' hq)
  · rw [Function.update_of_ne hqp] at hq
    rw [hqp', Function.update_self] at hq'
    exact absurd hq (hown q tmp hqp hq')
  · rw [Function.update_of_ne hqp] at hq
    rw [Function.update_of_ne hqp'] at hq'
    exact h.owner q q' tmp hq hq'

lemma frame (h : Drafts puts files drawn L) (hfiles : ∀ r, files'.get? (tmpName r) = files.get? (tmpName r))
    (hdrawn : ∀ id, L' id ≠ .absent → L id ≠ .absent)
    (hdraft : ∀ id p, L id = .drafted p → L' id = .drafted p) : Drafts puts files' drawn L' := by
  have hat : ∀ p, DraftAt files' L' p (puts p) := by
    intro p
    refine (h.at_process p).frame (fun tmp htmp => ?_) fun id => hdraft id p
    obtain ⟨⟨r, rfl⟩, -⟩ := h.tmp p tmp htmp
    exact hfiles r
  exact ⟨fun id hid => h.drawn id (hdrawn id hid), fun p => (hat p).stage, fun p => (hat p).tmp,
    h.owner, fun p => (hat p).content⟩

lemma retire (h : Drafts puts files drawn L) (hfiles : ∀ r, (puts p).tmp? ≠ some (tmpName r) →
      files'.get? (tmpName r) = files.get? (tmpName r)) (hdrawn : ∀ id, L' id ≠ .absent → L id ≠ .absent)
    (hdraft : ∀ id q, q ≠ p → L id = .drafted q → L' id = .drafted q) :
    Drafts (Function.update puts p .idle) files' drawn L' := by
  refine h.update (fun id hid => h.drawn id (hdrawn id hid)) ⟨nofun, nofun, nofun⟩ ?_ nofun
  intro q hqp
  refine (h.at_process q).frame (fun tmp hq => ?_) fun id => hdraft id q hqp
  obtain ⟨⟨r, rfl⟩, -⟩ := h.tmp q tmp hq
  exact hfiles r fun hp => hqp (h.owner q p _ hq hp)

lemma write {call tmp content} (h : Drafts puts files drawn L)
    (hid : call.id? = (puts p).id?) (htmp : call.tmp? = some tmp) (hname : ∃ r, tmp = tmpName r)
    (hown : ∀ q, q ≠ p → (puts q).tmp? ≠ some tmp)
    (hwritten : ∀ id entry tmp', call = .written id entry tmp' → content = some entry) :
    Drafts (Function.update puts p call) (files.insert tmp content) drawn L := by
  have hget : (files.insert tmp content).get? tmp = some content := SortedMap.get?_insert_self ..
  refine h.update h.drawn ⟨?_, ?_, ?_⟩ ?_ ?_
  · intro id hcall
    exact h.stage p id (hid ▸ hcall)
  · intro tmp' htmp'
    cases htmp.symm.trans htmp'
    exact ⟨hname, by rw [hget]; rfl⟩
  · intro id entry tmp' hcall
    rw [hcall] at htmp
    cases htmp
    rw [hget, hwritten id entry _ hcall]
  · intro q hqp
    refine (h.at_process q).frame (fun tmp' hq => ?_) fun _ hstage => hstage
    refine SortedMap.get?_insert_of_ne ?_ files content
    rintro rfl
    exact hown q hqp hq
  · intro q tmp' hqp htmp'
    cases htmp.symm.trans htmp'
    exact hown q hqp

lemma start {id entry} (h : Drafts puts files drawn L) (hfresh : id.uuid ∉ drawn) :
    Drafts (Function.update puts p (.named id entry)) files (id.uuid :: drawn)
      (Function.update L id (.drafted p)) := by
  have habsent : L id = .absent := by
    by_contra hne
    exact hfresh (h.drawn id hne)
  refine h.update ?_ ⟨?_, nofun, nofun⟩ ?_ nofun
  · intro id' hid'
    by_cases he : id' = id
    · rw [he]
      exact mem_cons_self ..
    · rw [Function.update_of_ne he] at hid'
      exact mem_cons_of_mem _ (h.drawn id' hid')
  · rintro id' ⟨⟩
    exact Function.update_self ..
  · intro q hqp
    refine (h.at_process q).frame (fun _ _ => rfl) fun id' => ?_
    refine (update_eq_iff habsent _ Stage.noConfusion ?_ id').2
    exact fun e => hqp (Stage.drafted.inj e).symm

end Drafts

/-- What `Claims` says of one call. -/
structure ClaimAt (files : SortedMap String (Option E)) (L : ItemId → Stage) (k : ℕ) (call : Get E) :
    Prop where
  held : ∀ path, call.held? = some path → ∃ id : ItemId, path = id.target ∧ L id = .claimed k
  holder : ∀ id, L id = .claimed k → call.held? = some id.target
  scanned : ∀ paths, call = .scanning paths → ∀ path ∈ paths, ∃ id : ItemId, path = id.target
  content : ∀ path, call = .claimed path →
    ∃ entry, files.get? (withSuffix path ".claimed") = some (some entry)
  data : ∀ path content, call = .read path content ∨ call = .unlinked path content → content.isSome

lemma ClaimAt.frame {call} (h : ClaimAt files L k call)
    (hfiles : ∀ path, call = .claimed path →
      files'.get? (withSuffix path ".claimed") = files.get? (withSuffix path ".claimed"))
    (hstage : ∀ id, L' id = .claimed k ↔ L id = .claimed k) : ClaimAt files' L' k call where
  held path hpath := by
    obtain ⟨id, rfl, hid⟩ := h.held path hpath
    exact ⟨id, rfl, (hstage id).2 hid⟩
  holder id hid := h.holder id ((hstage id).1 hid)
  scanned := h.scanned
  content path hcall := by
    rw [hfiles path hcall]
    exact h.content path hcall
  data := h.data

namespace Claims

lemma at_process (h : Claims gets files L) (k : ℕ) : ClaimAt files L k (gets k) :=
  ⟨h.held k, h.holder k, h.scanned k, h.content k, h.data k⟩

lemma of_at (h : ∀ k, ClaimAt files L k (gets k)) : Claims gets files L :=
  ⟨fun k => (h k).held, fun k => (h k).holder, fun k => (h k).scanned, fun k => (h k).content,
    fun k => (h k).data⟩

lemma update {call} (hcall : ClaimAt files L k call)
    (hother : ∀ j, j ≠ k → ClaimAt files L j (gets j)) : Claims (Function.update gets k call) files L :=
  of_at ((Function.forall_update_iff gets fun j call => ClaimAt files L j call).2 ⟨hcall, hother⟩)

lemma frame (h : Claims gets files L) (hfiles : ∀ id : ItemId, files'.get? id.claim = files.get? id.claim)
    (hstage : ∀ id k, L' id = .claimed k ↔ L id = .claimed k) : Claims gets files' L' := by
  refine of_at fun k => (h.at_process k).frame (fun path hcall => ?_) fun id => hstage id k
  obtain ⟨id, rfl, -⟩ := h.held k path (by rw [hcall]; rfl)
  rw [withSuffix_target]
  exact hfiles id

lemma unique {j path} (h : Claims gets files L) (hj : (gets j).held? = some path)
    (hk : (gets k).held? = some path) : j = k := by
  obtain ⟨id, rfl, hid⟩ := h.held j path hj
  obtain ⟨id', he, hid'⟩ := h.held k _ hk
  rw [← target_inj.1 he, hid] at hid'
  exact Stage.claimed.inj hid'

lemma move {call} (h : Claims gets files L) (hheld : call.held? = (gets k).held?)
    (hscan : ∀ paths, call = .scanning paths → ∀ path ∈ paths, ∃ id : ItemId, path = id.target)
    (hcontent : ∀ path, call ≠ .claimed path)
    (hdata : ∀ path content, call = .read path content ∨ call = .unlinked path content →
      content.isSome) (hfiles : ∀ j path, j ≠ k → gets j = .claimed path →
      files'.get? (withSuffix path ".claimed") = files.get? (withSuffix path ".claimed")) :
    Claims (Function.update gets k call) files' L := by
  refine update ⟨?_, ?_, hscan, ?_, hdata⟩ fun j hj => ?_
  · intro path hpath
    exact h.held k path (hheld ▸ hpath)
  · intro id hid
    exact hheld.trans (h.holder k id hid)
  · intro path hpath
    exact absurd hpath (hcontent path)
  · exact (h.at_process j).frame (fun path => hfiles j path hj) fun _ => Iff.rfl

lemma claim {id entry} (h : Claims gets files L) (hfree : (gets k).held? = none)
    (hstage : L id = .pending) : Claims (Function.update gets k (.claimed id.target))
      ((files.erase id.target).insert id.claim (some entry)) (Function.update L id (.claimed k)) := by
  refine update ⟨?_, ?_, nofun, ?_, ?_⟩ fun j hj => ?_
  · rintro path ⟨⟩
    exact ⟨id, rfl, Function.update_self ..⟩
  · intro id' hid'
    by_cases he : id' = id
    · rw [he]
      rfl
    · rw [Function.update_of_ne he] at hid'
      rw [h.holder k id' hid'] at hfree
      cases hfree
  · rintro path ⟨⟩
    refine ⟨entry, ?_⟩
    rw [withSuffix_target, SortedMap.get?_insert_self]
  · rintro path content (⟨⟨⟩⟩ | ⟨⟨⟩⟩)
  · refine (h.at_process j).frame (fun path hpath => ?_) fun id' => ?_
    · obtain ⟨id', rfl, hid'⟩ := h.held j path (by rw [hpath]; rfl)
      have hne : id'.claim ≠ id.claim := by
        intro e
        rw [← claim_inj.1 e, hid'] at hstage
        cases hstage
      rw [withSuffix_target]
      exact get?_rename (target_ne_claim id id').symm hne files _
    · refine update_eq_iff hstage _ Stage.noConfusion ?_ id'
      exact fun e => hj (Stage.claimed.inj e).symm

lemma release (h : Claims gets files L) (hstage : ∀ id j, L' id = .claimed j ↔ j ≠ k ∧ L id = .claimed j) :
    Claims (Function.update gets k .idle) files L' := by
  refine update ⟨nofun, ?_, nofun, nofun, ?_⟩ fun j hj => ?_
  · intro id hid
    exact absurd rfl ((hstage id k).1 hid).1
  · rintro path content (⟨⟨⟩⟩ | ⟨⟨⟩⟩)
  · exact (h.at_process j).frame (fun _ _ => rfl) fun id => (hstage id j).trans (and_iff_right hj)

end Claims

namespace Items

lemma frame (h : Items files L) (hfiles : ∀ name, visible name → files'.get? name = files.get? name)
    (hstage : ∀ id, L' id = .pending ↔ L id = .pending) : Items files' L' where
  file id hid := by
    rw [hfiles _ id.visible_target]
    exact h.file id ((hstage id).1 hid)
  stage id hid := by
    rw [hfiles _ id.visible_target] at hid
    exact (hstage id).2 (h.stage id hid)
  names name hname hsome := by
    rw [hfiles name hname] at hsome
    exact h.names name hname hsome

lemma set {id stage} (h : Items files L)
    (hother : ∀ name, visible name → name ≠ id.target → files'.get? name = files.get? name)
    (hid : stage = .pending ∧ (∃ entry, files'.get? id.target = some (some entry)) ∨
      stage ≠ .pending ∧ files'.get? id.target = none) : Items files' (update L id stage) where
  file id' hid' := by
    by_cases he : id' = id
    · rw [he, update_self] at hid'
      rw [he]
      exact hid.elim (fun h => h.2) (fun h => absurd hid' h.1)
    · rw [update_of_ne he] at hid'
      rw [hother _ id'.visible_target (fun e => he (target_inj.1 e))]
      exact h.file id' hid'
  stage id' hid' := by
    by_cases he : id' = id
    · rw [he] at hid' ⊢
      rw [update_self]
      cases hid with
      | inl hid => exact hid.1
      | inr hid =>
        rw [hid.2] at hid'
        cases hid'
    · rw [hother _ id'.visible_target (fun e => he (target_inj.1 e))] at hid'
      rw [update_of_ne he]
      exact h.stage id' hid'
  names name hname hsome := by
    by_cases he : name = id.target
    · exact ⟨id, he⟩
    · rw [hother name hname he] at hsome
      exact h.names name hname hsome

end Items

namespace Logged

lemma frame (h : Logged log L) (hpublished : ∀ id, (L' id).isPublished = (L id).isPublished)
    (hdelivered : ∀ id, L' id = .delivered ↔ L id = .delivered)
    (hlost : ∀ id, L' id = .lost ↔ L id = .lost) : Logged log L' where
  completed id := by
    rw [hpublished]
    exact h.completed id
  returned id := by
    rw [h.returned id]
    exact if_congr (hdelivered id).symm rfl rfl
  lost id := by
    rw [hlost]
    exact h.lost id

/-- One item moves between stages that no caller can tell apart. -/
lemma shift {id old stage} (h : Logged log L) (hstage : L id = old)
    (hpublished : stage.isPublished = old.isPublished) (hdelivered : old ≠ .delivered)
    (hdelivered' : stage ≠ .delivered) (hlost : old ≠ .lost) (hlost' : stage ≠ .lost) :
    Logged log (update L id stage) :=
  h.frame (isPublished_update hstage hpublished) (update_eq_iff hstage _ hdelivered hdelivered')
    (update_eq_iff hstage _ hlost hlost')

lemma emit {event} (h : Logged log L)
    (hpublished : ∀ id, (L' id).isPublished ↔ (L id).isPublished ∨ event = .completed id)
    (hdelivered : ∀ id, (if L' id = .delivered then 1 else 0) =
      (if L id = .delivered then 1 else 0) + if event.isReturn id.target then 1 else 0)
    (hlost : ∀ id : ItemId, L' id = .lost ↔ L id = .lost ∨ event = .crashed (some id.target)) :
    Logged (log ++ [event]) L' where
  completed id := by
    rw [mem_append, mem_singleton, h.completed id, hpublished, eq_comm (a := event)]
  returned id := by
    rw [countP_append, countP_singleton, h.returned id, hdelivered]
  lost id := by
    rw [mem_append, mem_singleton, h.lost id, hlost, eq_comm (a := event)]

lemma emit_silent {event} (h : Logged log L) (hcompleted : ∀ id, event ≠ .completed id)
    (hreturn : ∀ path, event.isReturn path = false) (hcrash : ∀ path, event ≠ .crashed (some path)) :
    Logged (log ++ [event]) L := by
  refine h.emit ?_ ?_ ?_
  · intro id
    exact (or_iff_left (hcompleted id)).symm
  · intro id
    rw [hreturn]
    rfl
  · intro id
    exact (or_iff_left (hcrash _)).symm

end Logged

end

end SocioWorkspace.Queue
