import SocioWorkspace.Drive.Converge
import SocioWorkspace.Drive.ReadWrites
import SocioWorkspace.Lib.Gossip

/-!
# Listing the files of many devices

Calls of `put_file` and of `beam` of `automation/continuity.py`, interleaved at single operations of an
honest store. The index is a set that is read, joined and replaced (`Gossip`), so a path that another call
publishes in between is lost unless it is read from somewhere else.
-/

namespace SocioWorkspace.Drive
open Python Holographic Threads Gossip List Value

/-- Python `_INBOX`. -/
def INBOX : String := "/continuity/inbox/"

def DEFAULT_REPLICAS : ℕ := 5

/-- Python `beam`, with the id that `uuid4` gives it. -/
def beam {B : Type} (env : Platform B) (nodes : List String) (toDevice uuid : String) (data : Bytes)
    (writer : String) (placement : Placement) (now : String) : Action B String := do
  let path := INBOX ++ toDevice ++ "/" ++ uuid
  let _ ← putFile env nodes DEFAULT_REPLICAS ⟨path, data, writer, placement, now⟩
  return path

inductive DriveCall where
  | putFile (w : FileWrite)
  | beam (toDevice uuid : String) (data : Bytes) (writer : String) (placement : Placement)
    (now : String)

def DriveCall.write : DriveCall → FileWrite
  | .putFile w => w
  | .beam toDevice uuid data writer placement now =>
    ⟨INBOX ++ toDevice ++ "/" ++ uuid, data, writer, placement, now⟩

def DriveCall.prog {B : Type} (env : Platform B) (nodes : List String) (replicas : ℕ) :
    DriveCall → Action B String
  | .putFile w => do
    let ref ← Drive.putFile env nodes replicas w
    return ref.path
  | .beam toDevice uuid data writer placement now =>
    Drive.beam env nodes toDevice uuid data writer placement now

section
variable {B : Type} (env : Platform B)

def contents (b : B) : Finset Value :=
  match env.json.loads b >>= toSet with
  | .ok S => S
  | .error _ => ∅

lemma contents_listBlob (l : List String) : contents env (listBlob env l) = l.toFinset.image .str := by
  have hset : (env.json.loads (listBlob env l) >>= toSet) = .ok (l.toFinset.image .str) :=
    bind_eq_ok.2 ⟨_, env.json.loads_dumps _, toSet_list_str l⟩
  rw [contents, hset]

lemma str_mem_contents {x} (paths : Finset String) :
    .str x ∈ contents env (listBlob env (paths.sort (· ≤ ·))) ↔ x ∈ paths := by
  rw [contents_listBlob, Finset.sort_toFinset]
  exact str_injective.mem_finset_image

variable {env}

lemma mem_indexUnion {paths all blobs} (h : indexUnion env paths blobs = .ok all) (v : Value) :
    v ∈ all ↔ v ∈ paths ∨ ∃ b ∈ blobs, v ∈ contents env b := by
  induction blobs generalizing paths with
  | nil =>
    obtain rfl := Except.ok.inj h
    simp
  | cons b blobs ih =>
    have hrest : ∃ paths', indexUnion env paths' blobs = .ok all ∧ paths' = paths ∪ contents env b := by
      rw [indexUnion] at h
      rw [contents]
      cases hb : env.json.loads b >>= toSet with
      | ok S =>
        rw [hb] at h
        exact ⟨_, h, rfl⟩
      | error e =>
        rw [hb] at h
        cases e with
        | value | type => exact ⟨_, h, (Finset.union_empty _).symm⟩
        | key | attr | overflow | recursion => cases h
    obtain ⟨paths', h', rfl⟩ := hrest
    rw [ih h', Finset.mem_union, or_assoc, exists_mem_cons_iff]

variable {nodes : List String} {replicas : ℕ}

/-- The reads and the puts of the index by a write that returns. -/
structure IndexOps (env : Platform B) (w : FileWrite) (its : List String)
    (h : List (StoreOp B × Reply B)) (paths : Finset String) : Prop where
  puts : ∀ node b, (∃ r, (.putBlob node (blobKey INDEX) b, r) ∈ h) ↔
    node ∈ its ∧ b = listBlob env (paths.sort (· ≤ ·))
  reads : ∀ x, x ∈ paths ↔ x = w.path ∨
    ∃ node b, (.getBlob node (blobKey INDEX), .blob b) ∈ h ∧ .str x ∈ contents env b
  ordered : ∀ pre e post, h = pre ++ e :: post → ∀ node b, e.1 = .putBlob node (blobKey INDEX) b →
    ∀ e' ∈ post, ∀ m, e'.1 ≠ .getBlob m (blobKey INDEX)

/-- A set that was sorted and has a text in it has nothing but texts. -/
lemma exists_texts {S l s} (h : env.cmp.sorted S = .ok l) (hs : .str s ∈ S) :
    ∃ texts : Finset String, texts.image .str = S ∧ l = (texts.sort (· ≤ ·)).map .str := by
  have hall := env.cmp.sorted_texts S l s h hs
  have himage : (S.image fun v => v.asStr.getD "").image str = S := by
    rw [Finset.image_image]
    refine (Finset.image_congr fun v hv => ?_).trans Finset.image_id
    obtain ⟨t, rfl⟩ := hall v hv
    rfl
  refine ⟨_, himage, ?_⟩
  rw [← himage, env.cmp.sorted_str] at h
  exact (Except.ok.inj h).symm

lemma Reply.toOption_eq_some {r : Reply B} {b} : r.toOption = some b ↔ r = .blob b := by
  cases r <;> simp [Reply.toOption]

variable {h : List (StoreOp B × Reply B)} {ref : NamespaceRef String}

/-- The operations on the index come last: the reads, and then the puts. -/
lemma returns_index_split {w} (hpath : w.path ≠ INDEX)
    (hr : Returns (putFile env nodes replicas w).run h (.ok ref)) :
    ∃ (its : List String) (paths : Finset String) (front iread iput : List (StoreOp B × Reply B)),
      refNodes env INDEX nodes replicas = .ok its ∧
      h = front ++ iread ++ iput ∧ (∀ e ∈ front, e.1.key? ≠ some (blobKey INDEX)) ∧
      iread.map Prod.fst = its.map (.getBlob · (blobKey INDEX)) ∧
      iput.map Prod.fst = its.map (.putBlob · (blobKey INDEX) (listBlob env (paths.sort (· ≤ ·)))) ∧
      ∀ x, x ∈ paths ↔ x = w.path ∨
        ∃ b ∈ iread.filterMap (fun e => e.2.toOption), .str x ∈ contents env b := by
  obtain ⟨hother, hread, hput, hindex, ts, rfl, hkeys, -, hreads, -, hputs, hadd⟩ := returns_putFile hr
  obtain ⟨its, iread, iput, all, listing, rfl, hits, hireads, hunion, hsorted, hiputs⟩ :=
    returns_indexAdd hadd
  obtain ⟨paths, himage, rfl⟩ := exists_texts hsorted (Finset.mem_insert_self _ _)
  have hne : ¬some (blobKey w.path) = some (blobKey INDEX) := fun h => hpath (blobKey_inj (Option.some.inj h))
  refine ⟨its, paths, hother ++ (hread ++ hput), iread, iput, hits, by simp, ?_, hireads, hiputs, ?_⟩
  · rw [forall_mem_append, forall_mem_append]
    exact ⟨fun e he => hkeys e he INDEX, key_of_map hreads fun _ => hne, key_of_map hputs fun _ => hne⟩
  · intro x
    have hmem : x ∈ paths ↔ str x ∈ insert (str w.path) all := by
      rw [← himage]
      exact str_injective.mem_finset_image.symm
    rw [hmem, Finset.mem_insert, mem_indexUnion hunion]
    refine or_congr ⟨str_inj, congrArg _⟩ (or_iff_right ?_)
    exact Finset.notMem_empty _

/-- What a write that returns reads and publishes of the index. -/
theorem returns_index {w : FileWrite}
    (hpath : w.path ≠ INDEX) (hr : Returns (putFile env nodes replicas w).run h (.ok ref)) :
    ∃ its paths, refNodes env INDEX nodes replicas = .ok its ∧ IndexOps env w its h paths := by
  obtain ⟨its, paths, front, iread, iput, hits, rfl, hfront, hireads, hiputs, hpaths⟩ :=
    returns_index_split hpath hr
  have hgets : ∀ e ∈ iread, ∃ node, e.1 = .getBlob node (blobKey INDEX) := by
    intro e he
    have hop := mem_map_of_mem (f := Prod.fst) he
    rw [hireads] at hop
    obtain ⟨node, -, hnode⟩ := mem_map.1 hop
    exact ⟨node, hnode.symm⟩
  have hnoput : ∀ e ∈ front ++ iread, ∀ node b, e.1 ≠ .putBlob node (blobKey INDEX) b := by
    intro e he node b hop
    cases mem_append.1 he with
    | inl he => exact hfront e he (by rw [hop]; rfl)
    | inr he =>
      obtain ⟨m, hm⟩ := hgets e he
      rw [hm] at hop
      cases hop
  have hnoget : ∀ e ∈ iput, ∀ m, e.1 ≠ .getBlob m (blobKey INDEX) := by
    intro e he m hop
    have hmem := mem_map_of_mem (f := Prod.fst) he
    rw [hiputs] at hmem
    obtain ⟨node, -, hnode⟩ := mem_map.1 hmem
    rw [← hnode] at hop
    cases hop
  refine ⟨its, paths, hits, ?_, ?_, ?_⟩
  · intro node b
    refine Iff.trans (exists_congr fun r => ?_) (mem_putBlobs hiputs)
    rw [mem_append]
    exact or_iff_right fun hmem => hnoput _ hmem node b rfl
  · intro x
    refine (hpaths x).trans (or_congr_right ?_)
    constructor
    · rintro ⟨b, hb, hx⟩
      obtain ⟨⟨op, reply⟩, he, hreply⟩ := mem_filterMap.1 hb
      obtain ⟨node, rfl⟩ := hgets _ he
      obtain rfl := Reply.toOption_eq_some.1 hreply
      exact ⟨node, b, by simp [he], hx⟩
    · rintro ⟨node, b, he, hx⟩
      refine ⟨b, mem_filterMap.2 ⟨(.getBlob node (blobKey INDEX), .blob b), ?_, rfl⟩, hx⟩
      rcases mem_append.1 he with he | he
      · exact (mem_append.1 he).resolve_left fun he => hfront _ he rfl
      · exact absurd rfl (hnoget _ he node)
  · -- a put is in the last part, and so is all that comes after it
    intro pre e post hpre node b he e' he' m
    rcases append_eq_append_iff.1 hpre with ⟨mid, rfl, hmid⟩ | ⟨mid, hmid', hmid⟩
    · exact hnoget e' (by simp [hmid, he']) m
    · cases mid with
      | nil =>
        obtain rfl : e :: post = iput := hmid
        exact hnoget e' (mem_cons_of_mem _ he') m
      | cons c mid =>
        obtain ⟨rfl, -⟩ := List.cons.inj hmid
        exact absurd he (hnoput _ (by simp [hmid']) node b)

lemma returns_driveCall {call : DriveCall} {p}
    (hbeam : ∀ d u x wr pl t, call = .beam d u x wr pl t → replicas = DEFAULT_REPLICAS)
    (hr : Returns (call.prog env nodes replicas).run h (.ok p)) :
    ∃ ref, Returns (putFile env nodes replicas call.write).run h (.ok ref) := by
  cases call with
  | putFile w =>
    obtain ⟨h₁, h₂, ref, rfl, hput, hret⟩ := returns_bind_ok_iff.1 hr
    obtain ⟨rfl, -⟩ := returns_ret_iff.1 hret
    rw [append_nil]
    exact ⟨ref, hput⟩
  | beam d u x wr pl t =>
    obtain rfl := hbeam d u x wr pl t rfl
    obtain ⟨h₁, h₂, ref, rfl, hput, hret⟩ := returns_bind_ok_iff.1 hr
    obtain ⟨rfl, -⟩ := returns_ret_iff.1 hret
    rw [append_nil]
    exact ⟨ref, hput⟩

end

def indexAccess (ι B : Type) : Access ι String (ι × StoreOp B × Reply B) where
  read e :=
    match e.2.1 with
    | .getBlob n k => if k = blobKey INDEX then some (e.1, n) else none
    | _ => none
  write e :=
    match e.2.1 with
    | .putBlob n k _ => if k = blobKey INDEX then some (e.1, n) else none
    | _ => none

section
variable {ι B : Type} {e : ι × StoreOp B × Reply B}

lemma read_eq_some {i n} :
    (indexAccess ι B).read e = some (i, n) ↔ e.1 = i ∧ e.2.1 = .getBlob n (blobKey INDEX) := by
  obtain ⟨j, op, r⟩ := e
  cases op with
  | put m k b | putBlob m k b => exact iff_of_false nofun nofun
  | getBlob m k =>
    show (if k = blobKey INDEX then some (j, m) else none) = some (i, n) ↔ _
    by_cases hk : k = blobKey INDEX
    · simp [hk]
    · simp [hk]

lemma write_eq_some {i n} :
    (indexAccess ι B).write e = some (i, n) ↔
      e.1 = i ∧ ∃ b, e.2.1 = .putBlob n (blobKey INDEX) b := by
  obtain ⟨j, op, r⟩ := e
  cases op with
  | put m k b | getBlob m k => exact iff_of_false nofun fun h => by obtain ⟨-, b, hb⟩ := h; cases hb
  | putBlob m k b =>
    show (if k = blobKey INDEX then some (j, m) else none) = some (i, n) ↔ _
    by_cases hk : k = blobKey INDEX
    · simp [hk]
    · simp [hk]

lemma holder_eq (n : String) (tr : List (ι × StoreOp B × Reply B)) :
    holder (indexAccess ι B) n tr = (lastWrite (blobKey INDEX) n tr).map Prod.fst := by
  rw [holder, lastWrite, ← getLast?_map, map_filterMap]
  refine congrArg List.getLast? (filterMap_congr fun e _ => ?_)
  obtain ⟨j, op, r⟩ := e
  cases op with
  | put m k b => rfl
  | getBlob m k => rfl
  | putBlob m k b =>
    show ((if k = blobKey INDEX then some (j, m) else none).bind fun p =>
      if p.2 = n then some p.1 else none) =
        (if m = n ∧ k = blobKey INDEX then some (j, b) else none).map Prod.fst
    by_cases hk : k = blobKey INDEX
    · by_cases hm : m = n
      · simp [hk, hm]
      · simp [hk, hm]
    · simp [hk]

end

section
variable {ι σ B : Type} [DecidableEq ι]

def drivePool (env : Platform B) (nodes : List String) (replicas : ℕ) (calls : ι → DriveCall)
    (s : σ) : Pool ι (StoreOp B) (Reply B) σ (Except DriveError String) :=
  ⟨fun i => ((calls i).prog env nodes replicas).run, s⟩

def initialPaths (env : Platform B) (store : MeshStore σ B) (s : σ) (node : String) : Set String :=
  {x | ∃ b, store.getBlob s node (blobKey INDEX) = .blob b ∧ .str x ∈ contents env b}

/-- All calls have returned, and none is about the reserved name. -/
structure Finished (env : Platform B) (store : MeshStore σ B) (nodes : List String) (replicas : ℕ)
    (calls : ι → DriveCall) (s : σ) (sched : List ι) : Prop where
  reserved : ∀ i, (calls i).write.path ≠ INDEX
  beams : ∀ i d u x wr pl t, calls i = .beam d u x wr pl t → replicas = DEFAULT_REPLICAS
  returned : ∀ i, ∃ p, (exec store.step sched (drivePool env nodes replicas calls s)).threads i = .ret (.ok p)

variable {env : Platform B} {store : MeshStore σ B} {nodes its : List String} {replicas : ℕ}
  {calls : ι → DriveCall} {s : σ} {sched : List ι}

lemma Finished.indexOps (hfin : Finished env store nodes replicas calls s sched)
    (hits : refNodes env INDEX nodes replicas = .ok its) (i : ι) :
    ∃ paths, IndexOps env (calls i).write its
      (part i (trace store.step sched (drivePool env nodes replicas calls s))) paths := by
  obtain ⟨p, hp⟩ := hfin.returned i
  obtain ⟨ref, href⟩ := returns_driveCall (hfin.beams i) (returns_part store.step hp)
  obtain ⟨its', paths, hits', hops⟩ := returns_index (hfin.reserved i) href
  obtain rfl := Except.ok.inj (hits.symm.trans hits')
  exact ⟨paths, hops⟩

section
variable {paths : ι → Finset String}
  (hops : ∀ i, IndexOps env (calls i).write its
    (part i (trace store.step sched (drivePool env nodes replicas calls s))) (paths i))
include hops

lemma answer_iff {pre post j n r}
    (htr : trace store.step sched (drivePool env nodes replicas calls s) =
      pre ++ (j, .getBlob n (blobKey INDEX), r) :: post) (x : String) :
    (∃ b, r = .blob b ∧ .str x ∈ contents env b) ↔
      x ∈ content (indexAccess ι B) (initialPaths env store s) (fun i => (paths i : Set String)) n
        pre := by
  obtain rfl : r = store.getBlob (replay store.step s pre) n (blobKey INDEX) := answer_eq store.step htr
  rw [getBlob_replay, content, holder_eq]
  cases hlast : lastWrite (blobKey INDEX) n pre with
  | none => rfl
  | some p =>
    -- the blob on the replica is the one that its last writer has published
    obtain ⟨w, b⟩ := p
    obtain ⟨r, hput⟩ := mem_of_lastWrite hlast
    have hmem : (w, .putBlob n (blobKey INDEX) b, r) ∈
        trace store.step sched (drivePool env nodes replicas calls s) := by
      rw [htr]
      exact mem_append_left _ hput
    obtain ⟨-, rfl⟩ := ((hops w).puts n b).1 ⟨r, mem_part.2 hmem⟩
    constructor
    · rintro ⟨b, hb, hx⟩
      obtain rfl := Reply.blob.inj hb
      exact (str_mem_contents env _).1 hx
    · exact fun hx => ⟨_, rfl, (str_mem_contents env _).2 hx⟩

/-- The index of a pool of calls is read, joined and replaced. -/
theorem joins_index :
    Joins (indexAccess ι B) (trace store.step sched (drivePool env nodes replicas calls s))
      (fun i => {(calls i).write.path}) (initialPaths env store s)
      (fun i => (paths i : Set String)) where
  ordered pre e post htr j n hw e' he' m hr := by
    obtain ⟨rfl, b, hb⟩ := write_eq_some.1 hw
    obtain ⟨hj, hget⟩ := read_eq_some.1 hr
    have hpart : part e.1 (trace store.step sched (drivePool env nodes replicas calls s)) =
        part e.1 pre ++ e.2 :: part e.1 post := by
      rw [htr, part_append, part_cons, if_pos rfl]
      rfl
    refine (hops e.1).ordered _ _ _ hpart n b hb e'.2 (mem_part.2 ?_) m hget
    rw [← hj]
    exact he'
  join j x := by
    refine ((hops j).reads x).trans (or_congr Set.mem_singleton_iff.symm ?_)
    constructor
    · rintro ⟨n, b, hmem, hx⟩
      obtain ⟨pre, post, htr⟩ := append_of_mem (mem_part.1 hmem)
      exact ⟨pre, _, post, n, htr, read_eq_some.2 ⟨rfl, rfl⟩, (answer_iff hops htr x).1 ⟨b, rfl, hx⟩⟩
    · rintro ⟨pre, ⟨j', op, r⟩, post, n, htr, hread, hx⟩
      obtain ⟨rfl, rfl⟩ := read_eq_some.1 hread
      obtain ⟨b, rfl, hb⟩ := (answer_iff hops htr x).2 hx
      exact ⟨n, b, mem_part.2 (htr ▸ by simp), hb⟩

lemma getBlob_index [Nonempty ι] {node} (hnode : node ∈ its) :
    ∃ w, Gossip.holder (indexAccess ι B) node
        (trace store.step sched (drivePool env nodes replicas calls s)) = some w ∧
      store.getBlob (exec store.step sched (drivePool env nodes replicas calls s)).state node
        (blobKey INDEX) = .blob (listBlob env ((paths w).sort (· ≤ ·))) := by
  obtain ⟨i⟩ := ‹Nonempty ι›
  obtain ⟨r, hput⟩ := ((hops i).puts node _).2 ⟨hnode, rfl⟩
  obtain ⟨⟨w, b⟩, hlast⟩ := lastWrite_ne_none (mem_part.1 hput)
  obtain ⟨r', hmem⟩ := mem_of_lastWrite hlast
  obtain ⟨-, rfl⟩ := ((hops w).puts node b).1 ⟨r', mem_part.2 hmem⟩
  refine ⟨w, ?_, ?_⟩
  · rw [holder_eq, hlast]
    rfl
  · rw [exec_state, getBlob_replay]
    show Option.elim (lastWrite (blobKey INDEX) node
      (trace store.step sched (drivePool env nodes replicas calls s))) _ _ = _
    rw [hlast]
    rfl

lemma listFiles_eq [Nonempty ι] (hits : refNodes env INDEX nodes replicas = .ok its) :
    ∃ listing : Finset String, listFiles env nodes replicas
        (store.getBlob (exec store.step sched (drivePool env nodes replicas calls s)).state) none =
          .ok ((listing.sort (· ≤ ·)).map .str) ∧
      ∀ x, x ∈ listing ↔ ∃ node ∈ its, x ∈ content (indexAccess ι B) (initialPaths env store s)
        (fun i => (paths i : Set String)) node
        (trace store.step sched (drivePool env nodes replicas calls s)) := by
  choose! w hholder hget using fun node (h : node ∈ its) => getBlob_index hops h
  have hanswers : answers
      (store.getBlob (exec store.step sched (drivePool env nodes replicas calls s)).state ·
        (blobKey INDEX)) none its =
      (its.map fun node => (paths (w node)).sort (· ≤ ·)).map (listBlob env) := by
    rw [answers_map hget, map_map]
    rfl
  have hunion := indexUnion_texts env ∅ (its.map fun node => (paths (w node)).sort (· ≤ ·))
  rw [Finset.image_empty, Finset.empty_union] at hunion
  refine ⟨(its.map fun node => (paths (w node)).sort (· ≤ ·)).flatten.toFinset, ?_, fun x => ?_⟩
  · refine listFiles_eq_ok hits ?_
    rw [hanswers, hunion]
  · rw [mem_toFinset, ← flatMap_def, mem_flatMap]
    refine exists_congr fun node => and_congr_right fun hnode => ?_
    rw [Finset.mem_sort, content, hholder node hnode]
    rfl

end

/-- All paths are listed just when each was listed before, or a call that put it is known, through reads of
the index, to the last writer of some replica of the index. -/
theorem listed_iff (hfin : Finished env store nodes replicas calls s sched)
    (hits : refNodes env INDEX nodes replicas = .ok its) :
    (∀ i, ∃ listing, listFiles env nodes replicas
        (store.getBlob (exec store.step sched (drivePool env nodes replicas calls s)).state) none =
          .ok listing ∧ .str (calls i).write.path ∈ listing) ↔
      ∀ i, ∃ node ∈ its, ∃ w, Gossip.holder (indexAccess ι B) node
          (trace store.step sched (drivePool env nodes replicas calls s)) = some w ∧
        Knows (indexAccess ι B) (trace store.step sched (drivePool env nodes replicas calls s))
          (fun i => {(calls i).write.path}) (initialPaths env store s) w (calls i).write.path := by
  choose paths hops using hfin.indexOps hits
  refine forall_congr' fun i => ?_
  have : Nonempty ι := ⟨i⟩
  have hjoins := joins_index hops
  obtain ⟨listing, hlisting, hmem⟩ := listFiles_eq hops hits
  have hstr : str (calls i).write.path ∈ (listing.sort (· ≤ ·)).map str ↔
      (calls i).write.path ∈ listing := by
    rw [mem_map_of_injective str_injective, Finset.mem_sort]
  constructor
  · rintro ⟨l, hl, hx⟩
    obtain rfl := Except.ok.inj (hlisting.symm.trans hl)
    obtain ⟨node, hnode, hx⟩ := (hmem _).1 (hstr.1 hx)
    obtain ⟨w, hw, -⟩ := getBlob_index hops hnode
    exact ⟨node, hnode, w, hw, (hjoins.mem_content_iff hw).1 hx⟩
  · rintro ⟨node, hnode, w, hw, hknows⟩
    refine ⟨_, hlisting, hstr.2 ((hmem _).2 ⟨node, hnode, ?_⟩)⟩
    exact (hjoins.mem_content_iff hw).2 hknows

end

def twoFiles : Bool → FileWrite
  | false => ⟨"/a", [⟨0x61⟩], "laptop", ⟨1, 0, 1⟩, "2026-01-01T00:00:00+00:00"⟩
  | true => ⟨"/b", [⟨0x62⟩], "phone", ⟨1, 0, 1⟩, "2026-01-01T00:00:00+00:00"⟩

section
variable {σ B : Type} (env : Platform B) (nodes : List String) (replicas : ℕ)

def readIndex (w : FileWrite) : Action B (NamespaceRef String × List B) := do
  let ref ← putRef env nodes replicas w
  let blobs ← askAll env nodes replicas INDEX
  return (ref, blobs)

lemma prog_putFile (w : FileWrite) :
    (DriveCall.putFile w).prog env nodes replicas = (do
      let p ← readIndex env nodes replicas w
      indexPublish env nodes replicas w.path p.2
      return p.1.path) := by
  simp only [DriveCall.prog, putFile, indexAdd, readIndex, bind_assoc, pure_bind]

variable {env nodes replicas} {store : MeshStore σ B}

/-- A write reads an empty index, and leaves it and all other refs as they are. -/
lemma run_readIndex {w} (hreplicas : 1 ≤ replicas ∧ replicas ≤ nodes.length)
    (haccepted : Accepted nodes w.placement) (hpath : w.path ≠ INDEX) {s}
    (href : ∀ node, store.getBlob s node (blobKey w.path) = .nothing)
    (hindex : ∀ node, store.getBlob s node (blobKey INDEX) = .nothing) :
    ∃ ref s', run store.step (readIndex env nodes replicas w).run s = (.ok (ref, []), s') ∧
      ref.path = w.path ∧ ∀ name, name ≠ w.path →
        (store.getBlob s' · (blobKey name)) = (store.getBlob s · (blobKey name)) := by
  have hwinner : winner env w.path none (answers (store.getBlob s · (blobKey w.path)) none
      (replicaNodes env nodes replicas w.path)) = .ok none := by
    rw [answers_nothing fun node _ => href node]
    rfl
  have hput := run_putRef store hreplicas haccepted hwinner
  have hframe : ∀ name, name ≠ w.path →
      (store.getBlob (run store.step (putRef env nodes replicas w).run s).2 · (blobKey name)) =
        (store.getBlob s · (blobKey name)) := by
    intro name hname
    rw [hput, getBlob_publishTo_of_ne hname, getBlob_storeContent]
  have hask := @run_askAll _ _ env store _ _ hreplicas INDEX
    (run store.step (putRef env nodes replicas w).run s).2
  rw [hframe INDEX hpath.symm, answers_nothing fun node _ => hindex node] at hask
  refine ⟨nextRef w (merkleRoot env.sha256Hex w.data) none,
    (run store.step (putRef env nodes replicas w).run s).2, ?_, rfl, hframe⟩
  rw [hput] at hask ⊢
  rw [readIndex, run_bind_ok hput]
  exact (run_bind_ok hask).trans rfl

/-- A write that has read an empty index publishes its path alone. -/
lemma run_publishPath {ref : NamespaceRef String} {path}
    (hreplicas : 1 ≤ replicas ∧ replicas ≤ nodes.length) (href : ref.path = path) (s : σ) :
    run store.step (do
        indexPublish env nodes replicas path []
        return ref.path : Action B String).run s =
      (.ok path, publishTo env store nodes replicas s INDEX
        (listBlob env (Finset.sort {path} (· ≤ ·)))) := by
  have hunion : indexUnion env ∅ [] = .ok ((∅ : Finset String).image .str) := rfl
  rw [run_bind_ok (run_indexPublish store hreplicas hunion s), href]
  rfl

/-- Two writes that read the index before either of them publishes it: one of them is lost. -/
theorem exists_lost_write {calls : Bool → FileWrite}
    (hreplicas : 1 ≤ replicas ∧ replicas ≤ nodes.length)
    (haccepted : ∀ i, Accepted nodes (calls i).placement) (hpaths : ∀ i, (calls i).path ≠ INDEX)
    (hne : (calls false).path ≠ (calls true).path) {s : σ}
    (hfresh : ∀ node key, store.getBlob s node key = .nothing) :
    ∃ sched, (∀ i, (exec store.step sched
        (drivePool env nodes replicas (fun i => .putFile (calls i)) s)).threads i =
          .ret (.ok (calls i).path)) ∧
      listFiles env nodes replicas (store.getBlob (exec store.step sched
        (drivePool env nodes replicas (fun i => .putFile (calls i)) s)).state) none =
          .ok [.str (calls true).path] := by
  obtain ⟨ref₀, s₁, hread₀, href₀, hframe⟩ := @run_readIndex _ _ env _ _ store _ hreplicas
    (haccepted false) (hpaths false) s (fun node => hfresh node _) fun node => hfresh node _
  obtain ⟨ref₁, s₂, hread₁, href₁, -⟩ := @run_readIndex _ _ env _ _ store _ hreplicas
    (haccepted true) (hpaths true) s₁
    (fun node => (congrFun (hframe _ hne.symm) node).trans (hfresh node _))
    fun node => (congrFun (hframe _ (hpaths false).symm) node).trans (hfresh node _)
  -- each call publishes its own path alone, and the second one replaces what the first has published
  obtain ⟨sched, hsched⟩ := exec_race (p := fun i => (readIndex env nodes replicas (calls i)).run)
    (a := fun i => .ok (cond i ref₁ ref₀, [])) (r := fun i => .ok (calls i).path)
    (f := fun i => ExceptT.bindCont fun p => do
      indexPublish env nodes replicas (calls i).path p.2
      return p.1.path)
    hread₀ hread₁ (run_publishPath hreplicas href₀ s₂) (run_publishPath hreplicas href₁ _)
  have hend : ∃ s', exec store.step sched
      (drivePool env nodes replicas (fun i => .putFile (calls i)) s) =
        ⟨fun i => .ret (.ok (calls i).path), publishTo env store nodes replicas s' INDEX
          (listBlob env (Finset.sort {(calls true).path} (· ≤ ·)))⟩ := by
    simp only [drivePool, prog_putFile]
    exact ⟨_, hsched⟩
  obtain ⟨s', hend⟩ := hend
  refine ⟨sched, fun i => by rw [hend], ?_⟩
  obtain ⟨n, hanswers⟩ := @answers_publishTo _ _ env store _ _ hreplicas s' INDEX
    (listBlob env (Finset.sort {(calls true).path} (· ≤ ·)))
  have hlisting := listFiles_eq_ok (@rendezvous_replicaNodes _ env _ _ hreplicas INDEX)
    ((congrArg (indexUnion env ∅) hanswers).trans (indexUnion_replicate _ n))
  rw [hend]
  exact hlisting.trans (by rw [Finset.sort_singleton]; rfl)

end

/-- Two calls that both read the index before one of them publishes: the last writer of the index does not know
the path of the other call. -/
theorem listed_iff_raced : ∃ sched its, refNodes textPlatform INDEX ["a", "b"] 2 = .ok its ∧
    ¬∀ i, ∃ node ∈ its, ∃ w, Gossip.holder (indexAccess Bool ByteArray) node
        (trace (inMemoryMesh ByteArray).step sched
          (drivePool textPlatform ["a", "b"] 2 (fun i => .putFile (twoFiles i)) ([], []))) = some w ∧
      Knows (indexAccess Bool ByteArray) (trace (inMemoryMesh ByteArray).step sched
          (drivePool textPlatform ["a", "b"] 2 (fun i => .putFile (twoFiles i)) ([], [])))
        (fun i => {(twoFiles i).path}) (initialPaths textPlatform (inMemoryMesh ByteArray) ([], [])) w
        (twoFiles i).path := by
  obtain ⟨sched, hreturned, hlisting⟩ := @exists_lost_write _ _ textPlatform ["a", "b"] 2
    (inMemoryMesh ByteArray) twoFiles (by decide) (by decide) (by decide) (by decide) ([], []) fun _ _ => rfl
  have hfin : Finished textPlatform (inMemoryMesh ByteArray) ["a", "b"] 2 (fun i => .putFile (twoFiles i))
      ([], []) sched := ⟨by decide, nofun, fun i => ⟨_, hreturned i⟩⟩
  have hits := @rendezvous_replicaNodes _ textPlatform ["a", "b"] 2 (by decide) INDEX
  refine ⟨sched, _, hits, fun h => ?_⟩
  obtain ⟨listing, hlist, hmem⟩ := (listed_iff hfin hits).2 h false
  rw [hlisting] at hlist
  cases hlist
  exact absurd hmem (by decide)

/-- Both writes return, and only one of the paths is listed. -/
theorem concurrent_path_lost :
    ∃ sched, (∀ i, (exec (inMemoryMesh ByteArray).step sched
        (drivePool textPlatform ["a", "b"] 2 (fun i => .putFile (twoFiles i)) ([], []))).threads i =
          .ret (.ok (twoFiles i).path)) ∧
      listFiles textPlatform ["a", "b"] 2 ((inMemoryMesh ByteArray).getBlob
        (exec (inMemoryMesh ByteArray).step sched (drivePool textPlatform ["a", "b"] 2
          (fun i => .putFile (twoFiles i)) ([], []))).state) none = .ok [.str "/b"] :=
  exists_lost_write (by decide) (by decide) (by decide) (by decide) fun _ _ => rfl

end SocioWorkspace.Drive
