import SocioWorkspace.Drive.Resolve
import SocioWorkspace.Holographic.Seizure
import SocioWorkspace.Lib.Threads

/-!
# Files on the mesh

Model of `put_file`, `get_file` and `list_files` of `automation/mesh_sync.py` with the publishing side
of `automation/mesh_namespace.py` and `automation/manifest_store.py`. A write is a program of single
operations of the store, so that writes can be interleaved. A read sees the store as it is.
-/

namespace SocioWorkspace.Drive
open Python Holographic Threads List

inductive StoreOp (B : Type) where
  | put (node key : String) (b : Bytes)
  | putBlob (node key : String) (b : B)
  | getBlob (node key : String)

def StoreOp.key? {B : Type} : StoreOp B → Option String
  | .put _ _ _ => none
  | .putBlob _ key _ => some key
  | .getBlob _ key => some key

abbrev Action (B α : Type) := ExceptT DriveError (Prog (StoreOp B) (Reply B)) α

def emit {B : Type} : List (StoreOp B) → Prog (StoreOp B) (Reply B) Unit
  | [] => .ret ()
  | op :: ops => .call op fun _ => emit ops

def ask {B : Type} (key : String) : List String → Prog (StoreOp B) (Reply B) (List B)
  | [] => .ret []
  | node :: targets => .call (.getBlob node key) fun reply =>
    (ask key targets).bind fun blobs => .ret (reply.toOption.toList ++ blobs)

/-- The arguments of `put_file` that change from call to call, and the time of the call. -/
structure FileWrite where
  path : String
  data : Bytes
  writer : String
  placement : Placement
  now : String

/-- Python `_INDEX`. -/
def INDEX : String := "__index__"

def logPut {B : Type} (log : List (StoreOp B)) (node key : String) (b : Bytes) : List (StoreOp B) :=
  log ++ [.put node key b]

section
variable {B : Type} (env : Platform B) (nodes : List String) (replicas : ℕ)

/-- Python `publish_blob`. -/
def publishBlob (name : String) (blob : B) : Action B (List String) := do
  let targets ← attempt (refNodes env name nodes replicas)
  perform (emit (targets.map fun node => .putBlob node (blobKey name) blob))
  return targets

/-- Python `publish_ref`. -/
def publishRef (ref : NamespaceRef String) : Action B (List String) :=
  publishBlob env nodes replicas ref.path (ref.toBytes env)

/-- Python `publish_manifest`. -/
def publishManifest (m : PropagationManifest) : Action B (List String) := do
  let targets ← attempt (manifestNodes env m.root nodes replicas)
  perform (emit (targets.map fun node => .putBlob node (manifestKey m.root) (serialize env m)))
  return targets

/-- Python `read_all` with all nodes reachable, as operations of the store. -/
def askAll (name : String) : Action B (List B) := do
  let targets ← attempt (refNodes env name nodes replicas)
  perform (ask (blobKey name) targets)

/-- The loop of `_index_read`: a blob that is no collection of paths is passed over. -/
def indexUnion : Finset Value → List B → Except PyError (Finset Value)
  | paths, [] => .ok paths
  | paths, b :: blobs =>
    match env.json.loads b >>= toSet with
    | .error .value => indexUnion paths blobs
    | .error .type => indexUnion paths blobs
    | .error e => .error e
    | .ok more => indexUnion (paths ∪ more) blobs

/-- The second half of `_index_add`: the paths of some blobs and another one are published. -/
def indexPublish (path : String) (blobs : List B) : Action B Unit := do
  let paths ← attempt ((indexUnion env ∅ blobs).mapError .python)
  let listing ← attempt ((env.cmp.sorted (insert (.str path) paths)).mapError .python)
  let _ ← publishBlob env nodes replicas INDEX (env.json.dumps (.list listing))
  return ()

/-- Python `_index_add`. -/
def indexAdd (path : String) : Action B Unit := do
  let blobs ← askAll env nodes replicas INDEX
  indexPublish env nodes replicas path blobs

def nextRef (w : FileWrite) (root : String) (cur : Option (NamespaceRef Value)) :
    NamespaceRef String :=
  ⟨w.path, root, cur.elim 1 fun r => r.version + 1, w.now, w.writer⟩

def putRef (w : FileWrite) : Action B (NamespaceRef String) := do
  let (m, puts) ← attempt ((propagate env.sha256Hex logPut w.data nodes w.placement "runtime"
    []).mapError .propagate)
  perform (emit puts)
  let _ ← publishManifest env nodes replicas m
  let blobs ← askAll env nodes replicas w.path
  let cur ← attempt ((winner env w.path none blobs).mapError .python)
  let ref := nextRef w m.root cur
  let _ ← publishRef env nodes replicas ref
  return ref

/-- Python `put_file`. -/
def putFile (w : FileWrite) : Action B (NamespaceRef String) := do
  let ref ← putRef env nodes replicas w
  indexAdd env nodes replicas w.path
  return ref

/-- A stored manifest whose fields are of the published types. -/
def typed (m : StoredManifest) : Option PropagationManifest := do
  let root ← m.root.asStr
  let k ← m.k.toNat?
  let n ← m.n.toNat?
  let origLen ← m.origLen.toNat?
  let tier ← m.tier.asStr
  let count ← m.replicas.toNat?
  let fragmentNodes ← m.fragmentNodes.members.mapM fun p => do
    let x ← p.1.toNat?
    let nl ← p.2.mapM Value.asStr
    return (x, nl)
  return ⟨root, k, n, origLen, tier, count, fragmentNodes⟩

/-- Python `get_file`. A root that is no text raises in `_weight`. -/
def getFile (get : String → String → Answer) (getBlob : String → String → Reply B)
    (reachable : Option (List String)) (path : String) :
    Except DriveError (Bytes × NamespaceRef Value) := do
  match ← resolveRef env getBlob reachable path nodes replicas with
  | none => throw (.fileNotFound path)
  | some ref =>
    match ref.root.asStr with
    | none => throw (.python .type)
    | some root =>
      let m ← resolveManifest env getBlob reachable root nodes replicas
      match typed m with
      | none => throw .untyped
      | some m =>
        let data ← (fetch env.sha256Hex get reachable MAX_ATTEMPTS m).mapError .fetch
        return (data, ref)

/-- Python `list_files`. -/
def listFiles (getBlob : String → String → Reply B) (reachable : Option (List String)) :
    Except DriveError (List Value) := do
  let blobs ← readAll env getBlob reachable INDEX nodes replicas
  let paths ← (indexUnion env ∅ blobs).mapError .python
  (env.cmp.sorted paths).mapError .python

lemma typed_stored {m}
    (hsorted : (m.fragmentNodes.map Prod.fst).Pairwise (· < ·)) : typed (stored m) = some m := by
  have hmembers : (stored m).fragmentNodes.members =
      m.fragmentNodes.map fun p => ((p.1 : ℤ), p.2.map Value.str) := by
    apply SortedMap.members_ofList_of_sorted
    rw [map_map]
    refine pairwise_map.2 ((pairwise_map.1 hsorted).imp fun h => ?_)
    exact Int.ofNat_lt.2 h
  have hnodes : ∀ p : ℕ × List String, (do
      let x ← ((p.1 : ℤ), p.2.map Value.str).1.toNat?
      let nl ← ((p.1 : ℤ), p.2.map Value.str).2.mapM Value.asStr
      return (x, nl) : Option (ℕ × List String)) = some p := by
    intro p
    rw [mapM_map_eq_some Value.asStr_str]
    rfl
  rw [typed, hmembers, mapM_map_eq_some hnodes]
  rfl

def listBlob (paths : List String) : B := env.json.dumps (.list (paths.map .str))

lemma indexUnion_texts (paths : Finset String) (lists : List (List String)) :
    indexUnion env (paths.image .str) (lists.map (listBlob env)) =
      .ok ((paths ∪ lists.flatten.toFinset).image .str) := by
  induction lists generalizing paths with
  | nil => simp [indexUnion]
  | cons l lists ih =>
    have hset : (env.json.loads (listBlob env l) >>= toSet) = .ok (l.toFinset.image .str) :=
      bind_eq_ok.2 ⟨_, env.json.loads_dumps _, toSet_list_str l⟩
    rw [map_cons, indexUnion, hset]
    show indexUnion env (paths.image .str ∪ l.toFinset.image .str) (lists.map (listBlob env)) = _
    rw [← Finset.image_union, ih, flatten_cons, toFinset_append, Finset.union_assoc]

lemma listFiles_eq_ok {env} {nodes its : List String} {replicas : ℕ}
    {getBlob : String → String → Reply B} {reachable : Option (List String)} {paths : Finset String}
    (hits : refNodes env INDEX nodes replicas = .ok its)
    (hunion : indexUnion env ∅ (answers (getBlob · (blobKey INDEX)) reachable its) = .ok (paths.image .str)) :
    listFiles env nodes replicas getBlob reachable = .ok ((paths.sort (· ≤ ·)).map .str) := by
  refine bind_eq_ok.2 ⟨_, bind_eq_ok.2 ⟨_, hits, rfl⟩, ?_⟩
  refine bind_eq_ok.2 ⟨_, mapError_eq_ok.2 hunion, ?_⟩
  exact mapError_eq_ok.2 (env.cmp.sorted_str _)

end

structure MeshStore (σ B : Type) extends HonestStore σ where
  putBlob : σ → String → String → B → σ
  getBlob : σ → String → String → Reply B
  getBlob_putBlob : ∀ s node key b node' key', getBlob (putBlob s node key b) node' key' =
    if node' = node ∧ key' = key then .blob b else getBlob s node' key'
  getBlob_put : ∀ s node key b, getBlob (put s node key b) = getBlob s
  get_putBlob : ∀ s node key b, get (putBlob s node key b) = get s

def MeshStore.step {σ B : Type} (store : MeshStore σ B) (s : σ) : StoreOp B → Reply B × σ
  | .put node key b => (.nothing, store.put s node key b)
  | .putBlob node key b => (.nothing, store.putBlob s node key b)
  | .getBlob node key => (store.getBlob s node key, s)

abbrev MeshMemory (B : Type) := List ((String × String) × Bytes) × List ((String × String) × B)

/-- Python `in_memory_store` with blobs. -/
def inMemoryMesh (B : Type) : MeshStore (MeshMemory B) B where
  put s node key b := (inMemoryStore.put s.1 node key b, s.2)
  get s := inMemoryStore.get s.1
  get_put s := inMemoryStore.get_put s.1
  putBlob s node key b := (s.1, ((node, key), b) :: s.2)
  getBlob s node key := (s.2.lookup (node, key)).elim .nothing .blob
  getBlob_putBlob s node key b node' key' := by
    rw [lookup_slot]
    split_ifs <;> rfl
  getBlob_put s node key b := rfl
  get_putBlob s node key b := rfl

section
variable {σ B : Type} {env : Platform B} (store : MeshStore σ B)

lemma run_emit (ops : List (StoreOp B)) (s : σ) :
    run store.step (emit ops) s = ((), ops.foldl (fun s op => (store.step s op).2) s) := by
  induction ops generalizing s with
  | nil => rfl
  | cons op ops ih => exact ih _

lemma run_ask (key : String) (targets : List String) (s : σ) :
    run store.step (ask key targets) s = (answers (store.getBlob s · key) none targets, s) := by
  induction targets with
  | nil => rfl
  | cons node targets ih =>
    show run store.step ((ask key targets).bind _) s = _
    rw [run_bind, ih]
    show ((store.getBlob s node key).toOption.toList ++ answers _ none targets, s) = _
    rw [answers, answers, filterMap_cons, if_pos (asks_none node)]
    cases (store.getBlob s node key).toOption <;> rfl

variable {nodes : List String} {replicas : ℕ} {h : List (StoreOp B × Reply B)}

lemma returns_emit {ops u} : Returns (emit ops) h u ↔ h.map Prod.fst = ops := by
  induction ops generalizing h with
  | nil =>
    rw [emit, returns_ret_iff, map_eq_nil_iff]
    exact and_iff_left rfl
  | cons op ops ih =>
    constructor
    · intro hr
      cases hr with
      | call hr => rw [map_cons, ih.1 hr]
    · intro hops
      cases h with
      | nil => cases hops
      | cons e h =>
        obtain ⟨rfl, hrest⟩ := List.cons.inj hops
        exact .call (ih.2 hrest)

lemma returns_ask {key targets} {blobs} (hr : Returns (ask key targets) h blobs) :
    h.map Prod.fst = targets.map (.getBlob · key) ∧ blobs = h.filterMap fun e => e.2.toOption := by
  induction targets generalizing h blobs with
  | nil =>
    obtain ⟨rfl, rfl⟩ := returns_ret_iff.1 hr
    exact ⟨rfl, rfl⟩
  | cons node targets ih =>
    cases hr with
    | call hr =>
      obtain ⟨h₁, h₂, blobs', rfl, hask, hret⟩ := returns_bind_iff.1 hr
      obtain ⟨rfl, rfl⟩ := returns_ret_iff.1 hret
      obtain ⟨hops, rfl⟩ := ih hask
      rw [append_nil, map_cons, hops, filterMap_cons]
      refine ⟨rfl, ?_⟩
      cases Reply.toOption _ <;> rfl

variable {ts : List String}

lemma returns_forEach {x} {op : String → StoreOp B}
    (hr : Returns (do
      let targets ← attempt x
      perform (emit (targets.map op))
      return targets : Action B (List String)).run h (.ok ts)) :
    x = .ok ts ∧ h.map Prod.fst = ts.map op := by
  obtain ⟨h₁, h₂, targets, rfl, hattempt, hrest⟩ := returns_bind_ok_iff.1 hr
  obtain ⟨rfl, ht⟩ := returns_attempt_iff.1 hattempt
  obtain ⟨h₃, h₄, u, rfl, hemit, hret⟩ := returns_bind_ok_iff.1 hrest
  obtain ⟨rfl, hts⟩ := returns_ret_iff.1 hret
  obtain rfl := Except.ok.inj hts
  rw [nil_append, append_nil]
  exact ⟨ht, returns_emit.1 (returns_perform_iff.1 hemit)⟩

lemma returns_publishBlob {name blob}
    (hr : Returns (publishBlob env nodes replicas name blob).run h (.ok ts)) :
    refNodes env name nodes replicas = .ok ts ∧
      h.map Prod.fst = ts.map (.putBlob · (blobKey name) blob) :=
  returns_forEach hr

lemma returns_askAll {name blobs} (hr : Returns (askAll env nodes replicas name).run h (.ok blobs)) :
    ∃ ts, refNodes env name nodes replicas = .ok ts ∧
      h.map Prod.fst = ts.map (.getBlob · (blobKey name)) ∧
      blobs = h.filterMap fun e => e.2.toOption := by
  obtain ⟨h₁, h₂, targets, rfl, hattempt, hrest⟩ := returns_bind_ok_iff.1 hr
  obtain ⟨rfl, ht⟩ := returns_attempt_iff.1 hattempt
  rw [nil_append]
  exact ⟨targets, ht, returns_ask (returns_perform_iff.1 hrest)⟩

lemma returns_indexAdd {path u} (hr : Returns (indexAdd env nodes replicas path).run h (.ok u)) :
    ∃ ts hread hput paths listing, h = hread ++ hput ∧ refNodes env INDEX nodes replicas = .ok ts ∧
      hread.map Prod.fst = ts.map (.getBlob · (blobKey INDEX)) ∧
      indexUnion env ∅ (hread.filterMap fun e => e.2.toOption) = .ok paths ∧
      env.cmp.sorted (insert (.str path) paths) = .ok listing ∧
      hput.map Prod.fst = ts.map (.putBlob · (blobKey INDEX) (env.json.dumps (.list listing))) := by
  obtain ⟨hread, h₁, blobs, rfl, hask, hr₁⟩ := returns_bind_ok_iff.1 hr
  obtain ⟨ts, hts, hops, rfl⟩ := returns_askAll hask
  obtain ⟨h₂, h₃, paths, rfl, hunion, hr₂⟩ := returns_bind_ok_iff.1 hr₁
  obtain ⟨rfl, hpaths⟩ := returns_attempt_iff.1 hunion
  obtain ⟨h₄, h₅, listing, rfl, hsorted, hr₃⟩ := returns_bind_ok_iff.1 hr₂
  obtain ⟨rfl, hlisting⟩ := returns_attempt_iff.1 hsorted
  obtain ⟨hput, h₆, ts', rfl, hpublish, hret⟩ := returns_bind_ok_iff.1 hr₃
  obtain ⟨rfl, -⟩ := returns_ret_iff.1 hret
  obtain ⟨hts', hputs⟩ := returns_publishBlob hpublish
  obtain rfl := Except.ok.inj (hts.symm.trans hts')
  rw [nil_append, nil_append, append_nil]
  exact ⟨ts, hread, hput, paths, listing, rfl, hts, hops, mapError_eq_ok.1 hpaths,
    mapError_eq_ok.1 hlisting, hputs⟩

lemma foldl_logPut (key : ℕ → String) (cs : List (String × ℕ × Bytes)) (log : List (StoreOp B)) :
    cs.foldl (fun log c => logPut log c.1 (key c.2.1) c.2.2) log =
      log ++ cs.map fun c => .put c.1 (key c.2.1) c.2.2 := by
  induction cs generalizing log with
  | nil => exact (append_nil log).symm
  | cons c cs ih =>
    rw [foldl_cons, ih, logPut, map_cons, append_assoc]
    rfl

/-- The operations of a write that returns: fragments and manifest, the ref read and published, the index
read and published. -/
theorem returns_putFile {w ref} (hr : Returns (putFile env nodes replicas w).run h (.ok ref)) :
    ∃ hother hread hput hindex ts, h = hother ++ (hread ++ (hput ++ hindex)) ∧
      (∀ e ∈ hother, ∀ name, e.1.key? ≠ some (blobKey name)) ∧
      refNodes env w.path nodes replicas = .ok ts ∧
      hread.map Prod.fst = ts.map (.getBlob · (blobKey w.path)) ∧
      ref.path = w.path ∧ hput.map Prod.fst = ts.map (.putBlob · (blobKey w.path) (ref.toBytes env)) ∧
      Returns (indexAdd env nodes replicas w.path).run hindex (.ok ()) := by
  obtain ⟨href, h₁, ref', rfl, hfirst, hr₁⟩ := returns_bind_ok_iff.1 hr
  obtain ⟨hindex, h₂, u, rfl, hadd, hret⟩ := returns_bind_ok_iff.1 hr₁
  obtain ⟨rfl, he⟩ := returns_ret_iff.1 hret
  obtain rfl := Except.ok.inj he
  obtain ⟨h₃, h₄, ⟨m, puts⟩, rfl, hattempt, hr₂⟩ := returns_bind_ok_iff.1 hfirst
  obtain ⟨rfl, hpropagate⟩ := returns_attempt_iff.1 hattempt
  obtain ⟨hfrag, h₅, u', rfl, hemit, hr₃⟩ := returns_bind_ok_iff.1 hr₂
  obtain ⟨hmanifest, h₆, mts, rfl, hpublish, hr₄⟩ := returns_bind_ok_iff.1 hr₃
  obtain ⟨hread, h₇, blobs, rfl, hask, hr₅⟩ := returns_bind_ok_iff.1 hr₄
  obtain ⟨ts, hts, hops, rfl⟩ := returns_askAll hask
  obtain ⟨h₈, h₉, cur, rfl, hwinner, hr₆⟩ := returns_bind_ok_iff.1 hr₅
  obtain ⟨rfl, -⟩ := returns_attempt_iff.1 hwinner
  obtain ⟨hput, h₁₀, ts', rfl, hpublishRef, hret'⟩ := returns_bind_ok_iff.1 hr₆
  obtain ⟨rfl, he'⟩ := returns_ret_iff.1 hret'
  obtain rfl := Except.ok.inj he'
  obtain ⟨hts', hputs⟩ := returns_publishBlob hpublishRef
  obtain rfl := Except.ok.inj (hts.symm.trans hts')
  refine ⟨hfrag ++ hmanifest, hread, hput, hindex, ts, by simp, ?_, hts, hops, rfl, hputs, hadd⟩
  intro e he name hkey
  cases mem_append.1 he with
  | inl he =>
    -- a fragment is no blob
    obtain ⟨-, -, hlog⟩ := propagate_eq_ok.1 (mapError_eq_ok.1 hpropagate)
    rw [foldl_logPut] at hlog
    have hmem := mem_map_of_mem (f := Prod.fst) he
    rw [returns_emit.1 (returns_perform_iff.1 hemit), ← hlog] at hmem
    obtain ⟨c, -, hc⟩ := mem_map.1 hmem
    rw [← hc] at hkey
    cases hkey
  | inr he =>
    -- the key of a manifest is not that of a name
    have hmem := mem_map_of_mem (f := Prod.fst) he
    rw [(returns_forEach hpublish).2] at hmem
    obtain ⟨node, -, hnode⟩ := mem_map.1 hmem
    rw [← hnode] at hkey
    exact blobKey_ne_manifestKey _ _ (Option.some.inj hkey).symm

end

section
variable {ι σ B : Type} (store : MeshStore σ B)

def writeTo (key node : String) (e : ι × StoreOp B × Reply B) : Option (ι × B) :=
  match e.2.1 with
  | .putBlob n k b => if n = node ∧ k = key then some (e.1, b) else none
  | _ => none

/-- The last put of a blob under a key on a node, and the thread that made it. -/
def lastWrite (key node : String) (tr : List (ι × StoreOp B × Reply B)) : Option (ι × B) :=
  (tr.filterMap (writeTo key node)).getLast?

lemma lastWrite_append (key node : String) (tr : List (ι × StoreOp B × Reply B))
    (e : ι × StoreOp B × Reply B) :
    lastWrite key node (tr ++ [e]) = (writeTo key node e).or (lastWrite key node tr) := by
  rw [lastWrite, filterMap_append, filterMap_cons, filterMap_nil, lastWrite]
  cases writeTo key node e with
  | none => rw [append_nil, Option.none_or]
  | some p => rw [getLast?_concat, Option.some_or]

variable {key node : String}

lemma writeTo_eq_some {e : ι × StoreOp B × Reply B} {i b} :
    writeTo key node e = some (i, b) ↔ e.1 = i ∧ e.2.1 = .putBlob node key b := by
  obtain ⟨j, op, r⟩ := e
  cases op with
  | put n k b' | getBlob n k => exact iff_of_false nofun nofun
  | putBlob n k b' =>
    show (if n = node ∧ k = key then some (j, b') else none) = some (i, b) ↔ _
    by_cases h : n = node ∧ k = key
    · obtain ⟨rfl, rfl⟩ := h
      simp
    · rw [if_neg h]
      refine iff_of_false nofun ?_
      rintro ⟨-, he⟩
      cases he
      exact h ⟨rfl, rfl⟩

variable {tr : List (ι × StoreOp B × Reply B)}

lemma mem_of_lastWrite {i b}
    (h : lastWrite key node tr = some (i, b)) : ∃ r, (i, .putBlob node key b, r) ∈ tr := by
  obtain ⟨⟨j, op, r⟩, hmem, he⟩ := mem_filterMap.1 (mem_of_getLast? h)
  obtain ⟨rfl, rfl⟩ := writeTo_eq_some.1 he
  exact ⟨r, hmem⟩

lemma lastWrite_ne_none {i b}
    {r} (h : (i, .putBlob node key b, r) ∈ tr) : ∃ p, lastWrite key node tr = some p := by
  have hmem : (i, b) ∈ tr.filterMap (writeTo key node) := mem_filterMap.2 ⟨_, h, writeTo_eq_some.2 ⟨rfl, rfl⟩⟩
  exact ⟨_, getLast?_eq_some_getLast (ne_nil_of_mem hmem)⟩

/-- A node has the blob that was put there last. -/
theorem getBlob_replay (s : σ) (tr : List (ι × StoreOp B × Reply B)) (node key : String) :
    store.getBlob (replay store.step s tr) node key =
      (lastWrite key node tr).elim (store.getBlob s node key) fun p => .blob p.2 := by
  induction tr using List.reverseRecOn with
  | nil => rfl
  | append_singleton tr e ih =>
    obtain ⟨i, op, r⟩ := e
    rw [lastWrite_append, replay, foldl_append, foldl_cons, foldl_nil]
    cases op with
    | put n k b =>
      show store.getBlob (store.put _ n k b) node key = _
      rw [store.getBlob_put]
      exact ih
    | getBlob n k => exact ih
    | putBlob n k b =>
      show store.getBlob (store.putBlob _ n k b) node key = _
      rw [store.getBlob_putBlob]
      show _ = ((if n = node ∧ k = key then some (i, b) else none).or _).elim _ _
      by_cases h : n = node ∧ k = key
      · rw [if_pos ⟨h.1.symm, h.2.symm⟩, if_pos h]
        rfl
      · rw [if_neg fun h' => h ⟨h'.1.symm, h'.2.symm⟩, if_neg h]
        exact ih

end

end SocioWorkspace.Drive
