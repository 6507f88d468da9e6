import SocioWorkspace.Drive.Sync
import SocioWorkspace.Holographic.Rewrite

/-!
# What a write does to the store

Writes on an honest store. The ref of a name and the manifest of a root are on their replicas, the nodes
of highest rendezvous weight, and so is the index.

`run_putFile` runs `put_file` as a whole, from one lemma for each of the calls it makes. `Holding` is the
invariant of the store, which `Holding.write` keeps and from which `Holding.getFile_eq` reads a file.
-/

namespace SocioWorkspace.Drive
open Python Holographic Threads List

def lastTo (writes : List FileWrite) (path : String) : Option FileWrite :=
  writes.reverse.find? fun w => w.path = path

def lastOf (writes : List FileWrite) (data : Bytes) : Option FileWrite :=
  writes.reverse.find? fun w => w.data = data

def pathsOf (writes : List FileWrite) : Finset String := (writes.map (·.path)).toFinset

def currentRef (sha256Hex : Bytes → String) (writes : List FileWrite) (path : String) :
    Option (NamespaceRef String) :=
  (lastTo writes path).map fun w => ⟨path, merkleRoot sha256Hex w.data,
    writes.countP fun w => w.path = path, w.now, w.writer⟩

section
variable {writes : List FileWrite} {path : String} {data : Bytes}

lemma last_append (p : FileWrite → Prop) [DecidablePred p] (w : FileWrite) :
    (writes ++ [w]).reverse.find? (p ·) = if p w then some w else writes.reverse.find? (p ·) := by
  rw [reverse_append, reverse_singleton, singleton_append, find?_cons]
  by_cases h : p w
  · simp [h]
  · simp [h]

lemma lastTo_append (w : FileWrite) :
    lastTo (writes ++ [w]) path = if w.path = path then some w else lastTo writes path :=
  last_append (·.path = path) w

lemma lastOf_append (w : FileWrite) :
    lastOf (writes ++ [w]) data = if w.data = data then some w else lastOf writes data :=
  last_append (·.data = data) w

variable {w : FileWrite}

lemma mem_of_lastTo (h : lastTo writes path = some w) : w ∈ writes ∧ w.path = path :=
  ⟨mem_reverse.1 (mem_of_find?_eq_some h), by simpa using find?_some h⟩

lemma mem_of_lastOf (h : lastOf writes data = some w) : w ∈ writes ∧ w.data = data :=
  ⟨mem_reverse.1 (mem_of_find?_eq_some h), by simpa using find?_some h⟩

variable {sha256Hex : Bytes → String}

lemma currentRef_append_self (w : FileWrite) :
    currentRef sha256Hex (writes ++ [w]) w.path = some (nextRef w (merkleRoot sha256Hex w.data)
      ((currentRef sha256Hex writes w.path).map fun r => r.map .str)) := by
  have hcount : (writes ++ [w]).countP (fun v => v.path = w.path) =
      (writes.countP fun v => v.path = w.path) + 1 := by
    simp
  rw [currentRef, lastTo_append, if_pos rfl, Option.map_some, hcount, currentRef]
  cases hlast : lastTo writes w.path with
  | none =>
    rw [countP_eq_zero.2 fun v hv => find?_eq_none.1 hlast v (mem_reverse.2 hv)]
    rfl
  | some v => rfl

lemma currentRef_append_of_ne (h : w.path ≠ path) :
    currentRef sha256Hex (writes ++ [w]) path = currentRef sha256Hex writes path := by
  have hcount : (writes ++ [w]).countP (fun v => v.path = path) =
      writes.countP fun v => v.path = path := by
    simp [h]
  rw [currentRef, lastTo_append, if_neg h, hcount]
  rfl

lemma pathsOf_append (w : FileWrite) : pathsOf (writes ++ [w]) = insert w.path (pathsOf writes) := by
  ext p
  simp [pathsOf]

variable {B : Type} {env : Platform B} {getBlob : String → Reply B} {targets : List String}
  {reachable : Option (List String)}

lemma answers_nothing (h : ∀ node ∈ targets, getBlob node = .nothing) :
    answers getBlob reachable targets = [] := by
  rw [answers, filterMap_eq_nil_iff]
  intro node hnode
  rw [h node hnode]
  split_ifs <;> rfl

lemma answers_blob {b} (h : ∀ node ∈ targets, getBlob node = .blob b)
    (hasks : ∃ node ∈ targets, Asks reachable node) :
    ∃ n, answers getBlob reachable targets = List.replicate (n + 1) b := by
  have hall : ∀ x ∈ answers getBlob reachable targets, x = b := by
    intro x hx
    obtain ⟨node, hnode, -, hget⟩ := mem_answers.1 hx
    rw [h node hnode] at hget
    exact (Option.some.inj hget).symm
  obtain ⟨node, hnode, hr⟩ := hasks
  have hmem : b ∈ answers getBlob reachable targets :=
    mem_answers.2 ⟨node, hnode, hr, by rw [h node hnode]; rfl⟩
  have hrep := eq_replicate_of_mem hall
  cases hlen : (answers getBlob reachable targets).length with
  | zero =>
    rw [length_eq_zero_iff.1 hlen] at hmem
    cases hmem
  | succ n => exact ⟨n, hlen ▸ hrep⟩

lemma indexUnion_replicate (paths : Finset String) (n : ℕ) :
    indexUnion env ∅ (List.replicate (n + 1) (listBlob env (paths.sort (· ≤ ·)))) =
      .ok (paths.image .str) := by
  have hunion := indexUnion_texts env ∅ (List.replicate (n + 1) (paths.sort (· ≤ ·)))
  rw [map_replicate, Finset.image_empty] at hunion
  rw [hunion]
  refine congrArg (fun S : Finset String => Except.ok (S.image Value.str)) ?_
  ext p
  simp

def replicaNodes {B : Type} (env : Platform B) (nodes : List String) (replicas : ℕ) (key : String) :
    List String :=
  (nodes.dedup.insertionSort fun a b => env.weight key b ≤ env.weight key a).take replicas

variable {nodes : List String} {replicas : ℕ}

section
variable (hreplicas : 1 ≤ replicas ∧ replicas ≤ nodes.length) (key : String)
include hreplicas

lemma rendezvous_replicaNodes :
    rendezvous env key nodes replicas = .ok (replicaNodes env nodes replicas key) :=
  rendezvous_eq_ok.2 ⟨hreplicas, rfl⟩

lemma exists_replicaNode : ∃ node ∈ replicaNodes env nodes replicas key, Asks none node := by
  obtain ⟨node, hnode⟩ := exists_mem_of_ne_nil _
    (targets_ne_nil (@rendezvous_replicaNodes _ env _ _ hreplicas key))
  exact ⟨node, hnode, nofun⟩

end

end

section
variable {σ B : Type}

def publishAll (store : MeshStore σ B) (s : σ) (targets : List String) (key : String) (b : B) : σ :=
  targets.foldl (fun s node => store.putBlob s node key b) s

def publishTo (env : Platform B) (store : MeshStore σ B) (nodes : List String) (replicas : ℕ) (s : σ)
    (name : String) (b : B) : σ :=
  publishAll store s (replicaNodes env nodes replicas name) (blobKey name) b

def storeContent (env : Platform B) (store : MeshStore σ B) (nodes : List String) (replicas : ℕ) (s : σ)
    (w : FileWrite) : σ :=
  publishAll store
    (writeLeaf env.sha256Hex store.toHonestStore nodes s ⟨w.data, w.placement, "runtime"⟩)
    (replicaNodes env nodes replicas (merkleRoot env.sha256Hex w.data))
    (manifestKey (merkleRoot env.sha256Hex w.data))
    (serialize env (manifestOf env.sha256Hex w.data nodes w.placement "runtime"))

variable {env : Platform B} (store : MeshStore σ B) {nodes : List String} {replicas : ℕ}

section
variable (s : σ) (targets : List String) (key : String) (b : B)

lemma getBlob_publishAll (node' key' : String) : store.getBlob (publishAll store s targets key b) node' key' =
      if node' ∈ targets ∧ key' = key then .blob b else store.getBlob s node' key' := by
  induction targets using List.reverseRecOn with
  | nil => simp [publishAll]
  | append_singleton targets node ih =>
    rw [publishAll, foldl_append, foldl_cons, foldl_nil, store.getBlob_putBlob]
    by_cases hnode : node' = node ∧ key' = key
    · simp [hnode]
    · rw [if_neg hnode]
      refine ih.trans (if_congr ?_ rfl rfl)
      simp only [mem_append, mem_singleton]
      tauto

lemma get_publishAll : store.get (publishAll store s targets key b) = store.get s := by
  induction targets generalizing s with
  | nil => rfl
  | cons node targets ih => exact (ih _).trans (store.get_putBlob s node key b)

end

lemma getBlob_writeLeaf (w : Write) (s : σ) :
    store.getBlob (writeLeaf env.sha256Hex store.toHonestStore nodes s w) = store.getBlob s := by
  rw [writeLeaf]
  induction copiesOf w.leaf nodes w.placement generalizing s with
  | nil => rfl
  | cons c cs ih => exact (ih _).trans (store.getBlob_put s _ _ _)

variable {store} in
lemma getBlob_publishTo_self {s name node b} (h : node ∈ replicaNodes env nodes replicas name) :
    store.getBlob (publishTo env store nodes replicas s name b) node (blobKey name) = .blob b := by
  rw [publishTo, getBlob_publishAll, if_pos ⟨h, rfl⟩]

variable {store} in
lemma getBlob_publishTo_of_ne {s name name' b} (h : name' ≠ name) :
    (store.getBlob (publishTo env store nodes replicas s name b) · (blobKey name')) =
      (store.getBlob s · (blobKey name')) := by
  funext node
  rw [publishTo, getBlob_publishAll, if_neg fun hn => h (blobKey_inj hn.2)]

variable {store} in
lemma getBlob_storeContent (w : FileWrite) {s name} :
    (store.getBlob (storeContent env store nodes replicas s w) · (blobKey name)) =
      (store.getBlob s · (blobKey name)) := by
  funext node
  rw [storeContent, getBlob_publishAll, if_neg fun hn => blobKey_ne_manifestKey _ _ hn.2, getBlob_writeLeaf]

lemma run_putBlobs (targets : List String) (key : String) (b : B) (s : σ) :
    run store.step (perform (emit (targets.map (.putBlob · key b))) : Action B Unit).run s =
      (.ok (), publishAll store s targets key b) := by
  rw [run_perform, run_emit, foldl_map]
  rfl

section
variable (hreplicas : 1 ≤ replicas ∧ replicas ≤ nodes.length)
include hreplicas

lemma answers_publishTo (s : σ) (name : String) (b : B) :
    ∃ n, answers (store.getBlob (publishTo env store nodes replicas s name b) · (blobKey name)) none
      (replicaNodes env nodes replicas name) = List.replicate (n + 1) b :=
  answers_blob (fun _ hnode => getBlob_publishTo_self hnode) (exists_replicaNode hreplicas name)

lemma run_publishBlob (name : String) (b : B) (s : σ) :
    run store.step (publishBlob env nodes replicas name b).run s =
      (.ok (replicaNodes env nodes replicas name), publishTo env store nodes replicas s name b) := by
  rw [publishBlob, refNodes, run_attempt_bind (rendezvous_replicaNodes hreplicas name),
    run_bind_ok (run_putBlobs store _ _ _ _)]
  rfl

lemma run_publishManifest (m : PropagationManifest) (s : σ) :
    run store.step (publishManifest env nodes replicas m).run s =
      (.ok (replicaNodes env nodes replicas m.root), publishAll store s
        (replicaNodes env nodes replicas m.root) (manifestKey m.root) (serialize env m)) := by
  rw [publishManifest, manifestNodes, run_attempt_bind (rendezvous_replicaNodes hreplicas m.root),
    run_bind_ok (run_putBlobs store _ _ _ _)]
  rfl

lemma run_askAll (name : String) (s : σ) :
    run store.step (askAll env nodes replicas name).run s =
      (.ok (answers (store.getBlob s · (blobKey name)) none (replicaNodes env nodes replicas name)), s) := by
  rw [askAll, refNodes, run_attempt_bind (rendezvous_replicaNodes hreplicas name), run_perform, run_ask]

variable {paths : Finset String}

lemma run_indexPublish {path blobs} (hunion : indexUnion env ∅ blobs = .ok (paths.image .str)) (s : σ) :
    run store.step (indexPublish env nodes replicas path blobs).run s =
      (.ok (), publishTo env store nodes replicas s INDEX
        (listBlob env ((insert path paths).sort (· ≤ ·)))) := by
  have hsorted : env.cmp.sorted (insert (.str path) (paths.image .str)) =
      .ok (((insert path paths).sort (· ≤ ·)).map .str) := by
    rw [← Finset.image_insert, env.cmp.sorted_str]
  rw [indexPublish, run_attempt_bind (mapError_eq_ok.2 hunion),
    run_attempt_bind (mapError_eq_ok.2 hsorted), run_bind_ok (run_publishBlob store hreplicas _ _ s)]
  rfl

lemma run_indexAdd {path s}
    (hunion : indexUnion env ∅ (answers (store.getBlob s · (blobKey INDEX)) none
      (replicaNodes env nodes replicas INDEX)) = .ok (paths.image .str)) :
    run store.step (indexAdd env nodes replicas path).run s =
      (.ok (), publishTo env store nodes replicas s INDEX
        (listBlob env ((insert path paths).sort (· ≤ ·)))) := by
  rw [indexAdd, run_bind_ok (run_askAll store hreplicas _ s), run_indexPublish store hreplicas hunion s]

omit hreplicas in
lemma run_puts (w : Write) (s : σ) :
    run store.step (perform (emit ((copiesOf w.leaf nodes w.placement).map fun c =>
      .put c.1 (fragKey (merkleRoot env.sha256Hex w.leaf) c.2.1) c.2.2)) : Action B Unit).run s =
      (.ok (), writeLeaf env.sha256Hex store.toHonestStore nodes s w) := by
  rw [run_perform, run_emit, foldl_map]
  rfl

variable {w : FileWrite} (haccepted : Accepted nodes w.placement)
include haccepted

lemma run_putContent (s : σ) :
    run store.step (putRef env nodes replicas w).run s =
      run store.step (do
        let cur ← attempt ((winner env w.path none (answers (store.getBlob s · (blobKey w.path)) none
          (replicaNodes env nodes replicas w.path))).mapError .python)
        let ref := nextRef w (merkleRoot env.sha256Hex w.data) cur
        let _ ← publishRef env nodes replicas ref
        return ref : Action B (NamespaceRef String)).run (storeContent env store nodes replicas s w) := by
  have hlog := foldl_logPut (B := B) (fragKey (merkleRoot env.sha256Hex w.data))
    (copiesOf w.data nodes w.placement) []
  have hpropagate : propagate env.sha256Hex logPut w.data nodes w.placement "runtime" [] =
      .ok (manifestOf env.sha256Hex w.data nodes w.placement "runtime", _) :=
    propagate_eq_ok.2 ⟨haccepted, rfl, hlog⟩
  have hputs := @run_puts _ _ env store nodes ⟨w.data, w.placement, "runtime"⟩ s
  rw [putRef, run_attempt_bind (mapError_eq_ok.2 hpropagate)]
  refine (run_bind_ok hputs).trans ?_
  refine (run_bind_ok (run_publishManifest store hreplicas (manifestOf env.sha256Hex w.data nodes
    w.placement "runtime") _)).trans ?_
  refine (run_bind_ok (run_askAll store hreplicas _ (storeContent env store nodes replicas s w))).trans ?_
  rw [getBlob_storeContent]
  rfl

variable {s : σ} {cur : Option (NamespaceRef Value)}
  (hwinner : winner env w.path none (answers (store.getBlob s · (blobKey w.path)) none
    (replicaNodes env nodes replicas w.path)) = .ok cur)
include hwinner

/-- What a write does to the store before it adds the path to the index. -/
lemma run_putRef :
    run store.step (putRef env nodes replicas w).run s =
      (.ok (nextRef w (merkleRoot env.sha256Hex w.data) cur),
        publishTo env store nodes replicas (storeContent env store nodes replicas s w) w.path
          ((nextRef w (merkleRoot env.sha256Hex w.data) cur).toBytes env)) := by
  refine (run_putContent store hreplicas haccepted s).trans ?_
  refine (run_attempt_bind (mapError_eq_ok.2 hwinner) _).trans ?_
  exact (run_bind_ok (run_publishBlob store hreplicas _ _ _)).trans rfl

lemma run_putFile (hpath : w.path ≠ INDEX)
    (hunion : indexUnion env ∅ (answers (store.getBlob s · (blobKey INDEX)) none
      (replicaNodes env nodes replicas INDEX)) = .ok (paths.image .str)) :
    run store.step (putFile env nodes replicas w).run s =
      (.ok (nextRef w (merkleRoot env.sha256Hex w.data) cur),
        publishTo env store nodes replicas
          (publishTo env store nodes replicas (storeContent env store nodes replicas s w) w.path
            ((nextRef w (merkleRoot env.sha256Hex w.data) cur).toBytes env))
          INDEX (listBlob env ((insert w.path paths).sort (· ≤ ·)))) := by
  rw [← getBlob_storeContent w, ← getBlob_publishTo_of_ne hpath.symm] at hunion
  rw [putFile, run_bind_ok (run_putRef store hreplicas haccepted hwinner)]
  exact (run_bind_ok (run_indexAdd store hreplicas hunion)).trans rfl

end

lemma run_putFile_refused {w} (h : ¬Accepted nodes w.placement) (s : σ) :
    ∃ e, run store.step (putFile env nodes replicas w).run s = (.error e, s) := by
  cases hpropagate : propagate env.sha256Hex logPut w.data nodes w.placement "runtime"
      ([] : List (StoreOp B)) with
  | ok written => exact absurd (propagate_eq_ok.1 hpropagate).1 h
  | error e =>
    refine ⟨.propagate e, run_bind_error (run_bind_error ?_)⟩
    rw [hpropagate]
    rfl

structure Holding {σ B : Type} (env : Platform B) (store : MeshStore σ B) (nodes : List String)
    (replicas : ℕ) (contents : List FileWrite) (s : σ) : Prop where
  manifest : ∀ data w, lastOf contents data = some w →
    ∀ node ∈ replicaNodes env nodes replicas (merkleRoot env.sha256Hex data),
      store.getBlob s node (manifestKey (merkleRoot env.sha256Hex data)) =
        .blob (serialize env (manifestOf env.sha256Hex data nodes w.placement "runtime"))
  fragments : ∀ data w, lastOf contents data = some w → ∀ node x, Holds nodes w.placement node x →
    store.get s node (fragKey (merkleRoot env.sha256Hex data) x) = .bytes (fragment data w.placement.rsK x)

variable {store} {writes : List FileWrite} {s : σ} {reachable : Option (List String)}

lemma Holding.publish (h : Holding env store nodes replicas writes s) (name : String) (b : B) :
    Holding env store nodes replicas writes (publishTo env store nodes replicas s name b) := by
  refine ⟨?_, ?_⟩
  · intro data w hw node hnode
    rw [publishTo, getBlob_publishAll, if_neg fun hn => blobKey_ne_manifestKey _ _ hn.2.symm]
    exact h.manifest data w hw node hnode
  · intro data w hw
    rw [publishTo, get_publishAll]
    exact h.fragments data w hw

variable {w : FileWrite}

/-- A write of the same content replaces the manifest and the fragments, any other one has another
root. -/
lemma Holding.write (h : Holding env store nodes replicas writes s)
    (hroots : ∀ v ∈ writes, merkleRoot env.sha256Hex w.data = merkleRoot env.sha256Hex v.data →
      w.data = v.data) :
    Holding env store nodes replicas (writes ++ [w]) (storeContent env store nodes replicas s w) := by
  refine ⟨?_, ?_⟩
  · intro data v hv node hnode
    rw [storeContent, getBlob_publishAll]
    rw [lastOf_append] at hv
    by_cases hd : w.data = data
    · subst hd
      rw [if_pos rfl] at hv
      obtain rfl := Option.some.inj hv
      rw [if_pos ⟨hnode, rfl⟩]
    · rw [if_neg hd] at hv
      obtain ⟨hmem, rfl⟩ := mem_of_lastOf hv
      rw [if_neg fun hn => hd (hroots v hmem ((String.append_right_inj _).1 hn.2).symm), getBlob_writeLeaf,
        h.manifest _ v hv node hnode]
  · intro data v hv node x hx
    rw [storeContent, get_publishAll]
    rw [lastOf_append] at hv
    by_cases hd : w.data = data
    · subst hd
      rw [if_pos rfl] at hv
      obtain rfl := Option.some.inj hv
      rw [get_writeLeaf _ _ fun _ => rfl]
      exact if_pos ⟨rfl, hx⟩
    · rw [if_neg hd] at hv
      obtain ⟨hmem, rfl⟩ := mem_of_lastOf hv
      rw [get_writeLeaf _ _ (hroots v hmem), if_neg fun hn => hd hn.1]
      exact h.fragments _ v hv node x hx

variable {data : Bytes}

lemma Holding.fetch_eq (h : Holding env store nodes replicas writes s) (hw : lastOf writes data = some w)
    (haccepted : Accepted nodes w.placement)
    (hcount : w.placement.rsK ≤ (assigned nodes w.placement.rsN w.placement.shardReplicas).countP
      fun p => ∃ node ∈ p.2, Asks reachable node) :
    fetch env.sha256Hex (store.get s) reachable MAX_ATTEMPTS
      (manifestOf env.sha256Hex data nodes w.placement "runtime") = .ok data := by
  have hget : ∀ {x ns node}, (x, ns) ∈ assigned nodes w.placement.rsN w.placement.shardReplicas →
      node ∈ ns → store.get s node (fragKey (merkleRoot env.sha256Hex data) x) =
        .bytes (fragment data w.placement.rsK x) :=
    fun hx hnode => h.fragments data w hw _ _ ⟨_, hx, rfl, hnode⟩
  apply fetch_of_true haccepted.1.1 haccepted.1.2
  · intro p hp
    obtain ⟨ns, hns, hcopy⟩ := mem_gather.1 hp
    obtain ⟨node, hnode, -, hbytes⟩ := exists_of_firstCopy hcopy
    exact Answer.bytes.inj (hbytes.symm.trans (hget hns hnode))
  · rw [gather, length_filterMap_eq_countP]
    refine hcount.trans (countP_mono_left fun p hp hasks => ?_)
    obtain ⟨node, hnode, hr⟩ := of_decide_eq_true hasks
    obtain ⟨b, hb⟩ := firstCopy_ne_none hnode hr (hget hp hnode)
    rw [show firstCopy (store.get s) reachable (fragKey (manifestOf env.sha256Hex data nodes
      w.placement "runtime").root p.1) p.2 = some b from hb]
    rfl

lemma sorted_assigned (nodes : List String) (n R : ℕ) :
    ((assigned nodes n R).map Prod.fst).Pairwise (· < ·) := by
  rw [assigned, map_map]
  refine pairwise_map.2 (List.pairwise_lt_range.imp fun h => ?_)
  exact Nat.succ_lt_succ h

lemma Holding.resolveManifest_eq (h : Holding env store nodes replicas writes s)
    (hw : lastOf writes data = some w) (hreplicas : 1 ≤ replicas ∧ replicas ≤ nodes.length)
    (hasks : ∃ node ∈ replicaNodes env nodes replicas (merkleRoot env.sha256Hex data), Asks reachable node) :
    resolveManifest env (store.getBlob s) reachable (merkleRoot env.sha256Hex data) nodes replicas =
      .ok (stored (manifestOf env.sha256Hex data nodes w.placement "runtime")) := by
  refine (resolveManifest_eq_ok (rendezvous_replicaNodes hreplicas _)).2 ?_
  obtain ⟨n, hn⟩ := answers_blob (h.manifest data w hw) hasks
  rw [hn, replicate_succ, firstManifest, deserialize_serialize env]
  · exact if_neg (not_not.2 rfl)
  · exact (sorted_assigned nodes w.placement.rsN w.placement.shardReplicas).imp fun h => h.ne

lemma Holding.getFile_eq (h : Holding env store nodes replicas writes s) {path}
    {ref : NamespaceRef String} {v : FileWrite} (hreplicas : 1 ≤ replicas ∧ replicas ≤ nodes.length)
    (hwinner : winner env path none (answers (store.getBlob s · (blobKey path)) reachable
      (replicaNodes env nodes replicas path)) = .ok (some (ref.map .str)))
    (hroot : ref.root = merkleRoot env.sha256Hex data) (hrecent : lastOf writes data = some v)
    (haccepted : Accepted nodes v.placement)
    (hasks : ∃ node ∈ replicaNodes env nodes replicas (merkleRoot env.sha256Hex data), Asks reachable node)
    (hcount : v.placement.rsK ≤ (assigned nodes v.placement.rsN v.placement.shardReplicas).countP
      fun p => ∃ node ∈ p.2, Asks reachable node) :
    getFile env nodes replicas (store.get s) (store.getBlob s) reachable path =
      .ok (data, ref.map .str) := by
  have hresolve : resolveRef env (store.getBlob s) reachable path nodes replicas = .ok _ :=
    (resolveRef_eq_ok (rendezvous_replicaNodes hreplicas path)).2 hwinner
  have hmanifest := h.resolveManifest_eq hrecent hreplicas hasks
  rw [← hroot] at hmanifest
  refine bind_eq_ok.2 ⟨_, hresolve, bind_eq_ok.2 ⟨_, hmanifest, ?_⟩⟩
  rw [typed_stored (sorted_assigned nodes v.placement.rsN v.placement.shardReplicas)]
  exact bind_eq_ok.2 ⟨_, mapError_eq_ok.2 (h.fetch_eq hrecent haccepted hcount), rfl⟩

end

end SocioWorkspace.Drive
