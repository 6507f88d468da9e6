import SocioWorkspace.Drive.Holding

/-!
# Reading back the files

Writes one after the other on an honest store, to any paths, also to the name `__index__` of the index.
`DriveLog` says what a Drive holds by the writes alone, and `Keeps` how the store holds it.

`Keeps.put` is the step, one write, and `keeps_putAll` the induction over all of them; `read_your_writes`
compares `get_file` and `list_files` with what the log returns.
-/

namespace SocioWorkspace.Drive
open Python Holographic Threads List

/-- What a Drive holds: the writes with a ref, the writes whose content is stored, and the paths of the
index. -/
structure DriveLog where
  refs : List FileWrite
  contents : List FileWrite
  listed : Finset String

def refKeys : Finset String := {"path", "root", "version", "updated_at", "writer"}

section
variable (nodes : List String)

/-- The log after a write. A write to the path of an index raises after its content is stored; the first one
leaves the keys of its ref in the index. -/
def DriveLog.put (log : DriveLog) (w : FileWrite) : DriveLog :=
  if Accepted nodes w.placement then
    if w.path = INDEX then
      ⟨log.refs, log.contents ++ [w], if log.listed = ∅ then insert INDEX refKeys else log.listed⟩
    else ⟨log.refs ++ [w], log.contents ++ [w], insert w.path log.listed⟩
  else log

def DriveLog.Returns (log : DriveLog) (w : FileWrite) : Prop :=
  Accepted nodes w.placement ∧ (w.path = INDEX → log.listed = ∅)

def logOf (writes : List FileWrite) : DriveLog := writes.foldl (DriveLog.put nodes) ⟨[], [], ∅⟩

def DriveLog.read (sha256Hex : Bytes → String) (log : DriveLog) (path : String) :
    Except DriveError (Bytes × NamespaceRef Value) :=
  if path = INDEX then .error (if log.listed = ∅ then .fileNotFound path else .python .type)
  else
    match lastTo log.refs path with
    | none => .error (.fileNotFound path)
    | some w => .ok (w.data, NamespaceRef.map .str ⟨path, merkleRoot sha256Hex w.data,
        log.refs.countP fun w => w.path = path, w.now, w.writer⟩)

structure KeepsFiles {σ B : Type} (env : Platform B) (store : MeshStore σ B) (nodes : List String)
    (replicas : ℕ) (refs contents : List FileWrite) (s : σ) : Prop where
  ref : ∀ path, path ≠ INDEX → ∀ node ∈ replicaNodes env nodes replicas path,
    store.getBlob s node (blobKey path) =
      (currentRef env.sha256Hex refs path).elim .nothing fun r => .blob (r.toBytes env)
  holding : Holding env store nodes replicas contents s
  stored : ∀ w ∈ refs, w ∈ contents
  accepted : ∀ w ∈ contents, Accepted nodes w.placement

structure Keeps {σ B : Type} (env : Platform B) (store : MeshStore σ B) (nodes : List String)
    (replicas : ℕ) (log : DriveLog) (s : σ) : Prop where
  files : KeepsFiles env store nodes replicas log.refs log.contents s
  index : ∀ node ∈ replicaNodes env nodes replicas INDEX, store.getBlob s node (blobKey INDEX) =
    if log.listed = ∅ then .nothing else .blob (listBlob env (log.listed.sort (· ≤ ·)))

variable {B : Type} {env : Platform B}

/-- A ref is an index of its keys. -/
lemma toSet_toBytes (r : NamespaceRef String) :
    (env.json.loads (r.toBytes env) >>= toSet) = .ok (refKeys.image .str) := by
  have hnodup : (r.doc.map Prod.fst).Nodup := by
    rw [NamespaceRef.doc]
    simp
  have hkeys : (SortedMap.ofList r.doc).keys.toFinset = refKeys :=
    toFinset_eq_of_perm _ _ ((SortedMap.perm_members_ofList hnodup).map Prod.fst)
  refine bind_eq_ok.2 ⟨_, env.json.loads_dumps _, ?_⟩
  rw [toSet_dict, hkeys]

lemma indexUnion_toBytes (r : NamespaceRef String) (n : ℕ) :
    indexUnion env ∅ (replicate (n + 1) (r.toBytes env)) = .ok (refKeys.image .str) := by
  have hsame : ∀ n (paths : Finset Value), paths ⊆ refKeys.image .str →
      indexUnion env paths (replicate (n + 1) (r.toBytes env)) = .ok (refKeys.image .str) := by
    intro n
    induction n with
    | zero =>
      intro paths hpaths
      rw [replicate_succ, indexUnion, toSet_toBytes]
      exact congrArg Except.ok (Finset.union_eq_right.2 hpaths)
    | succ n ih =>
      intro paths hpaths
      rw [replicate_succ, indexUnion, toSet_toBytes]
      exact ih _ (Finset.union_subset hpaths Finset.Subset.rfl)
  exact hsame n ∅ (Finset.empty_subset _)

end

lemma rsK_le_assigned {nodes placement} (h : Accepted nodes placement) :
    placement.rsK ≤ (assigned nodes placement.rsN placement.shardReplicas).countP
      fun p => ∃ node ∈ p.2, Asks none node := by
  have hcopies : 0 < placement.shardReplicas := Nat.pos_of_mul_pos_left h.2.1
  have hall : ∀ p ∈ assigned nodes placement.rsN placement.shardReplicas,
      decide (∃ node ∈ p.2, Asks none node) = true := by
    rintro ⟨x, ns⟩ hp
    obtain ⟨i, -, -, rfl⟩ := mem_assigned.1 hp
    obtain ⟨node, hnode⟩ := exists_mem_of_ne_nil (slots nodes placement.shardReplicas
      (stride nodes placement.rsN placement.shardReplicas) i) (by simp [slots, hcopies.ne'])
    exact decide_eq_true ⟨node, hnode, asks_none node⟩
  rw [countP_eq_length.2 hall, assigned, length_map, length_range]
  exact Nat.le_add_right _ _

section
variable {σ B : Type} {env : Platform B} {store : MeshStore σ B} {nodes : List String} {replicas : ℕ}
variable {log : DriveLog} {s : σ} {reachable : Option (List String)}

section
variable (h : Keeps env store nodes replicas log s)
include h

lemma Keeps.winner_index (hreplicas : 1 ≤ replicas ∧ replicas ≤ nodes.length) :
    winner env INDEX none (answers (store.getBlob s · (blobKey INDEX)) none
        (replicaNodes env nodes replicas INDEX)) =
      if log.listed = ∅ then .ok none else .error .type := by
  have hindex := h.index
  split_ifs with hempty
  · simp only [hempty, if_true] at hindex
    rw [answers_nothing hindex]
    rfl
  · simp only [hempty, if_false] at hindex
    obtain ⟨n, hn⟩ := answers_blob hindex (exists_replicaNode hreplicas INDEX)
    rw [hn, replicate_succ, winner, fromBytes, listBlob, env.json.loads_dumps]
    rfl

lemma Keeps.winner_path {path} (hpath : path ≠ INDEX)
    (hasks : ∃ node ∈ replicaNodes env nodes replicas path, Asks reachable node) :
    winner env path none (answers (store.getBlob s · (blobKey path)) reachable
        (replicaNodes env nodes replicas path)) =
      .ok ((currentRef env.sha256Hex log.refs path).map fun r => r.map .str) := by
  have href := h.files.ref path hpath
  cases hcur : currentRef env.sha256Hex log.refs path with
  | none =>
    rw [hcur] at href
    rw [answers_nothing href]
    rfl
  | some r =>
    rw [hcur] at href
    obtain ⟨n, hn⟩ := answers_blob href hasks
    rw [hn]
    refine winner_replicate ?_ n
    obtain ⟨w, -, rfl⟩ := Option.map_eq_some_iff.1 hcur
    rfl

lemma Keeps.indexUnion_eq (hasks : ∃ node ∈ replicaNodes env nodes replicas INDEX, Asks reachable node) :
    indexUnion env ∅ (answers (store.getBlob s · (blobKey INDEX)) reachable
      (replicaNodes env nodes replicas INDEX)) = .ok (log.listed.image .str) := by
  have hindex := h.index
  by_cases hempty : log.listed = ∅
  · simp only [hempty, if_true] at hindex
    rw [answers_nothing hindex, hempty]
    rfl
  · simp only [hempty, if_false] at hindex
    obtain ⟨n, hn⟩ := answers_blob hindex hasks
    rw [hn, indexUnion_replicate]

lemma Keeps.listFiles_eq (hreplicas : 1 ≤ replicas ∧ replicas ≤ nodes.length)
    (hasks : ∃ node ∈ replicaNodes env nodes replicas INDEX, Asks reachable node) :
    listFiles env nodes replicas (store.getBlob s) reachable =
      .ok ((log.listed.sort (· ≤ ·)).map .str) :=
  listFiles_eq_ok (rendezvous_replicaNodes hreplicas INDEX) (h.indexUnion_eq hasks)

end

lemma resolveRef_eq (getBlob : String → String → Reply B) (path : String)
    (hreplicas : 1 ≤ replicas ∧ replicas ≤ nodes.length) :
    resolveRef env getBlob none path nodes replicas =
      (winner env path none (answers (getBlob · (blobKey path)) none
        (replicaNodes env nodes replicas path))).mapError .python := by
  rw [resolveRef, readAll, refNodes, rendezvous_replicaNodes hreplicas]
  rfl

section
variable (h : Keeps env store nodes replicas log s) (hreplicas : 1 ≤ replicas ∧ replicas ≤ nodes.length)
include h hreplicas

/-- What is read is what the log says. -/
theorem Keeps.getFile_eq (path : String) :
    getFile env nodes replicas (store.get s) (store.getBlob s) none path =
      log.read env.sha256Hex path := by
  rw [DriveLog.read]
  by_cases hpath : path = INDEX
  · rw [if_pos hpath, hpath, getFile, resolveRef_eq _ _ hreplicas, h.winner_index hreplicas]
    split_ifs
    · rfl
    · rfl
  · rw [if_neg hpath]
    have hwinner := h.winner_path hpath (exists_replicaNode hreplicas path)
    cases hlast : lastTo log.refs path with
    | none =>
      rw [currentRef, hlast] at hwinner
      rw [getFile, resolveRef_eq _ _ hreplicas, hwinner]
      rfl
    | some w =>
      rw [currentRef, hlast] at hwinner
      have hmem := mem_reverse.2 (h.files.stored w (mem_of_lastTo hlast).1)
      obtain ⟨v, hrecent⟩ : ∃ v, lastOf _ w.data = some v :=
        Option.isSome_iff_exists.1 (find?_isSome.2 ⟨w, hmem, decide_eq_true rfl⟩)
      have haccepted := h.files.accepted v (mem_of_lastOf hrecent).1
      exact h.files.holding.getFile_eq hreplicas hwinner rfl hrecent haccepted
        (exists_replicaNode hreplicas _) (rsK_le_assigned haccepted)

end

variable {refs contents : List FileWrite}

lemma KeepsFiles.publishIndex
    (h : KeepsFiles env store nodes replicas refs contents s) (b : B) :
    KeepsFiles env store nodes replicas refs contents
      (publishTo env store nodes replicas s INDEX b) where
  ref path hpath node hnode :=
    (congrFun (getBlob_publishTo_of_ne hpath) node).trans (h.ref path hpath node hnode)
  holding := h.holding.publish _ _
  stored := h.stored
  accepted := h.accepted

lemma KeepsFiles.keeps {paths}
    (h : KeepsFiles env store nodes replicas refs contents s) (hpaths : paths ≠ ∅) :
    Keeps env store nodes replicas ⟨refs, contents, paths⟩
      (publishTo env store nodes replicas s INDEX (listBlob env (paths.sort (· ≤ ·)))) where
  files := h.publishIndex _
  index node hnode := by
    rw [getBlob_publishTo_self hnode, if_neg hpaths]

variable {w : FileWrite}

section
variable (h : KeepsFiles env store nodes replicas refs contents s)
include h

lemma KeepsFiles.publishRef (hmem : w ∈ contents) :
    KeepsFiles env store nodes replicas (refs ++ [w]) contents
      (publishTo env store nodes replicas s w.path ((nextRef w (merkleRoot env.sha256Hex w.data)
        ((currentRef env.sha256Hex refs w.path).map fun r => r.map .str)).toBytes env)) where
  ref path hpath node hnode := by
    by_cases hp : w.path = path
    · subst hp
      rw [getBlob_publishTo_self hnode, currentRef_append_self]
      rfl
    · refine (congrFun (getBlob_publishTo_of_ne (Ne.symm hp)) node).trans ?_
      rw [h.ref path hpath node hnode, currentRef_append_of_ne hp]
  holding := h.holding.publish _ _
  stored v hv := by
    cases mem_append.1 hv with
    | inl hv => exact h.stored v hv
    | inr hv => exact mem_singleton.1 hv ▸ hmem
  accepted := h.accepted

lemma KeepsFiles.storeContent (haccepted : Accepted nodes w.placement)
    (hroots : ∀ v ∈ contents, merkleRoot env.sha256Hex w.data = merkleRoot env.sha256Hex v.data →
      w.data = v.data) :
    KeepsFiles env store nodes replicas refs (contents ++ [w])
      (Drive.storeContent env store nodes replicas s w) where
  ref path hpath node hnode := (congrFun (getBlob_storeContent w) node).trans (h.ref path hpath node hnode)
  holding := h.holding.write hroots
  stored v hv := mem_append_left _ (h.stored v hv)
  accepted v hv := by
    cases mem_append.1 hv with
    | inl hv => exact h.accepted v hv
    | inr hv => exact mem_singleton.1 hv ▸ haccepted

end

section
variable (h : Keeps env store nodes replicas log s) (hreplicas : 1 ≤ replicas ∧ replicas ≤ nodes.length)
include h hreplicas

/-- A write to the path of the index stores its content, and then raises on the index. -/
lemma Keeps.run_putFile_index (haccepted : Accepted nodes w.placement)
    (hpath : w.path = INDEX) (hlisted : log.listed ≠ ∅) :
    run store.step (putFile env nodes replicas w).run s =
      (.error (.python .type), Drive.storeContent env store nodes replicas s w) := by
  have hwinner := h.winner_index hreplicas
  rw [if_neg hlisted] at hwinner
  refine run_bind_error ((run_putContent store hreplicas haccepted s).trans ?_)
  rw [hpath, hwinner]
  rfl

/-- The first write to the path of the index takes its own ref for the index. -/
lemma Keeps.run_putFile_index_first (haccepted : Accepted nodes w.placement)
    (hpath : w.path = INDEX) (hlisted : log.listed = ∅) :
    ∃ ref b, run store.step (putFile env nodes replicas w).run s =
      (.ok ref, publishTo env store nodes replicas
        (publishTo env store nodes replicas (Drive.storeContent env store nodes replicas s w) INDEX b)
        INDEX (listBlob env ((insert INDEX refKeys).sort (· ≤ ·)))) := by
  have hwinner := h.winner_index hreplicas
  rw [if_pos hlisted, ← hpath] at hwinner
  have href := run_putRef store hreplicas haccepted hwinner
  generalize nextRef w (merkleRoot env.sha256Hex w.data) none = ref at href
  rw [hpath] at href
  refine ⟨ref, ref.toBytes env, (run_bind_ok href).trans ?_⟩
  obtain ⟨n, hn⟩ := answers_publishTo store hreplicas
    (Drive.storeContent env store nodes replicas s w) INDEX (ref.toBytes env)
  have hunion := (congrArg (indexUnion env ∅) hn).trans (indexUnion_toBytes ref n)
  refine (run_bind_ok (run_indexAdd store hreplicas hunion)).trans ?_
  rw [hpath]
  rfl

/-- A write keeps the store in step with the log. -/
theorem Keeps.put (hroots : ∀ v ∈ log.contents, merkleRoot env.sha256Hex w.data = merkleRoot env.sha256Hex v.data →
      w.data = v.data) :
    Keeps env store nodes replicas (log.put nodes w)
        (run store.step (putFile env nodes replicas w).run s).2 ∧
      ((∃ ref, (run store.step (putFile env nodes replicas w).run s).1 = .ok ref) ↔
        log.Returns nodes w) := by
  rw [DriveLog.put, DriveLog.Returns]
  by_cases haccepted : Accepted nodes w.placement
  · rw [if_pos haccepted, and_iff_right haccepted]
    have hcontent := h.files.storeContent haccepted hroots
    by_cases hpath : w.path = INDEX
    · rw [if_pos hpath]
      by_cases hlisted : log.listed = ∅
      · obtain ⟨ref, b, hrun⟩ := h.run_putFile_index_first hreplicas haccepted hpath hlisted
        rw [hrun, if_pos hlisted]
        exact ⟨(hcontent.publishIndex b).keeps (Finset.insert_ne_empty _ _),
          iff_of_true ⟨ref, rfl⟩ fun _ => hlisted⟩
      · rw [h.run_putFile_index hreplicas haccepted hpath hlisted, if_neg hlisted]
        refine ⟨⟨hcontent, fun node hnode => ?_⟩, iff_of_false ?_ fun hempty => hlisted (hempty hpath)⟩
        · exact (congrFun (getBlob_storeContent w) node).trans (h.index node hnode)
        · rintro ⟨ref, href⟩
          cases href
    · have hrun := run_putFile store hreplicas haccepted
        (h.winner_path hpath (exists_replicaNode hreplicas _)) hpath
        (h.indexUnion_eq (exists_replicaNode hreplicas INDEX))
      rw [if_neg hpath, hrun]
      refine ⟨?_, iff_of_true ⟨_, rfl⟩ fun h => absurd h hpath⟩
      have hmem : w ∈ log.contents ++ [w] := mem_append_right _ (mem_singleton_self w)
      exact (hcontent.publishRef hmem).keeps (Finset.insert_ne_empty _ _)
  · obtain ⟨e, hrun⟩ := @run_putFile_refused _ _ env store _ replicas _ haccepted s
    rw [hrun, if_neg haccepted]
    refine ⟨h, iff_of_false ?_ fun hreturns => haccepted hreturns.1⟩
    rintro ⟨ref, href⟩
    cases href

end

end

def putAll {σ B : Type} (env : Platform B) (store : MeshStore σ B) (nodes : List String) (replicas : ℕ)
    (writes : List FileWrite) (s : σ) : σ :=
  writes.foldl (fun s w => (run store.step (Drive.putFile env nodes replicas w).run s).2) s

section
variable {nodes : List String} {writes : List FileWrite} {w : FileWrite} {log : DriveLog}

lemma logOf_append : logOf nodes (writes ++ [w]) = (logOf nodes writes).put nodes w := by
  rw [logOf, foldl_append]
  rfl

lemma mem_of_mem_contents {v} (h : v ∈ (logOf nodes writes).contents) : v ∈ writes := by
  induction writes using reverseRecOn with
  | nil => cases h
  | append_singleton writes w ih =>
    rw [logOf_append, DriveLog.put] at h
    by_cases haccepted : Accepted nodes w.placement
    · rw [if_pos haccepted] at h
      split at h <;> exact mem_append.2 ((mem_append.1 h).imp_left ih)
    · rw [if_neg haccepted] at h
      exact mem_append_left _ (ih h)

lemma logOf_eq (haccepted : ∀ w ∈ writes, Accepted nodes w.placement)
    (hpaths : ∀ w ∈ writes, w.path ≠ INDEX) : logOf nodes writes = ⟨writes, writes, pathsOf writes⟩ := by
  induction writes using reverseRecOn with
  | nil => rfl
  | append_singleton writes w ih =>
    have hlast : w ∈ writes ++ [w] := by simp
    have hbefore : ∀ v ∈ writes, v ∈ writes ++ [w] := fun v hv => mem_append_left _ hv
    rw [logOf_append, ih (fun v hv => haccepted v (hbefore v hv)) fun v hv => hpaths v (hbefore v hv),
      DriveLog.put, if_pos (haccepted w hlast), if_neg (hpaths w hlast), pathsOf_append]

end

section
variable {σ B : Type} {env : Platform B} {store : MeshStore σ B} {nodes : List String} {replicas : ℕ}
variable {writes : List FileWrite} {s : σ} {reachable : Option (List String)}

/-- The store is in step with the log after all writes. -/
theorem keeps_putAll (hreplicas : 1 ≤ replicas ∧ replicas ≤ nodes.length)
    (hroots : ∀ w ∈ writes, ∀ v ∈ writes,
      merkleRoot env.sha256Hex w.data = merkleRoot env.sha256Hex v.data → w.data = v.data)
    (hfresh : ∀ node key, store.getBlob s node key = .nothing) :
    Keeps env store nodes replicas (logOf nodes writes) (putAll env store nodes replicas writes s) := by
  induction writes using reverseRecOn with
  | nil =>
    have hholding : Holding env store nodes replicas [] s := by
      refine ⟨?_, ?_⟩
      · intro data w hw
        cases hw
      · intro data w hw
        cases hw
    refine ⟨⟨fun path _ node _ => hfresh _ _, hholding, ?_, ?_⟩, fun node _ => hfresh _ _⟩
    · intro w hw
      cases hw
    · intro w hw
      cases hw
  | append_singleton writes w ih =>
    have hlast : w ∈ writes ++ [w] := by simp
    have hbefore : ∀ v ∈ writes, v ∈ writes ++ [w] := fun v hv => mem_append_left _ hv
    have hkeeps := ih fun v hv u hu => hroots v (hbefore v hv) u (hbefore u hu)
    rw [putAll, foldl_append, foldl_cons, foldl_nil, logOf_append]
    exact (hkeeps.put hreplicas fun v hv => hroots w hlast v (hbefore v (mem_of_mem_contents hv))).1

/-- After a seizure, a path whose ref, manifest and fragments can still be read gives the content of its
last write and a ref that counts its writes, and the listing is the set of written paths. -/
theorem read_your_writes (haccepted : ∀ w ∈ writes, Accepted nodes w.placement)
    (hpaths : ∀ w ∈ writes, w.path ≠ INDEX) (hroots : ∀ w ∈ writes, ∀ v ∈ writes,
      merkleRoot env.sha256Hex w.data = merkleRoot env.sha256Hex v.data → w.data = v.data)
    (hfresh : ∀ node key, store.getBlob s node key = .nothing) :
    (∀ path w v ts mts, lastTo writes path = some w → lastOf writes w.data = some v →
      refNodes env path nodes replicas = .ok ts →
      manifestNodes env (merkleRoot env.sha256Hex w.data) nodes replicas = .ok mts →
      (∃ node ∈ ts, Asks reachable node) → (∃ node ∈ mts, Asks reachable node) →
      (v.placement.rsK ≤ (assigned nodes v.placement.rsN v.placement.shardReplicas).countP
        fun p => ∃ node ∈ p.2, Asks reachable node) →
      ∃ ref, getFile env nodes replicas (store.get (putAll env store nodes replicas writes s))
          (store.getBlob (putAll env store nodes replicas writes s)) reachable path = .ok (w.data, ref) ∧
        ref.version = writes.countP fun w => w.path = path) ∧
    ∀ its, refNodes env INDEX nodes replicas = .ok its → (∃ node ∈ its, Asks reachable node) →
      listFiles env nodes replicas (store.getBlob (putAll env store nodes replicas writes s))
        reachable = .ok (((pathsOf writes).sort (· ≤ ·)).map .str) := by
  have hkeeps : 1 ≤ replicas ∧ replicas ≤ nodes.length →
      Keeps env store nodes replicas ⟨writes, writes, pathsOf writes⟩
        (putAll env store nodes replicas writes s) :=
    fun hreplicas => logOf_eq haccepted hpaths ▸ keeps_putAll hreplicas hroots hfresh
  refine ⟨?_, ?_⟩
  · intro path w v ts mts hlast hrecent hts hmts href hmanifest hfragments
    obtain ⟨hreplicas, rfl⟩ := rendezvous_eq_ok.1 hts
    obtain ⟨-, rfl⟩ := rendezvous_eq_ok.1 hmts
    obtain ⟨hmem, hpath⟩ := mem_of_lastTo hlast
    have hwinner := (hkeeps hreplicas).winner_path (hpath ▸ hpaths w hmem) href
    rw [currentRef, hlast] at hwinner
    refine ⟨NamespaceRef.map .str ⟨path, merkleRoot env.sha256Hex w.data,
      writes.countP fun w => w.path = path, w.now, w.writer⟩, ?_, rfl⟩
    exact (hkeeps hreplicas).files.holding.getFile_eq hreplicas hwinner rfl hrecent
      (haccepted v (mem_of_lastOf hrecent).1) hmanifest hfragments
  · intro its hits hasks
    obtain ⟨hreplicas, rfl⟩ := rendezvous_eq_ok.1 hits
    exact (hkeeps hreplicas).listFiles_eq hreplicas hasks

end

def changedFile : List FileWrite :=
  [⟨"/a", [⟨0x61⟩], "laptop", ⟨1, 0, 1⟩, "2026-01-01T00:00:00+00:00"⟩,
    ⟨"/a", [⟨0x62⟩], "phone", ⟨1, 0, 1⟩, "2026-01-02T00:00:00+00:00"⟩]

/-- After the loss of the node `b` the change is read. -/
theorem read_your_writes_changedFile :
    ∃ ref, getFile textPlatform ["a", "b"] 2
        ((inMemoryMesh ByteArray).get (putAll textPlatform (inMemoryMesh ByteArray) ["a", "b"] 2
          changedFile ([], [])))
        ((inMemoryMesh ByteArray).getBlob (putAll textPlatform (inMemoryMesh ByteArray) ["a", "b"] 2
          changedFile ([], []))) (some ["a"]) "/a" = .ok ([⟨0x62⟩], ref) ∧ ref.version = 2 := by
  have hroots : ∀ w ∈ changedFile, ∀ v ∈ changedFile,
      merkleRoot textPlatform.sha256Hex w.data = merkleRoot textPlatform.sha256Hex v.data →
        w.data = v.data := by
    have hne : merkleRoot sha256HexDigest [⟨0x62⟩] ≠ merkleRoot sha256HexDigest [⟨0x61⟩] :=
      fun h => digest_lie_ne ((String.append_right_inj _).1 h)
    simp only [changedFile, forall_mem_cons, not_mem_nil, false_imp_iff, implies_true, and_true, true_and]
    exact ⟨fun h => absurd h.symm hne, fun h => absurd h hne⟩
  have hreads := @read_your_writes _ _ textPlatform (inMemoryMesh ByteArray) ["a", "b"] 2 changedFile
    ([], []) (some ["a"]) (by decide) (by decide) hroots (fun _ _ => rfl)
  refine hreads.1 "/a" ⟨"/a", [⟨0x62⟩], "phone", ⟨1, 0, 1⟩, "2026-01-02T00:00:00+00:00"⟩ _ _ _ rfl rfl
    refNodes_sample (rendezvous_replicaNodes (by decide) _) ?_ ?_ ?_
  · exact ⟨"a", by decide, fun r hr => Option.some.inj hr ▸ by decide⟩
  · exact ⟨"a", by decide +kernel, fun r hr => Option.some.inj hr ▸ by decide⟩
  · decide +kernel

end SocioWorkspace.Drive
