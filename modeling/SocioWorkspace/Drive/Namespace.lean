import SocioWorkspace.Holographic.Propagation
import SocioWorkspace.Lib.PyJson

/-!
# Names and manifests on the mesh

Model of the reading side of `automation/mesh_namespace.py` and `automation/manifest_store.py`. A blob is
replicated to the nodes of highest rendezvous weight for its name. What is published has texts in its fields,
what is decoded has any values.
-/

namespace SocioWorkspace.Drive
open Python Holographic List SortedMap

/-- What a node answers to `get_blob`. -/
inductive Reply (B : Type) where
  | blob (b : B)
  | nothing
  | raises

def Reply.toOption {B : Type} : Reply B → Option B
  | .blob b => some b
  | .nothing => none
  | .raises => none

/-- The exceptions of the Drive. `untyped` is what `fetch` does with fields of other types than the
published ones. -/
inductive DriveError where
  | propagate (error : PropagateError)
  | replicas (nodes : ℕ)
  | python (error : PyError)
  | manifestUnavailable (root : String) (replicas : ℕ)
  | fileNotFound (path : String)
  | fetch (error : FetchError)
  | untyped

/-- What the Drive takes from elsewhere. A weight is the hexadecimal digest, which orders as the digest
does. -/
structure Platform (B : Type) where
  sha256Hex : Bytes → String
  weight : String → String → String
  json : JsonCodec B
  py : IntBuiltin
  cmp : Compare

def sha256Weight (key node : String) : String := sha256 (key ++ "|" ++ node).toList

/-- Python `NamespaceRef`; its fields are texts, or any values once decoded. -/
structure NamespaceRef (F : Type) where
  path : F
  root : F
  version : ℤ
  updatedAt : F
  writer : F
deriving DecidableEq

def NamespaceRef.map {F G : Type} (f : F → G) (r : NamespaceRef F) : NamespaceRef G :=
  ⟨f r.path, f r.root, r.version, f r.updatedAt, f r.writer⟩

/-- A decoded `PropagationManifest`. -/
structure StoredManifest where
  root : Value
  k : ℤ
  n : ℤ
  origLen : ℤ
  tier : Value
  replicas : ℤ
  fragmentNodes : SortedMap ℤ (List Value)

/-- Python `_blob_key`. -/
def blobKey (name : String) : String := "ns:" ++ name

def manifestKey (root : String) : String := "manifest:" ++ root

section
variable {B : Type} (env : Platform B)

def rendezvous (key : String) (nodes : List String) (replicas : ℕ) :
    Except DriveError (List String) :=
  if replicas < 1 ∨ nodes.length < replicas then .error (.replicas nodes.length)
  else .ok ((nodes.dedup.insertionSort fun a b => env.weight key b ≤ env.weight key a).take replicas)

/-- Python `ref_nodes`. -/
def refNodes := rendezvous env

/-- Python `manifest_nodes`. -/
def manifestNodes := rendezvous env

def answers (getBlob : String → Reply B) (reachable : Option (List String))
    (targets : List String) : List B :=
  targets.filterMap fun node => if Asks reachable node then (getBlob node).toOption else none

/-- Python `read_all`. -/
def readAll (getBlob : String → String → Reply B) (reachable : Option (List String)) (name : String)
    (nodes : List String) (replicas : ℕ) : Except DriveError (List B) := do
  let targets ← refNodes env name nodes replicas
  return answers (getBlob · (blobKey name)) reachable targets

def NamespaceRef.doc (r : NamespaceRef String) : List (String × Value) :=
  [("path", .str r.path), ("root", .str r.root), ("version", .int r.version),
    ("updated_at", .str r.updatedAt), ("writer", .str r.writer)]

/-- Python `NamespaceRef.to_bytes`. -/
def NamespaceRef.toBytes (r : NamespaceRef String) : B := env.json.dumps (.dict (.ofList r.doc))

/-- Python `NamespaceRef.from_bytes`. -/
def fromBytes (b : B) : Except PyError (NamespaceRef Value) := do
  let d ← env.json.loads b
  let path ← item d "path"
  let root ← item d "root"
  let version ← item d "version" >>= env.py.int
  let updatedAt ← item d "updated_at"
  let writer ← item d "writer"
  return ⟨path, root, version, updatedAt, writer⟩

/-- Python `r._key() > best._key()`, a comparison of tuples. -/
def keyGt (r best : NamespaceRef Value) : Except PyError Bool :=
  if r.version ≠ best.version then .ok (best.version < r.version)
  else do
    if !(← env.cmp.eq r.updatedAt best.updatedAt) then env.cmp.gt r.updatedAt best.updatedAt
    else if !(← env.cmp.eq r.writer best.writer) then env.cmp.gt r.writer best.writer
    else return false

def better (best : Option (NamespaceRef Value)) (r : NamespaceRef Value) :
    Except PyError (NamespaceRef Value) :=
  match best with
  | none => .ok r
  | some best => do
    if ← keyGt env r best then return r else return best

/-- The loop of `resolve_ref`: a blob that is no ref, or one for another path, is passed over. -/
def winner (path : String) : Option (NamespaceRef Value) → List B →
    Except PyError (Option (NamespaceRef Value))
  | best, [] => .ok best
  | best, b :: blobs =>
    match fromBytes env b with
    | .error .value => winner path best blobs
    | .error .key => winner path best blobs
    | .error e => .error e
    | .ok r =>
      if r.path ≠ .str path then winner path best blobs
      else do
        let r ← better env best r
        winner path (some r) blobs

/-- Python `resolve_ref`. -/
def resolveRef (getBlob : String → String → Reply B) (reachable : Option (List String))
    (path : String) (nodes : List String) (replicas : ℕ) :
    Except DriveError (Option (NamespaceRef Value)) := do
  let blobs ← readAll env getBlob reachable path nodes replicas
  (winner env path none blobs).mapError .python

def nodesDoc (fragmentNodes : List (ℕ × List String)) : List (String × Value) :=
  fragmentNodes.map fun p => (toString p.1, .list (p.2.map .str))

def manifestDoc (m : PropagationManifest) : List (String × Value) :=
  [("root", .str m.root), ("k", .int m.k), ("n", .int m.n), ("orig_len", .int m.origLen),
    ("tier", .str m.tier), ("replicas", .int m.replicas),
    ("fragment_nodes", .dict (.ofList (nodesDoc m.fragmentNodes)))]

/-- Python `_serialize`. -/
def serialize (m : PropagationManifest) : B := env.json.dumps (.dict (.ofList (manifestDoc m)))

def readNodes (m : String × Value) : Except PyError (ℤ × List Value) := do
  let x ← env.py.int (.str m.1)
  let nl ← toList m.2
  return (x, nl)

/-- Python `_deserialize`. -/
def deserialize (b : B) : Except PyError StoredManifest := do
  let d ← env.json.loads b
  let root ← item d "root"
  let k ← item d "k" >>= env.py.int
  let n ← item d "n" >>= env.py.int
  let origLen ← item d "orig_len" >>= env.py.int
  let tier ← item d "tier"
  let replicas ← item d "replicas" >>= env.py.int
  let fragmentNodes ← item d "fragment_nodes"
  let fragmentNodes ← orRaise .attr fragmentNodes.asDict
  let members ← fragmentNodes.members.mapM (readNodes env)
  return ⟨root, k, n, origLen, tier, replicas, .ofList members⟩

/-- The loop of `resolve_manifest`: a manifest for another root is passed over. -/
def firstManifest (root : String) : List B → Except PyError (Option StoredManifest)
  | [] => .ok none
  | b :: blobs => do
    let m ← deserialize env b
    if m.root ≠ .str root then firstManifest root blobs else return some m

/-- Python `resolve_manifest`. -/
def resolveManifest (getBlob : String → String → Reply B) (reachable : Option (List String))
    (root : String) (nodes : List String) (replicas : ℕ) : Except DriveError StoredManifest := do
  let targets ← manifestNodes env root nodes replicas
  let blobs := answers (getBlob · (manifestKey root)) reachable targets
  match ← (firstManifest env root blobs).mapError .python with
  | some m => return m
  | none => throw (.manifestUnavailable root replicas)

variable {env} {key : String} {nodes targets : List String} {replicas : ℕ}

lemma blobKey_inj {name name'} (h : blobKey name = blobKey name') : name = name' :=
  (String.append_right_inj _).1 h

lemma blobKey_ne_manifestKey (name root : String) : blobKey name ≠ manifestKey root := by
  intro h
  have hchars := congrArg String.toList h
  simp [blobKey, manifestKey] at hchars

lemma rendezvous_eq_ok : rendezvous env key nodes replicas = .ok targets ↔
    (1 ≤ replicas ∧ replicas ≤ nodes.length) ∧
      (nodes.dedup.insertionSort fun a b => env.weight key b ≤ env.weight key a).take replicas =
        targets := by
  rw [rendezvous]
  split_ifs with h
  · refine iff_of_false nofun ?_
    intro hok
    omega
  · rw [Except.ok.injEq, and_iff_right]
    omega

lemma targets_ne_nil (h : rendezvous env key nodes replicas = .ok targets) : targets ≠ [] := by
  obtain ⟨hreplicas, rfl⟩ := rendezvous_eq_ok.1 h
  obtain ⟨node, hnode⟩ := exists_mem_of_length_pos (lt_of_lt_of_le hreplicas.1 hreplicas.2)
  have hmem : node ∈ nodes.dedup.insertionSort fun a b => env.weight key b ≤ env.weight key a :=
    (perm_insertionSort _ _).mem_iff.2 (List.mem_dedup.2 hnode)
  rw [← length_pos_iff, length_take]
  exact lt_min hreplicas.1 (length_pos_of_mem hmem)

variable {getBlob : String → Reply B}

lemma mem_answers {reachable b} :
    b ∈ answers getBlob reachable targets ↔
      ∃ node ∈ targets, Asks reachable node ∧ (getBlob node).toOption = some b := by
  rw [answers, mem_filterMap]
  refine exists_congr fun node => and_congr_right fun _ => ?_
  split_ifs with h
  · rw [and_iff_right h]
  · exact iff_of_false nofun fun hn => h hn.1

lemma answers_map {f : String → B} (h : ∀ node ∈ targets, getBlob node = .blob (f node)) :
    answers getBlob none targets = targets.map f := by
  rw [answers, ← filterMap_eq_map]
  refine filterMap_congr fun node hnode => ?_
  rw [if_pos (asks_none node), h node hnode]
  rfl

def stored (m : PropagationManifest) : StoredManifest where
  root := .str m.root
  k := m.k
  n := m.n
  origLen := m.origLen
  tier := .str m.tier
  replicas := m.replicas
  fragmentNodes := .ofList (m.fragmentNodes.map fun p => ((p.1 : ℤ), p.2.map .str))

variable (env)

/-- A ref that was published is read back. -/
theorem fromBytes_toBytes (r : NamespaceRef String) : fromBytes env (r.toBytes env) = .ok (r.map .str) := by
  have hitem : ∀ {k v}, (k, v) ∈ r.doc → item (.dict (.ofList r.doc)) k = .ok v := by
    apply item_ofList
    show ["path", "root", "version", "updated_at", "writer"].Nodup
    decide
  refine bind_eq_ok.2 ⟨_, env.json.loads_dumps _, ?_⟩
  refine bind_eq_ok.2 ⟨.str r.path, hitem (by simp [NamespaceRef.doc]), ?_⟩
  refine bind_eq_ok.2 ⟨.str r.root, hitem (by simp [NamespaceRef.doc]), ?_⟩
  refine bind_eq_ok.2 ⟨r.version, ?_, ?_⟩
  · exact bind_eq_ok.2 ⟨.int r.version, hitem (by simp [NamespaceRef.doc]), rfl⟩
  refine bind_eq_ok.2 ⟨.str r.updatedAt, hitem (by simp [NamespaceRef.doc]), ?_⟩
  exact bind_eq_ok.2 ⟨.str r.writer, hitem (by simp [NamespaceRef.doc]), rfl⟩

lemma readNodes_nodesDoc {fragmentNodes} (hnodup : (fragmentNodes.map Prod.fst).Nodup) :
    ∃ members, (ofList (nodesDoc fragmentNodes)).members.mapM (readNodes env) = .ok members ∧
      ofList members =
        .ofList (fragmentNodes.map fun p => ((p.1 : ℤ), p.2.map .str)) := by
  let read : String × Value → ℤ × List Value := fun m => (readNodes env m).toOption.getD (0, [])
  have hread : ∀ p : ℕ × List String, readNodes env (toString p.1, .list (p.2.map .str)) =
      .ok ((p.1 : ℤ), p.2.map .str) := by
    intro p
    refine bind_eq_ok.2 ⟨_, env.py.int_str_toString p.1, ?_⟩
    exact bind_eq_ok.2 ⟨_, toList_list _, rfl⟩
  have hkeys : ((nodesDoc fragmentNodes).map Prod.fst).Nodup := by
    rw [nodesDoc, map_map]
    exact (map_map (f := Prod.fst) (g := fun n : ℕ => toString n)) ▸ hnodup.map toString_injective
  have hperm := perm_members_ofList hkeys
  have hmap : (nodesDoc fragmentNodes).map read =
      fragmentNodes.map fun p => ((p.1 : ℤ), p.2.map .str) := by
    rw [nodesDoc, map_map]
    refine map_congr_left fun p _ => ?_
    show (readNodes env (toString p.1, .list (p.2.map .str))).toOption.getD (0, []) = _
    rw [hread]
    rfl
  refine ⟨_, mapM_eq_ok (g := read) fun m hm => ?_, ?_⟩
  · obtain ⟨p, -, rfl⟩ := mem_map.1 (hperm.subset hm)
    show readNodes env _ = .ok ((readNodes env _).toOption.getD (0, []))
    rw [hread]
    rfl
  · rw [← hmap]
    apply ofList_perm (hperm.map read)
    rw [hmap, map_map]
    exact (map_map (f := Prod.fst) (g := fun n : ℕ => (n : ℤ))) ▸ hnodup.map Nat.cast_injective

/-- A manifest that was published is read back. -/
theorem deserialize_serialize {m} (hnodup : (m.fragmentNodes.map Prod.fst).Nodup) :
    deserialize env (serialize env m) = .ok (stored m) := by
  have hitem : ∀ {k v}, (k, v) ∈ manifestDoc m →
      item (.dict (.ofList (manifestDoc m))) k = .ok v := by
    apply item_ofList
    show ["root", "k", "n", "orig_len", "tier", "replicas", "fragment_nodes"].Nodup
    decide
  have hint : ∀ {k} {n : ℤ}, (k, .int n) ∈ manifestDoc m →
      (item (.dict (.ofList (manifestDoc m))) k >>= env.py.int) = .ok n :=
    fun h => bind_eq_ok.2 ⟨_, hitem h, rfl⟩
  obtain ⟨members, hmembers, hnodes⟩ := readNodes_nodesDoc env hnodup
  refine bind_eq_ok.2 ⟨_, env.json.loads_dumps _, ?_⟩
  refine bind_eq_ok.2 ⟨.str m.root, hitem (by simp [manifestDoc]), ?_⟩
  refine bind_eq_ok.2 ⟨m.k, hint (by simp [manifestDoc]), ?_⟩
  refine bind_eq_ok.2 ⟨m.n, hint (by simp [manifestDoc]), ?_⟩
  refine bind_eq_ok.2 ⟨m.origLen, hint (by simp [manifestDoc]), ?_⟩
  refine bind_eq_ok.2 ⟨.str m.tier, hitem (by simp [manifestDoc]), ?_⟩
  refine bind_eq_ok.2 ⟨m.replicas, hint (by simp [manifestDoc]), ?_⟩
  refine bind_eq_ok.2 ⟨.dict (.ofList (nodesDoc m.fragmentNodes)), hitem (by simp [manifestDoc]), ?_⟩
  refine bind_eq_ok.2 ⟨.ofList (nodesDoc m.fragmentNodes), ?_, ?_⟩
  · rw [Value.asDict_dict]
    rfl
  refine bind_eq_ok.2 ⟨members, hmembers, ?_⟩
  rw [hnodes]
  rfl

end

end SocioWorkspace.Drive
