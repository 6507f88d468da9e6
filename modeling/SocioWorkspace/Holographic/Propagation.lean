import SocioWorkspace.Holographic.Ida
import SocioWorkspace.Lib.Json
import SocioWorkspace.Lib.Sha256

/-!
# Propagating and fetching a leaf

Model of the write and read path of `automation/leaf_propagation.py`, with the ternary mesh of
`automation/mesh_topology.py`: `propagate` puts every fragment on some nodes, and `fetch` looks for `k`
answers that decode to the committed root. The transport and the digest are parameters.
-/

namespace SocioWorkspace.Holographic
open SocioWorkspace.Lists List

/-- Python `Tree`: a backend, or a group of subtrees. -/
inductive MeshTree where
  | backend (id : String)
  | group (members : List MeshTree)

def splitSizes (n : ℕ) : List ℕ := (List.range 3).map fun i => n / 3 + if i < n % 3 then 1 else 0

def splitAt (nodes : List String) : ℕ → List ℕ → List (List String)
  | _, [] => []
  | idx, s :: sizes =>
    if s = 0 then splitAt nodes idx sizes
    else (nodes.drop idx).take s :: splitAt nodes (idx + s) sizes

/-- Python `_split3`. -/
def split3 (nodes : List String) : List (List String) := splitAt nodes 0 (splitSizes nodes.length)

variable {nodes part : List String}

lemma length_lt_of_mem_splitAt {idx m sizes}
    (hs : ∀ s ∈ sizes, s < m) (h : part ∈ splitAt nodes idx sizes) : part.length < m := by
  induction sizes generalizing idx with
  | nil => cases h
  | cons s sizes ih =>
    rw [forall_mem_cons] at hs
    rw [splitAt] at h
    by_cases h0 : s = 0
    · rw [if_pos h0] at h
      exact ih hs.2 h
    · rw [if_neg h0] at h
      cases mem_cons.1 h with
      | inl he =>
        rw [he, length_take]
        exact lt_of_le_of_lt (Nat.min_le_left _ _) hs.1
      | inr ht => exact ih hs.2 ht

lemma length_lt_of_mem_split3 (hn : 3 < nodes.length)
    (h : part ∈ split3 nodes) : part.length < nodes.length := by
  refine length_lt_of_mem_splitAt (fun s hs => ?_) h
  obtain ⟨i, -, rfl⟩ := mem_map.1 hs
  split <;> omega

/-- Python `build_tree` of a list that is not empty. -/
def buildTree (nodes : List String) : MeshTree :=
  if nodes.length ≤ 3 then .group (nodes.map .backend)
  else .group ((split3 nodes).attach.map fun part => buildTree part.1)
termination_by nodes.length
decreasing_by exact length_lt_of_mem_split3 (not_le.1 ‹_›) part.2

mutual
/-- Python `leaves`. -/
def MeshTree.leaves : MeshTree → List String
  | .backend id => [id]
  | .group members => leavesAll members

def MeshTree.leavesAll : List MeshTree → List String
  | [] => []
  | t :: ts => t.leaves ++ leavesAll ts
end

/-- Python `Placement`, as far as the dispersal looks at it. -/
structure Placement where
  rsK : ℕ
  rsM : ℕ
  shardReplicas : ℕ

def Placement.rsN (p : Placement) : ℕ := p.rsK + p.rsM

inductive PropagateError where
  | ida (error : IdaError)
  | emptyMesh
  | nodes (total fragments replicas mesh : ℕ)
  | zeroDivision
deriving DecidableEq

/-- Python `_frag_key`. -/
def fragKey (root : String) (index : ℕ) : String := root ++ "#" ++ toString index

/-- The slots of a fragment: `replicas` consecutive ones, strided over the nodes. -/
def slots (ordered : List String) (replicas stride i : ℕ) : List String :=
  (List.range replicas).map fun r =>
    ordered.getD (((i * replicas + r) * stride) % ordered.length) ""

/-- Python `_place`; the slots are counted on from fragment to fragment. -/
def place (nodes : List String) (xs : List ℕ) (replicas : ℕ) :
    Except PropagateError (List (ℕ × List String)) :=
  if nodes = [] then .error .emptyMesh
  else
    let ordered := (buildTree nodes).leaves
    let total := xs.length * replicas
    if ordered.length < total then .error (.nodes total xs.length replicas ordered.length)
    else if total = 0 then .error .zeroDivision
    else
      let stride := max 1 (ordered.length / total)
      .ok (xs.zipIdx.map fun (x, i) => (x, slots ordered replicas stride i))

/-- Python `PropagationManifest`. -/
structure PropagationManifest where
  root : String
  k : ℕ
  n : ℕ
  origLen : ℕ
  tier : String
  replicas : ℕ
  fragmentNodes : List (ℕ × List String)

section
variable (sha256Hex : Bytes → String)

def merkleRoot (leaf : Bytes) : String := "sha256:" ++ sha256Hex leaf

/-- Python `hashlib.sha256(leaf).hexdigest()`, the digest that the source uses. -/
def sha256HexDigest (leaf : Bytes) : String :=
  Sha256.hexdigest (Sha256.digest (leaf.map fun b => b.bits.toNat))

def copies (d : Dispersal) (mapping : List (ℕ × List String)) : List (String × ℕ × Bytes) :=
  mapping.flatMap fun (x, nodes) => nodes.map fun node => (node, x, (d.fragments.lookup x).getD [])

/-- Python `propagate` with a placement; `put` changes the state of the store. -/
def propagate {σ : Type} (put : σ → String → String → Bytes → σ) (leaf : Bytes)
    (nodes : List String) (placement : Placement) (tier : String) (s : σ) :
    Except PropagateError (PropagationManifest × σ) := do
  let d ← (disperse leaf placement.rsK placement.rsN).mapError .ida
  let root := merkleRoot sha256Hex leaf
  let mapping ← place nodes d.xs placement.shardReplicas
  let s' := (copies d mapping).foldl (fun s (node, x, b) => put s node (fragKey root x) b) s
  return (⟨root, placement.rsK, placement.rsN, d.origLen, tier, placement.shardReplicas, mapping⟩, s')

inductive FetchError where
  | leafUnavailable (reachable k : ℕ)
  | integrity (attempts fragments k : ℕ)
  | ida (error : IdaError)
deriving DecidableEq

inductive Answer where
  | bytes (b : Bytes)
  | nothing
  | raises
deriving DecidableEq

/-- The nodes that a fetch asks: all of them, or the reachable ones. -/
def Asks (reachable : Option (List String)) (node : String) : Prop := ∀ r ∈ reachable, node ∈ r

instance (reachable : Option (List String)) (node : String) : Decidable (Asks reachable node) :=
  inferInstanceAs (Decidable (∀ r ∈ reachable, node ∈ r))

lemma asks_none (node : String) : Asks none node := by
  intro r hr
  cases hr

variable (get : String → String → Answer) (reachable : Option (List String))

def firstCopy (key : String)
    (nodes : List String) : Option Bytes :=
  nodes.findSome? fun node =>
    if Asks reachable node then
      match get node key with
      | .bytes b => some b
      | .nothing => none
      | .raises => none
    else none

def gather (manifest : PropagationManifest) : List (ℕ × Bytes) :=
  manifest.fragmentNodes.filterMap fun p =>
    (firstCopy get reachable (fragKey manifest.root p.1) p.2).map fun b => (p.1, b)

def decode (manifest : PropagationManifest) (avail : List (ℕ × Bytes)) (combo : List ℕ) :
    Except IdaError Bytes :=
  reconstruct (combo.map fun x => (x, (avail.lookup x).getD [])) manifest.k manifest.origLen

def search (manifest : PropagationManifest) (avail : List (ℕ × Bytes)) (maxAttempts : ℕ) :
    ℕ → List (List ℕ) → Except FetchError Bytes
  | attempts, [] => .error (.integrity attempts avail.length manifest.k)
  | attempts, combo :: rest =>
    if maxAttempts < attempts + 1 then
      .error (.integrity (attempts + 1) avail.length manifest.k)
    else
      match decode manifest avail combo with
      | .error e => .error (.ida e)
      | .ok b =>
        if merkleRoot sha256Hex b = manifest.root then .ok b
        else search manifest avail maxAttempts (attempts + 1) rest

def MAX_ATTEMPTS : ℕ := 500

/-- Python `fetch`. -/
def fetch (get : String → String → Answer) (reachable : Option (List String)) (maxAttempts : ℕ)
    (manifest : PropagationManifest) : Except FetchError Bytes :=
  let avail := gather get reachable manifest
  if avail.length < manifest.k then .error (.leafUnavailable avail.length manifest.k)
  else search sha256Hex manifest avail maxAttempts 0
    (combinations ((avail.map (·.1)).insertionSort (· ≤ ·)) manifest.k)

lemma leavesAll_eq (ts : List MeshTree) : MeshTree.leavesAll ts = ts.flatMap MeshTree.leaves := by
  induction ts with
  | nil => rfl
  | cons t ts ih => rw [MeshTree.leavesAll, ih, flatMap_cons]

variable (nodes : List String)

lemma flatten_splitAt (idx : ℕ) (sizes : List ℕ) :
    (splitAt nodes idx sizes).flatten = (nodes.drop idx).take sizes.sum := by
  induction sizes generalizing idx with
  | nil => simp [splitAt]
  | cons s sizes ih =>
    rw [splitAt, sum_cons]
    by_cases h0 : s = 0
    · rw [if_pos h0, ih, h0, Nat.zero_add]
    · rw [if_neg h0, flatten_cons, ih, take_add, drop_drop]

lemma flatten_split3 : (split3 nodes).flatten = nodes := by
  have hsum : (splitSizes nodes.length).sum = nodes.length := by
    show nodes.length / 3 + (if 0 < nodes.length % 3 then 1 else 0)
      + (nodes.length / 3 + (if 1 < nodes.length % 3 then 1 else 0)
      + (nodes.length / 3 + (if 2 < nodes.length % 3 then 1 else 0) + 0)) = nodes.length
    split_ifs <;> omega
  rw [split3, flatten_splitAt, hsum, drop_zero, take_length]

/-- The mesh lists the nodes in their order. -/
theorem leaves_buildTree : (buildTree nodes).leaves = nodes := by
  induction hn : nodes.length using Nat.strong_induction_on generalizing nodes with
  | _ n ih =>
    rw [buildTree]
    by_cases h : nodes.length ≤ 3
    · rw [if_pos h, MeshTree.leaves, leavesAll_eq, flatMap_map]
      exact flatMap_singleton' nodes
    · rw [if_neg h, MeshTree.leaves, leavesAll_eq, flatMap_map]
      have hparts : ∀ part ∈ (split3 nodes).attach, (buildTree part.1).leaves = part.1 := by
        intro part _
        have hlt := length_lt_of_mem_split3 (not_le.1 h) part.2
        exact ih part.1.length (hn ▸ hlt) part.1 rfl
      rw [flatMap_def, map_congr_left hparts, attach_map_subtype_val, flatten_split3]

def assigned (n replicas : ℕ) : List (ℕ × List String) :=
  (List.range n).map fun i => (i + 1, slots nodes replicas (max 1 (nodes.length / (n * replicas))) i)

end

lemma place_eq_ok {nodes n replicas mapping} :
    place nodes (range' 1 n) replicas = .ok mapping ↔
      (0 < n * replicas ∧ n * replicas ≤ nodes.length) ∧ assigned nodes n replicas = mapping := by
  have hmap : ∀ stride, ((range' 1 n).zipIdx.map fun (x, i) => (x, slots nodes replicas stride i))
      = (range n).map fun i => (i + 1, slots nodes replicas stride i) := by
    intro stride
    refine ext_getElem (by simp) fun i hi hi' => ?_
    simp [Nat.add_comm]
  unfold place
  simp only [leaves_buildTree, length_range', hmap]
  split_ifs with hempty hfew hzero
  · subst hempty
    refine iff_of_false nofun ?_
    rintro ⟨⟨hpos, hle⟩, -⟩
    exact absurd hpos (not_lt.2 hle)
  · simp [not_le.2 hfew]
  · simp [hzero]
  · rw [Except.ok.injEq]
    exact (and_iff_right ⟨Nat.pos_of_ne_zero hzero, not_lt.1 hfew⟩).symm

lemma disperse_eq_ok {leaf k n d} : disperse leaf k n = .ok d ↔
    (1 ≤ k ∧ k ≤ n ∧ n ≤ 255) ∧ Dispersal.mk k n leaf.length (range' 1 n)
      ((range' 1 n).map fun x => (x, fragment leaf k x)) = d := by
  unfold disperse
  split_ifs with hk
  · rw [Except.ok.injEq, and_iff_right hk]
  · simp [hk]

section
variable {sha256Hex : Bytes → String} {σ : Type} {put : σ → String → String → Bytes → σ}
  {leaf : Bytes} {nodes : List String} {placement : Placement} {tier : String} {s s' : σ}
  {manifest : PropagationManifest}

def manifestOf (sha256Hex : Bytes → String) (leaf : Bytes) (nodes : List String)
    (placement : Placement) (tier : String) : PropagationManifest where
  root := merkleRoot sha256Hex leaf
  k := placement.rsK
  n := placement.rsN
  origLen := leaf.length
  tier := tier
  replicas := placement.shardReplicas
  fragmentNodes := assigned nodes placement.rsN placement.shardReplicas

section
variable (leaf : Bytes) (nodes : List String) (placement : Placement)

def copiesOf :
    List (String × ℕ × Bytes) :=
  (assigned nodes placement.rsN placement.shardReplicas).flatMap fun (x, ns) =>
    ns.map fun node => (node, x, fragment leaf placement.rsK x)

lemma copies_eq :
    copies ⟨placement.rsK, placement.rsN, leaf.length, range' 1 placement.rsN,
      (range' 1 placement.rsN).map fun x => (x, fragment leaf placement.rsK x)⟩
      (assigned nodes placement.rsN placement.shardReplicas) = copiesOf leaf nodes placement := by
  rw [copies, copiesOf]
  refine flatMap_congr fun p hp => map_congr_left fun node _ => ?_
  obtain ⟨i, hi, rfl⟩ := mem_map.1 hp
  have hmem : (i + 1, fragment leaf placement.rsK (i + 1)) ∈
      (range' 1 placement.rsN).map fun x => (x, fragment leaf placement.rsK x) := by
    refine mem_map_of_mem (mem_range'_1.2 ?_)
    have := mem_range.1 hi
    omega
  have hids : (((range' 1 placement.rsN).map fun x =>
      (x, fragment leaf placement.rsK x)).map Prod.fst).Nodup := by
    rw [map_map]
    exact (map_id _).symm ▸ nodup_range'
  have hlookup := (SortedMap.lookup_eq_some hids).2 hmem
  simp only [hlookup, Option.getD_some]

end

/-- When a leaf is written, its manifest, and what was put into the store. -/
theorem propagate_eq_ok :
    propagate sha256Hex put leaf nodes placement tier s = .ok (manifest, s') ↔
      ((1 ≤ placement.rsK ∧ placement.rsN ≤ 255) ∧
        0 < placement.rsN * placement.shardReplicas ∧
        placement.rsN * placement.shardReplicas ≤ nodes.length) ∧
      manifestOf sha256Hex leaf nodes placement tier = manifest ∧
      (copiesOf leaf nodes placement).foldl
        (fun s c => put s c.1 (fragKey (merkleRoot sha256Hex leaf) c.2.1) c.2.2) s = s' := by
  have hle : placement.rsK ≤ placement.rsN := Nat.le_add_right _ _
  constructor
  · intro h
    obtain ⟨d, hd, h⟩ := bind_eq_ok.1 h
    obtain ⟨⟨hk, -, hn⟩, rfl⟩ := disperse_eq_ok.1 (mapError_eq_ok.1 hd)
    obtain ⟨mapping, hm, h⟩ := bind_eq_ok.1 h
    obtain ⟨hnodes, rfl⟩ := place_eq_ok.1 hm
    obtain ⟨rfl, rfl⟩ := Prod.mk.inj (Except.ok.inj h)
    refine ⟨⟨⟨hk, hn⟩, hnodes⟩, rfl, ?_⟩
    rw [copies_eq]
  · rintro ⟨⟨⟨hk, hn⟩, hnodes⟩, rfl, rfl⟩
    refine bind_eq_ok.2 ⟨_, mapError_eq_ok.2 (disperse_eq_ok.2 ⟨⟨hk, hle, hn⟩, rfl⟩), ?_⟩
    refine bind_eq_ok.2 ⟨_, place_eq_ok.2 ⟨hnodes, rfl⟩, ?_⟩
    rw [copies_eq]
    rfl

variable {avail : List (ℕ × Bytes)}

/-- A search returns the first decoding with the root, if no decoding before it raises. -/
lemma search_eq_ok {maxAttempts attempts combos b} :
    search sha256Hex manifest avail maxAttempts attempts combos = .ok b ↔
      ∃ i combo, attempts + i < maxAttempts ∧ combos[i]? = some combo ∧
        decode manifest avail combo = .ok b ∧ merkleRoot sha256Hex b = manifest.root ∧
        ∀ c ∈ combos.take i, ∃ b', decode manifest avail c = .ok b' ∧
          (merkleRoot sha256Hex b' = manifest.root → b' = b) := by
  induction combos generalizing attempts with
  | nil => simp [search]
  | cons combo rest ih =>
    rw [search]
    constructor
    · intro h
      split_ifs at h with hmax
      cases hd : decode manifest avail combo with
      | error e => simp [hd] at h
      | ok b' =>
        simp only [hd] at h
        split_ifs at h with hroot
        · obtain rfl := Except.ok.inj h
          exact ⟨0, combo, by omega, rfl, hd, hroot, by simp⟩
        · obtain ⟨i, c, hi, hc, hdc, hr, hbefore⟩ := ih.1 h
          refine ⟨i + 1, c, by omega, hc, hdc, hr, ?_⟩
          rw [take_succ_cons, forall_mem_cons]
          exact ⟨⟨b', hd, fun hr' => absurd hr' hroot⟩, hbefore⟩
    · rintro ⟨i, c, hi, hc, hdc, hr, hbefore⟩
      rw [if_neg (show ¬ maxAttempts < attempts + 1 by omega)]
      cases i with
      | zero =>
        obtain rfl := Option.some.inj hc
        simp [hdc, hr]
      | succ i =>
        rw [take_succ_cons, forall_mem_cons] at hbefore
        obtain ⟨⟨b', hd, hsame⟩, hbefore⟩ := hbefore
        simp only [hd]
        split_ifs with hroot
        · rw [hsame hroot]
        · exact ih.2 ⟨i, c, by omega, hc, hdc, hr, hbefore⟩

def answering (avail : List (ℕ × Bytes)) : List ℕ := (avail.map (·.1)).insertionSort (· ≤ ·)

lemma length_answering (avail : List (ℕ × Bytes)) : (answering avail).length = avail.length := by
  rw [answering, length_insertionSort, length_map]

variable {get : String → String → Answer} {reachable : Option (List String)}

lemma fetch_eq_search {maxAttempts} (hk : manifest.k ≤ (gather get reachable manifest).length) :
    fetch sha256Hex get reachable maxAttempts manifest =
      search sha256Hex manifest (gather get reachable manifest) maxAttempts 0
        (combinations (answering (gather get reachable manifest)) manifest.k) := by
  rw [fetch, if_neg (not_lt.2 hk)]
  rfl

/-- A fetch returns the first decoding with the root, if no decoding before it raises. -/
theorem fetch_eq_ok
    {maxAttempts b} :
    fetch sha256Hex get reachable maxAttempts manifest = .ok b ↔
      ∃ i combo, i < maxAttempts ∧
        (combinations (answering (gather get reachable manifest)) manifest.k)[i]? = some combo ∧
        decode manifest (gather get reachable manifest) combo = .ok b ∧
        merkleRoot sha256Hex b = manifest.root ∧
        ∀ c ∈ (combinations (answering (gather get reachable manifest)) manifest.k).take i,
          ∃ b', decode manifest (gather get reachable manifest) c = .ok b' ∧
            (merkleRoot sha256Hex b' = manifest.root → b' = b) := by
  by_cases hk : manifest.k ≤ (gather get reachable manifest).length
  · rw [fetch_eq_search hk, search_eq_ok]
    simp only [Nat.zero_add]
  · rw [combinations_eq_nil (by rwa [length_answering, ← not_le]), fetch, if_pos (not_le.1 hk)]
    simp

lemma decode_eq {leaf combo} (hk : 1 ≤ manifest.k)
    (hlen : manifest.origLen = leaf.length) (hcombo : combo.Nodup) (hcount : combo.length = manifest.k)
    (htrue : ∀ x ∈ combo, x ≤ 255 ∧ avail.lookup x = some (fragment leaf manifest.k x)) :
    decode manifest avail combo = .ok leaf := by
  rw [decode, hlen]
  apply reconstruct_eq hk
  · rw [map_map]
    exact (map_id combo).symm ▸ hcombo
  · rw [length_map, hcount]
  · intro p hp
    obtain ⟨x, hx, rfl⟩ := mem_map.1 hp
    obtain ⟨hle, hlookup⟩ := htrue x hx
    refine ⟨hle, ?_⟩
    rw [hlookup, Option.getD_some]

end

section
variable {get : String → String → Answer} {reachable : Option (List String)} {key : String}
  {nodes : List String} {manifest : PropagationManifest}

variable {b : Bytes}

lemma exists_of_firstCopy (h : firstCopy get reachable key nodes = some b) :
    ∃ node ∈ nodes, Asks reachable node ∧ get node key = .bytes b := by
  obtain ⟨node, hnode, h⟩ := exists_of_findSome?_eq_some h
  refine ⟨node, hnode, ?_⟩
  split_ifs at h with hr
  refine ⟨hr, ?_⟩
  cases hg : get node key with
  | bytes b' =>
    rw [hg] at h
    exact congrArg Answer.bytes (Option.some.inj h)
  | nothing | raises => simp [hg] at h

lemma firstCopy_ne_none {node} (hnode : node ∈ nodes)
    (hr : Asks reachable node) (hg : get node key = .bytes b) :
    ∃ b', firstCopy get reachable key nodes = some b' := by
  cases h : firstCopy get reachable key nodes with
  | some b' => exact ⟨b', rfl⟩
  | none =>
    have hn := findSome?_eq_none_iff.1 h node hnode
    rw [if_pos hr, hg] at hn
    cases hn

lemma mem_gather {x} : (x, b) ∈ gather get reachable manifest ↔
    ∃ ns, (x, ns) ∈ manifest.fragmentNodes ∧
      firstCopy get reachable (fragKey manifest.root x) ns = some b := by
  rw [gather, mem_filterMap]
  constructor
  · rintro ⟨⟨y, ns⟩, hmem, h⟩
    obtain ⟨b', hb, h⟩ := Option.map_eq_some_iff.1 h
    obtain ⟨rfl, rfl⟩ := Prod.mk.inj h
    exact ⟨ns, hmem, hb⟩
  · rintro ⟨ns, hmem, h⟩
    exact ⟨(x, ns), hmem, by rw [h, Option.map_some]⟩

lemma map_fst_gather_sublist :
    ((gather get reachable manifest).map (·.1)).Sublist (manifest.fragmentNodes.map (·.1)) := by
  rw [gather]
  induction manifest.fragmentNodes with
  | nil => exact .slnil
  | cons p rest ih =>
    cases h : firstCopy get reachable (fragKey manifest.root p.1) p.2 with
    | none =>
      rw [filterMap_cons_none (by rw [h, Option.map_none])]
      exact ih.cons _
    | some b =>
      rw [filterMap_cons_some (by rw [h, Option.map_some])]
      exact ih.cons_cons _

end

lemma map_fst_assigned (nodes : List String) (n R : ℕ) : (assigned nodes n R).map (·.1) = range' 1 n := by
  rw [assigned, map_map, range'_eq_map_range]
  exact map_congr_left fun i _ => Nat.add_comm i 1

section
variable {sha256Hex : Bytes → String} {leaf : Bytes} {nodes : List String} {placement : Placement}
  {tier : String} {get : String → String → Answer} {reachable : Option (List String)}

lemma nodup_gather :
    ((gather get reachable (manifestOf sha256Hex leaf nodes placement tier)).map (·.1)).Nodup := by
  refine List.Nodup.sublist map_fst_gather_sublist ?_
  show ((assigned nodes _ _).map (·.1)).Nodup
  rw [map_fst_assigned]
  exact nodup_range'

lemma le_of_mem_gather (hn : placement.rsN ≤ 255) {x}
    (hx : x ∈ (gather get reachable (manifestOf sha256Hex leaf nodes placement tier)).map (·.1)) :
    x ≤ 255 := by
  have hrange : x ∈ (assigned nodes placement.rsN placement.shardReplicas).map (·.1) :=
    map_fst_gather_sublist.subset hx
  rw [map_fst_assigned, mem_range'_1] at hrange
  omega

end

end SocioWorkspace.Holographic
