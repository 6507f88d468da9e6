import SocioWorkspace.Lib.Search

/-!
# Containment model

Embedding of `gbrg-core/src/containment.rs`: which nodes a foothold can still reach once a set of nodes has
been isolated. `GraphIndex` is the frozen index of the graph substrate (`hg_analytics`), which the repository
does not define: its accessors are fields, and so is what is relied on, that `dense`/`original` are inverse
to each other and that the neighbour accessors list the endpoints of the edges at a node. `bfs_on_csr` is the
parameter `bfsOnCsr`. The loop of `residual_bfs` is `Search.run` with one turn for every node.
-/

namespace SocioWorkspace.Containment

abbrev NodeId := UInt64

/-- Which way reachability flows (Rust `Direction`). -/
inductive Direction where
  | downstream
  | upstream
deriving DecidableEq, Repr

/-- How much of a cut node's connectivity is severed (Rust `SeverScope`). -/
inductive SeverScope where
  | full
  | selective (keepLabels : List String)
deriving DecidableEq, Repr

/-- The tag of a scope in a reading (Rust `SeverScope::as_str`). -/
def SeverScope.asStr : SeverScope → String
  | .full => "full"
  | .selective _ => "selective"

/-- The frozen graph index (Rust `hg_analytics::GraphIndex`), with what is relied on as fields. -/
structure GraphIndex where
  nodeCount : Nat
  dense : NodeId → Option (Fin nodeCount)
  original : Fin nodeCount → NodeId
  /-- The labelled edges `from --label--> to` of the frozen graph. -/
  edges : List (Fin nodeCount × String × Fin nodeCount)
  outNeighbors : Fin nodeCount → Option String → List (Fin nodeCount)
  inNeighbors : Fin nodeCount → Option String → List (Fin nodeCount)
  outOff : List UInt32
  outNbr : List UInt32
  inOff : List UInt32
  inNbr : List UInt32
  dense_original : ∀ d, dense (original d) = some d
  original_dense : ∀ id d, dense id = some d → original d = id
  mem_outNeighbors : ∀ d label v,
    v ∈ outNeighbors d label ↔ ∃ l, (d, l, v) ∈ edges ∧ (label = none ∨ label = some l)
  mem_inNeighbors : ∀ d label v,
    v ∈ inNeighbors d label ↔ ∃ l, (v, l, d) ∈ edges ∧ (label = none ∨ label = some l)

/-- An index with the given node ids and edges, for graphs that are written down. -/
def GraphIndex.ofEdges (ids : List NodeId) (nodup : ids.Nodup)
    (edges : List (Fin ids.length × String × Fin ids.length)) : GraphIndex :=
  let out (d : Fin ids.length) (label : Option String) : List (Fin ids.length) :=
    (edges.filter fun e => e.1 = d ∧ (label = none ∨ label = some e.2.1)).map (·.2.2)
  let inn (d : Fin ids.length) (label : Option String) : List (Fin ids.length) :=
    (edges.filter fun e => e.2.2 = d ∧ (label = none ∨ label = some e.2.1)).map (·.1)
  let off (row : Fin ids.length → List (Fin ids.length)) : List UInt32 :=
    ((List.finRange ids.length).map fun d => (row d).length.toUInt32).scanl (· + ·) 0
  let nbr (row : Fin ids.length → List (Fin ids.length)) : List UInt32 :=
    (List.finRange ids.length).flatMap fun d => (row d).map (·.val.toUInt32)
  { nodeCount := ids.length
    dense := fun id => (List.finRange ids.length).find? fun d => ids.get d = id
    original := ids.get
    edges
    outNeighbors := out
    inNeighbors := inn
    outOff := off (out · none)
    outNbr := nbr (out · none)
    inOff := off (inn · none)
    inNbr := nbr (inn · none)
    dense_original := by
      intro d
      cases h : (List.finRange ids.length).find? fun d' => ids.get d' = ids.get d with
      | none => simpa using List.find?_eq_none.mp h d (List.mem_finRange d)
      | some d' =>
        have e := List.find?_some h
        rw [decide_eq_true_eq, List.nodup_iff_injective_get.mp nodup |>.eq_iff] at e
        rw [e]
    original_dense := by
      intro id d h
      simpa using List.find?_some h
    mem_outNeighbors := by
      intro d label v
      simp only [out, List.mem_map, List.mem_filter, decide_eq_true_eq, Prod.exists]
      refine ⟨?_, ?_⟩
      · intro ⟨_, l, _, ⟨hm, rfl, hl⟩, rfl⟩
        exact ⟨l, hm, hl⟩
      · intro ⟨l, hm, hl⟩
        exact ⟨d, l, v, ⟨hm, rfl, hl⟩, rfl⟩
    mem_inNeighbors := by
      intro d label v
      simp only [inn, List.mem_map, List.mem_filter, decide_eq_true_eq, Prod.exists]
      refine ⟨?_, ?_⟩
      · intro ⟨_, l, _, ⟨hm, rfl, hl⟩, rfl⟩
        exact ⟨l, hm, hl⟩
      · intro ⟨l, hm, hl⟩
        exact ⟨v, l, d, ⟨hm, rfl, hl⟩, rfl⟩ }

/-- The distance vector of the substrate's `bfs_on_csr(n, off, nbr, src)`, one entry a node. -/
abbrev BfsOnCsr := (n : Nat) → List UInt32 → List UInt32 → Fin n → Fin n → UInt32

/-- Dense neighbours in a direction, by label if one is given (Rust `neighbors`). -/
def neighbors (index : GraphIndex) (d : Fin index.nodeCount) (label : Option String) :
    Direction → List (Fin index.nodeCount)
  | .downstream => index.outNeighbors d label
  | .upstream => index.inNeighbors d label

/-- Every node reachable from `source`, without `source` itself (Rust `reachable_set`). -/
def reachableSet (bfsOnCsr : BfsOnCsr) (index : GraphIndex) (source : NodeId) (dir : Direction) :
    List NodeId :=
  match index.dense source with
  | none => []
  | some src =>
    let (off, nbr) := match dir with
      | .downstream => (index.outOff, index.outNbr)
      | .upstream => (index.inOff, index.inNbr)
    let dist := bfsOnCsr index.nodeCount off nbr src
    -- `u32::MAX` marks a node that the traversal did not reach
    ((List.finRange index.nodeCount).filter fun i => i ≠ src ∧ dist i ≠ 4294967295).map
      index.original

/-- Drop the repetitions that stand next to each other (Rust `Vec::dedup`). -/
def dedup {α : Type*} [DecidableEq α] : List α → List α
  | [] => []
  | [x] => [x]
  | x :: y :: rest => if x = y then dedup (y :: rest) else x :: dedup (y :: rest)

/-- The nodes to expand and the terminal nodes of `d` under the sever rules (Rust `successors`). -/
def successors (index : GraphIndex) (cut : List (Fin index.nodeCount)) (scope : SeverScope)
    (allow : List (Fin index.nodeCount)) (dir : Direction) (d : Fin index.nodeCount) :
    List (Fin index.nodeCount) × List (Fin index.nodeCount) :=
  if d ∉ cut then (neighbors index d none dir, [])
  else
    let terminal := (neighbors index d none dir).filter (· ∈ allow)
    let expand := match scope with
      | .full => []
      | .selective keepLabels =>
        let out := keepLabels.flatMap fun label => neighbors index d (some label) dir
        (dedup (out.insertionSort (· ≤ ·))).filter (· ∉ allow)
    (expand, terminal)

/-- `successors` on dense indices; an id that the index does not know is ignored. -/
def severed (index : GraphIndex) (cutNodes : List NodeId) (scope : SeverScope)
    (allow : List NodeId) (dir : Direction) :
    Fin index.nodeCount → List (Fin index.nodeCount) × List (Fin index.nodeCount) :=
  successors index (cutNodes.filterMap index.dense) scope (allow.filterMap index.dense) dir

/-- The cut-aware search (Rust `residual_bfs`). -/
def residualBfs (index : GraphIndex) (source : NodeId) (cutNodes : List NodeId)
    (scope : SeverScope) (allow : List NodeId) (dir : Direction) : List (Fin index.nodeCount) :=
  match index.dense source with
  | none => []
  | some src => (Search.run (severed index cutNodes scope allow dir) index.nodeCount src).reached

/-- Rust `ContainmentReading`. -/
structure ContainmentReading where
  source : NodeId
  direction : Direction
  scope : String
  cutNodes : List NodeId
  allow : List NodeId
  baselineReachable : List NodeId
  residualReachable : List NodeId
  contained : List NodeId
deriving DecidableEq, Repr

/-- What `source` still reaches once `cutNodes` are isolated (Rust `sever_residual`). -/
def severResidual (bfsOnCsr : BfsOnCsr) (index : GraphIndex) (source : NodeId)
    (cutNodes : List NodeId) (scope : SeverScope) (allow : List NodeId) (dir : Direction) :
    ContainmentReading :=
  let baseline := reachableSet bfsOnCsr index source dir
  let residual := ((residualBfs index source cutNodes scope allow dir).map
    index.original).insertionSort (· ≤ ·)
  let contained := (baseline.filter (· ∉ residual)).insertionSort (· ≤ ·)
  { source
    direction := dir
    scope := scope.asStr
    cutNodes := cutNodes.insertionSort (· ≤ ·)
    allow := allow.insertionSort (· ≤ ·)
    baselineReachable := baseline.insertionSort (· ≤ ·)
    residualReachable := residual
    contained }

section Accessors
variable {index : GraphIndex}

lemma mem_dedup {α : Type*} [DecidableEq α] {l : List α} {x} : x ∈ dedup l ↔ x ∈ l := by
  induction l using dedup.induct with
  | case1 => rfl
  | case2 => rfl
  | case3 y rest ih => simp [dedup, ih]
  | case4 y z rest ne ih => simp [dedup, ne, ih]

lemma dense_eq_some_iff {id d} : index.dense id = some d ↔ index.original d = id := by
  constructor
  · exact index.original_dense id d
  · rintro rfl
    exact index.dense_original d

lemma original_injective : Function.Injective index.original := by
  intro a b e
  have h := index.dense_original a
  rw [e, index.dense_original b] at h
  exact (Option.some.inj h).symm

lemma mem_filterMap_dense {ids : List NodeId} {d} :
    d ∈ ids.filterMap index.dense ↔ index.original d ∈ ids := by
  simp only [List.mem_filterMap, dense_eq_some_iff]
  constructor
  · rintro ⟨id, hm, rfl⟩
    exact hm
  · exact fun hm => ⟨_, hm, rfl⟩

end Accessors

/-- An edge with label `label` leads from `u` to `v`, read in the given direction. -/
def HasEdge (index : GraphIndex) (dir : Direction) (u : NodeId) (label : String) (v : NodeId) :
    Prop :=
  ∃ d e, index.original d = u ∧ index.original e = v ∧ match dir with
    | .downstream => (d, label, e) ∈ index.edges
    | .upstream => (e, label, d) ∈ index.edges

lemma mem_neighbors {index dir label d v} :
    v ∈ neighbors index d label dir ↔
      ∃ l, HasEdge index dir (index.original d) l (index.original v) ∧
        (label = none ∨ label = some l) := by
  have h : ∀ l, HasEdge index dir (index.original d) l (index.original v) ↔ match dir with
      | .downstream => (d, l, v) ∈ index.edges
      | .upstream => (v, l, d) ∈ index.edges := by
    intro l
    constructor
    · rintro ⟨d', v', ed, ev, hm⟩
      rw [original_injective ed, original_injective ev] at hm
      exact hm
    · exact fun hm => ⟨d, v, rfl, rfl, hm⟩
  simp only [h]
  cases dir with
  | downstream => exact index.mem_outNeighbors d label v
  | upstream => exact index.mem_inNeighbors d label v

lemma HasEdge.dense {index dir u l v} (h : HasEdge index dir u l v) :
    ∃ d e, index.original d = u ∧ index.original e = v := by
  obtain ⟨d, e, hd, he, _⟩ := h
  exact ⟨d, e, hd, he⟩

end SocioWorkspace.Containment
