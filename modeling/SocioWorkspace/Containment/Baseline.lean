import SocioWorkspace.Containment.Residual

/-!
# Baseline and residual

The baseline of a reading is computed by the substrate's `bfs_on_csr`, the residual by the repository's own
search. What is relied on in the substrate is carried by two structures: the arrays of a `CsrIndex` hold its
neighbour lists, and a `CsrBfs` gives a distance to exactly the nodes that can be reached.
-/

namespace SocioWorkspace.Csr

/-- Row `d` of compressed rows: all entries, and the offset of each row. -/
def row (off nbr : List UInt32) (d : Nat) : List UInt32 :=
  (nbr.take (off.getD (d + 1) 0).toNat).drop (off.getD d 0).toNat

/-- The arrays hold the successors of each node of a graph with fewer than `2 ^ 32` nodes. -/
structure Encodes (n : Nat) (off nbr : List UInt32) (adj : Fin n → List (Fin n)) : Prop where
  small : n < 2 ^ 32
  row : ∀ d v : Fin n, v.val.toUInt32 ∈ Csr.row off nbr d ↔ v ∈ adj d

end SocioWorkspace.Csr

namespace SocioWorkspace.Containment
open Relation

structure CsrIndex extends GraphIndex where
  out_csr : Csr.Encodes nodeCount outOff outNbr (outNeighbors · none)
  in_csr : Csr.Encodes nodeCount inOff inNbr (inNeighbors · none)

/-- A search over compressed rows gives a distance to the nodes it can reach, and `u32::MAX` to all
others. -/
structure CsrBfs where
  bfsOnCsr : BfsOnCsr
  marks : ∀ {n off nbr adj}, Csr.Encodes n off nbr adj → ∀ src v,
    bfsOnCsr n off nbr src v ≠ 4294967295 ↔ ReflTransGen (fun d v => v ∈ adj d) src v

/-- Such a search exists: the nodes that it can reach are at the distance 0. -/
noncomputable instance : Inhabited CsrBfs where
  default := by
    classical
    refine ⟨fun n off nbr src v => if ReflTransGen (fun d v : Fin n =>
      v.val.toUInt32 ∈ Csr.row off nbr d) src v then 0 else 4294967295, ?_⟩
    intro n off nbr adj enc src v
    simp only [enc.row]
    split_ifs with h
    · exact iff_of_true (by decide) h
    · exact iff_of_false (fun hne => hne rfl) h

/-- Such an index exists: the arrays of `twoPaths` hold its neighbour lists. -/
def twoPathsCsr : CsrIndex :=
  { twoPaths with
    out_csr := ⟨by decide, by decide +kernel⟩
    in_csr := ⟨by decide, by decide +kernel⟩ }

section Baseline
variable {bfs : CsrBfs} {index : CsrIndex} {source : NodeId} {cutNodes : List NodeId}
  {scope : SeverScope} {allow : List NodeId} {dir : Direction}

/-- The edges of the graph lead from `src` to a node. -/
def EdgeReach (index : GraphIndex) (dir : Direction) (src v : Fin index.nodeCount) : Prop :=
  ReflTransGen (fun d v => v ∈ neighbors index d none dir) src v

variable (bfs dir) in
lemma reachableSet_some {src} (hs : index.dense source = some src) :
    ∃ dist : Fin index.nodeCount → UInt32,
      reachableSet bfs.bfsOnCsr index.toGraphIndex source dir =
        ((List.finRange index.nodeCount).filter fun i => i ≠ src ∧ dist i ≠ 4294967295).map
          index.original ∧
      ∀ a, dist a ≠ 4294967295 ↔ EdgeReach index.toGraphIndex dir src a := by
  unfold reachableSet
  rw [hs]
  cases dir with
  | downstream => exact ⟨_, rfl, bfs.marks index.out_csr src⟩
  | upstream => exact ⟨_, rfl, bfs.marks index.in_csr src⟩

lemma mem_reachableSet {v} : v ∈ reachableSet bfs.bfsOnCsr index.toGraphIndex source dir ↔
    ∃ src a, index.dense source = some src ∧ index.original a = v ∧ a ≠ src ∧
      EdgeReach index.toGraphIndex dir src a := by
  cases hs : index.dense source with
  | none =>
    unfold reachableSet
    rw [hs]
    simp
  | some src =>
    obtain ⟨dist, e, marks⟩ := reachableSet_some bfs dir hs
    rw [e, List.mem_map]
    refine ⟨?_, ?_⟩
    · intro h
      obtain ⟨a, ha, e⟩ := h
      obtain ⟨ne, h⟩ := of_decide_eq_true (List.mem_filter.mp ha).2
      exact ⟨src, a, rfl, e, ne, (marks a).mp h⟩
    · intro h
      obtain ⟨_, a, ⟨⟩, e, ne, h⟩ := h
      exact ⟨a, List.mem_filter.mpr ⟨List.mem_finRange a, decide_eq_true ⟨ne, (marks a).mpr h⟩⟩, e⟩

lemma reachableSet_nodup : (reachableSet bfs.bfsOnCsr index.toGraphIndex source dir).Nodup := by
  unfold reachableSet
  cases index.dense source with
  | none => exact List.nodup_nil
  | some src => exact ((List.nodup_finRange _).filter _).map original_injective

lemma touched_reach {index src a} (h : Search.Touched (severed index cutNodes scope allow dir) src a) :
    EdgeReach index dir src a := by
  have walk : ∀ d, Search.Walk (severed index cutNodes scope allow dir) src d →
      EdgeReach index dir src d := by
    intro d w
    induction w with
    | refl => exact .refl
    | tail _ hm ih => exact ih.tail (severed_subset (.inl hm))
  cases h.reach with
  | inl w => exact walk a w
  | inr h =>
    obtain ⟨d, w, hm⟩ := h
    exact (walk d w).tail (severed_subset (.inr hm))

/-- With nothing cut, the search walks the edges of the graph, and there are no stops. -/
lemma touched_nil_iff {index src a} :
    Search.Touched (severed index [] scope allow dir) src a ↔ EdgeReach index dir src a := by
  refine ⟨touched_reach, fun h => ?_⟩
  have uncut : ∀ d, severed index [] scope allow dir d = (neighbors index d none dir, []) := by
    intro d
    unfold severed successors
    exact if_pos List.not_mem_nil
  refine Search.touched_complete_iff.mpr ?_ a (.inl ?_)
  · intro b _ ⟨w, lv⟩
    obtain ⟨d, -, hm⟩ := lv.stop
    rw [uncut] at hm
    exact absurd hm List.not_mem_nil
  · have e : (fun d v => v ∈ (severed index [] scope allow dir d).1) =
        fun d v => v ∈ neighbors index d none dir := by
      funext d v
      rw [uncut]
    rw [Search.Walk, e]
    exact h

/-- A list of a reading: sorted, without repetitions and without the source. -/
structure Listed (source : NodeId) (ids : List NodeId) : Prop where
  sorted : ids.Pairwise (· ≤ ·)
  nodup : ids.Nodup
  source : source ∉ ids

lemma Listed.insertionSort {ids : List NodeId} (nodup : ids.Nodup) (h : source ∉ ids) :
    Listed source (ids.insertionSort (· ≤ ·)) where
  sorted := List.pairwise_insertionSort _ _
  nodup := (List.perm_insertionSort _ _).nodup_iff.mpr nodup
  source := fun hm => h ((List.mem_insertionSort _).mp hm)

lemma Listed.ext {ids ids'} (h : Listed source ids) (h' : Listed source ids')
    (e : ∀ v, v ∈ ids ↔ v ∈ ids') : ids = ids' :=
  ((List.perm_ext_iff_of_nodup h.nodup h'.nodup).mpr e).eq_of_pairwise
    (fun _ _ _ _ => UInt64.le_antisymm) h.sorted h'.sorted

lemma listed_baseline : Listed source
    (severResidual bfs.bfsOnCsr index.toGraphIndex source cutNodes scope allow
      dir).baselineReachable := by
  refine .insertionSort reachableSet_nodup fun hm => ?_
  obtain ⟨src, a, hs, ea, ne, -⟩ := mem_reachableSet.mp hm
  rw [← ea, index.dense_original] at hs
  exact ne (Option.some.inj hs)

lemma listed_residual {bfsOnCsr} {index : GraphIndex} : Listed source
    (severResidual bfsOnCsr index source cutNodes scope allow dir).residualReachable := by
  refine .insertionSort ?_ fun hm => ?_
  · refine List.Nodup.map original_injective ?_
    unfold residualBfs
    cases index.dense source with
    | none => exact List.nodup_nil
    | some src => exact Search.run_nodup
  · have hm : source ∈ (severResidual bfsOnCsr index source cutNodes scope allow
        dir).residualReachable := (List.mem_insertionSort _).mpr hm
    obtain ⟨src, a, hs, ea, ne, -⟩ := mem_residualReachable.mp hm
    rw [← ea, index.dense_original] at hs
    exact ne (Option.some.inj hs)

lemma mem_contained {bfsOnCsr index v} :
    v ∈ (severResidual bfsOnCsr index source cutNodes scope allow dir).contained ↔
      v ∈ (severResidual bfsOnCsr index source cutNodes scope allow dir).baselineReachable ∧
        v ∉ (severResidual bfsOnCsr index source cutNodes scope allow dir).residualReachable := by
  simp [severResidual]

lemma residual_subset_baseline :
    (severResidual bfs.bfsOnCsr index.toGraphIndex source cutNodes scope allow
        dir).residualReachable ⊆
      (severResidual bfs.bfsOnCsr index.toGraphIndex source cutNodes scope allow
        dir).baselineReachable := by
  intro v hv
  obtain ⟨src, a, hs, ea, ne, ht⟩ := mem_residualReachable.mp hv
  exact (List.mem_insertionSort _).mpr (mem_reachableSet.mpr ⟨src, a, hs, ea, ne, touched_reach ht⟩)

/-- Rust `sever_residual`: the baseline is what the edges lead to, residual and contained part it, all three are
sorted, without repetitions and without the source, and with nothing cut the residual is the baseline of the
compressed rows. -/
theorem severResidual_partition (bfs : CsrBfs) (index : CsrIndex) (source : NodeId)
    (cutNodes : List NodeId) (scope : SeverScope) (allow : List NodeId) (dir : Direction) :
    let reading cut := severResidual bfs.bfsOnCsr index.toGraphIndex source cut scope allow dir
    (∀ v, v ∈ (reading cutNodes).baselineReachable ↔ ∃ src a, index.dense source = some src ∧
      index.original a = v ∧ a ≠ src ∧ EdgeReach index.toGraphIndex dir src a) ∧
    (reading cutNodes).residualReachable ⊆ (reading cutNodes).baselineReachable ∧
    (∀ v, v ∈ (reading cutNodes).contained ↔ v ∈ (reading cutNodes).baselineReachable ∧
      v ∉ (reading cutNodes).residualReachable) ∧
    (reading cutNodes).residualReachable.length + (reading cutNodes).contained.length =
      (reading cutNodes).baselineReachable.length ∧
    Listed source (reading cutNodes).baselineReachable ∧
    Listed source (reading cutNodes).residualReachable ∧
    Listed source (reading cutNodes).contained ∧
    (reading []).residualReachable = (reading []).baselineReachable := by
  intro reading
  have sub : (reading cutNodes).residualReachable ⊆ (reading cutNodes).baselineReachable :=
    residual_subset_baseline
  have base : Listed source (reading cutNodes).baselineReachable := listed_baseline
  have res : Listed source (reading cutNodes).residualReachable := listed_residual
  have cont : Listed source (reading cutNodes).contained := by
    refine .insertionSort (reachableSet_nodup.filter _) fun hm => ?_
    exact base.source ((List.mem_insertionSort _).mpr (List.mem_filter.mp hm).1)
  have reach : ∀ v, v ∈ (reading cutNodes).baselineReachable ↔ ∃ src a, index.dense source = some src ∧
      index.original a = v ∧ a ≠ src ∧ EdgeReach index.toGraphIndex dir src a :=
    fun v => (List.mem_insertionSort _).trans mem_reachableSet
  refine ⟨reach, sub, fun v => mem_contained, ?_, base, res, cont, ?_⟩
  · have perm : ((reading cutNodes).residualReachable ++ (reading cutNodes).contained).Perm
        (reading cutNodes).baselineReachable := by
      refine (List.perm_ext_iff_of_nodup ?_ base.nodup).mpr fun v => ?_
      · exact res.nodup.append cont.nodup fun v hr hc => (mem_contained.mp hc).2 hr
      · rw [List.mem_append, mem_contained]
        have h := @sub v
        tauto
    rw [← List.length_append, perm.length_eq]
  · refine listed_residual.ext listed_baseline fun v => ?_
    rw [mem_residualReachable]
    refine Iff.trans ?_ (reach v).symm
    simp only [touched_nil_iff]

end Baseline

end SocioWorkspace.Containment
