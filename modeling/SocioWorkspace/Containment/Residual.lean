import SocioWorkspace.Containment.Model

/-!
# Residual reachability

What the residual of a sever is for, and when `severResidual` computes it: an un-cut node expands all of its
edges, a cut node only the kept ones and never into an allow-listed endpoint. The search keeps one visited
flag for the two roles of a node, so a node that is met first as the terminal neighbour of a cut node is never
expanded (`Search.Eclipsed`).
-/

namespace SocioWorkspace.Containment
open Relation Search

/-- One step of the sever rule: the walk may go on from `d` to `v`. -/
def ExpandingStep (index : GraphIndex) (cutNodes : List NodeId) (scope : SeverScope)
    (allow : List NodeId) (dir : Direction) (d v : NodeId) : Prop :=
  (d ∉ cutNodes ∧ ∃ l, HasEdge index dir d l v) ∨
  (d ∈ cutNodes ∧ ∃ keepLabels, scope = .selective keepLabels ∧ v ∉ allow ∧
    ∃ l ∈ keepLabels, HasEdge index dir d l v)

/-- What the sever rule leaves reachable from `source`. -/
def Residual (index : GraphIndex) (source : NodeId) (cutNodes : List NodeId) (scope : SeverScope)
    (allow : List NodeId) (dir : Direction) (v : NodeId) : Prop :=
  v ≠ source ∧
    (ReflTransGen (ExpandingStep index cutNodes scope allow dir) source v ∨
      ∃ d, ReflTransGen (ExpandingStep index cutNodes scope allow dir) source d ∧
        d ∈ cutNodes ∧ v ∈ allow ∧ ∃ l, HasEdge index dir d l v)

/-- Whatever lies behind an eclipsed node of a walk is met by another route. -/
def NothingHidden (index : GraphIndex) (source : NodeId) (cutNodes : List NodeId)
    (scope : SeverScope) (allow : List NodeId) (dir : Direction) : Prop :=
  let succ := severed index cutNodes scope allow dir
  ∀ src, index.dense source = some src →
    ∀ a, Search.Walk succ src a → Search.Eclipsed succ src a →
      ∀ v r, (v, r) ∈ Search.touches succ a → Search.Touched succ src v

section Dense
variable {index : GraphIndex} {cutNodes : List NodeId} {scope : SeverScope} {allow : List NodeId}
  {dir : Direction}

lemma mem_severed_expand {d v} :
    v ∈ (severed index cutNodes scope allow dir d).1 ↔
      ExpandingStep index cutNodes scope allow dir (index.original d) (index.original v) := by
  unfold severed successors ExpandingStep
  by_cases hd : index.original d ∈ cutNodes
  · rw [if_neg (not_not_intro (mem_filterMap_dense.2 hd))]
    cases scope with
    | full => simp [hd]
    | selective keepLabels =>
      simp only [List.mem_filter, mem_dedup, List.mem_insertionSort, List.mem_flatMap, mem_neighbors,
        decide_eq_true_eq, mem_filterMap_dense, hd, not_true_eq_false, false_and, false_or, true_and]
      refine ⟨?_, ?_⟩
      · intro h
        obtain ⟨⟨l, hl, l', he, e⟩, ha⟩ := h
        obtain rfl : l = l' := by simpa using e
        exact ⟨keepLabels, rfl, ha, l, hl, he⟩
      · intro h
        obtain ⟨keep, e, ha, l, hl, he⟩ := h
        cases e
        exact ⟨⟨l, hl, l, he, .inr rfl⟩, ha⟩
  · rw [if_pos (mt mem_filterMap_dense.1 hd)]
    simp [mem_neighbors, hd]

lemma mem_severed_terminal {d v} :
    v ∈ (severed index cutNodes scope allow dir d).2 ↔
      index.original d ∈ cutNodes ∧ index.original v ∈ allow ∧
        ∃ l, HasEdge index dir (index.original d) l (index.original v) := by
  unfold severed successors
  by_cases hd : index.original d ∈ cutNodes
  · rw [if_neg (not_not_intro (mem_filterMap_dense.2 hd))]
    simp only [List.mem_filter, mem_neighbors, decide_eq_true_eq, mem_filterMap_dense, hd, true_or, and_true,
      true_and]
    exact and_comm
  · rw [if_pos (mt mem_filterMap_dense.1 hd)]
    simp [hd]

lemma ExpandingStep.dense {d v} (st : ExpandingStep index cutNodes scope allow dir d v) :
    ∃ a b, index.original a = d ∧ index.original b = v := by
  cases st with
  | inl h =>
    obtain ⟨_, l, he⟩ := h
    exact he.dense
  | inr h =>
    obtain ⟨_, _, _, _, l, _, he⟩ := h
    exact he.dense

lemma walk_iff {src v} :
    ReflTransGen (ExpandingStep index cutNodes scope allow dir) (index.original src) v ↔
      ∃ a, index.original a = v ∧ Search.Walk (severed index cutNodes scope allow dir) src a := by
  refine ⟨?_, ?_⟩
  · intro h
    induction h with
    | refl => exact ⟨src, rfl, .refl⟩
    | tail _ st ih =>
      obtain ⟨a, rfl, wa⟩ := ih
      obtain ⟨_, b, _, rfl⟩ := st.dense
      exact ⟨b, rfl, wa.tail (mem_severed_expand.mpr st)⟩
  · intro ⟨a, e, wa⟩
    subst e
    induction wa with
    | refl => exact .refl
    | tail _ hm ih => exact ih.tail (mem_severed_expand.mp hm)

lemma residual_iff {src v} :
    Residual index (index.original src) cutNodes scope allow dir v ↔
      ∃ a, index.original a = v ∧ a ≠ src ∧
        Search.Reach (severed index cutNodes scope allow dir) src a := by
  unfold Residual Search.Reach
  simp only [walk_iff]
  refine ⟨?_, ?_⟩
  · intro ⟨ne, h⟩
    cases h with
    | inl h =>
      obtain ⟨a, rfl, wa⟩ := h
      exact ⟨a, rfl, fun e => ne (by rw [e]), .inl wa⟩
    | inr h =>
      obtain ⟨_, ⟨d, rfl, wd⟩, hc, ha, l, he⟩ := h
      obtain ⟨_, a, _, rfl⟩ := he.dense
      refine ⟨a, rfl, fun e => ne (by rw [e]), .inr ⟨d, wd, ?_⟩⟩
      exact mem_severed_terminal.mpr ⟨hc, ha, l, he⟩
  · intro ⟨a, e, ne, h⟩
    subst e
    refine ⟨fun e => ne (original_injective e), ?_⟩
    cases h with
    | inl wa => exact .inl ⟨a, rfl, wa⟩
    | inr h =>
      obtain ⟨d, wd, hm⟩ := h
      obtain ⟨hc, ha, l, he⟩ := mem_severed_terminal.mp hm
      exact .inr ⟨_, ⟨d, rfl, wd⟩, hc, ha, l, he⟩

lemma not_residual_of_dense_none {source v} (h : index.dense source = none) :
    ¬ Residual index source cutNodes scope allow dir v := by
  have hsrc : ∀ d, index.original d ≠ source := by
    intro d e
    rw [← e, index.dense_original] at h
    cases h
  have hwalk : ∀ u, ReflTransGen (ExpandingStep index cutNodes scope allow dir) source u →
      u = source := by
    intro u w
    induction w with
    | refl => rfl
    | tail _ st ih =>
      obtain ⟨a, _, ea, _⟩ := st.dense
      exact absurd (ea.trans ih) (hsrc a)
  intro ⟨ne, h⟩
  cases h with
  | inl w => exact ne (hwalk v w)
  | inr h =>
    obtain ⟨d, w, _, _, l, he⟩ := h
    obtain ⟨a, _, ea, _⟩ := he.dense
    exact hsrc a (ea.trans (hwalk d w))

end Dense

/-- The bound on the turns of the search cuts nothing off. -/
theorem residualBfs_ends (index : GraphIndex) (cutNodes scope allow dir src) :
    (run (severed index cutNodes scope allow dir) index.nodeCount src).queue = [] := by
  apply run_queue
  simp

lemma mem_residualReachable {bfsOnCsr index source cutNodes scope allow dir v} :
    v ∈ (severResidual bfsOnCsr index source cutNodes scope allow dir).residualReachable ↔
      ∃ src a, index.dense source = some src ∧ index.original a = v ∧ a ≠ src ∧
        Search.Touched (severed index cutNodes scope allow dir) src a := by
  simp only [severResidual, List.mem_insertionSort, List.mem_map]
  unfold residualBfs
  cases hs : index.dense source with
  | none => simp
  | some src =>
    have hn : Fintype.card (Fin index.nodeCount) ≤ index.nodeCount := by simp
    simp only [run_reached hn, Option.some.injEq]
    refine ⟨?_, ?_⟩
    · intro h
      obtain ⟨a, ⟨ne, ht⟩, e⟩ := h
      exact ⟨src, a, rfl, e, ne, ht⟩
    · intro h
      obtain ⟨_, a, rfl, e, ne, ht⟩ := h
      exact ⟨a, ⟨ne, ht⟩, e⟩

/-- The computed residual is the specified one exactly if no eclipsed node hides anything. -/
theorem severResidual_exact_iff (bfsOnCsr : BfsOnCsr) (index : GraphIndex) (source : NodeId)
    (cutNodes : List NodeId) (scope : SeverScope) (allow : List NodeId) (dir : Direction) :
    (∀ v, v ∈ (severResidual bfsOnCsr index source cutNodes scope allow dir).residualReachable ↔
        Residual index source cutNodes scope allow dir v) ↔
      NothingHidden index source cutNodes scope allow dir := by
  simp only [mem_residualReachable]
  cases hs : index.dense source with
  | none =>
    refine ⟨fun _ => ?_, fun _ v => ?_⟩
    · intro src e
      rw [hs] at e
      cases e
    · exact ⟨fun ⟨_, _, e, _⟩ => (by cases e), fun h => (not_residual_of_dense_none hs h).elim⟩
  | some src =>
    obtain rfl := index.original_dense source src hs
    simp only [residual_iff]
    have hall : NothingHidden index (index.original src) cutNodes scope allow dir ↔
        ∀ v, Search.Reach (severed index cutNodes scope allow dir) src v →
          Search.Touched (severed index cutNodes scope allow dir) src v := by
      rw [touched_complete_iff]
      refine ⟨fun h => h src hs, fun h src' e => ?_⟩
      rw [hs] at e
      cases e
      exact h
    rw [hall]
    refine ⟨fun h v hv => ?_, fun h v => ⟨?_, ?_⟩⟩
    · by_cases e : v = src
      · rw [e]
        exact ⟨[], .walk, live_source⟩
      · obtain ⟨_, a, e', ea, _, ht⟩ := (h (index.original v)).mpr ⟨v, rfl, e, hv⟩
        cases e'
        rw [original_injective ea] at ht
        exact ht
    · intro ⟨_, a, e', ea, ne, ht⟩
      cases e'
      exact ⟨a, ea, ne, ht.reach⟩
    · intro ⟨a, ea, ne, hr⟩
      exact ⟨src, a, rfl, ea, ne, h a hr⟩

/-- Two ways from a foothold (index 0) into an allow-listed endpoint (index 6): through index 2, and through
3, 4 and 5. Index 7 lies behind the endpoint. -/
def twoPathsEdges : List (Fin 8 × String × Fin 8) :=
  [(0, "RDP", 1), (1, "RDP", 2), (2, "EDR", 6), (0, "SMB", 3), (3, "SMB", 4), (4, "SMB", 5),
    (5, "SMB", 6), (6, "SMB", 7)]

def twoPaths : GraphIndex := .ofEdges [1, 2, 3, 4, 5, 6, 7, 8] (by decide) twoPathsEdges

def twoPathsDist : BfsOnCsr := fun _ _ _ _ i =>
  [0, 1, 2, 1, 2, 3, 3, 4].getD i.val 4294967295

/-- Under full isolation of node 3 the un-cut nodes 4, 5 and 6 lead to node 7, and it leads to node 8. -/
lemma twoPaths_residual : Residual twoPaths 1 [3] .full [7] .downstream 8 := by
  have edge : ∀ d e l, (d, l, e) ∈ twoPathsEdges → twoPaths.original d ≠ 3 →
      ExpandingStep twoPaths [3] .full [7] .downstream (twoPaths.original d)
        (twoPaths.original e) := by
    intro d e l hm ne
    exact .inl ⟨by simpa using ne, l, d, e, rfl, rfl, hm⟩
  refine ⟨by decide, .inl ?_⟩
  have w1 := ReflTransGen.single (edge 0 3 "SMB" (by decide) (by decide))
  have w2 := w1.tail (edge 3 4 "SMB" (by decide) (by decide))
  have w3 := w2.tail (edge 4 5 "SMB" (by decide) (by decide))
  have w4 := w3.tail (edge 5 6 "SMB" (by decide) (by decide))
  exact w4.tail (edge 6 7 "SMB" (by decide) (by decide))

/-- Node 7 is met first as the terminal neighbour of the cut node 3, and node 6 no longer expands it. -/
theorem severResidual_misses_twoPaths :
    ¬ ∀ v, v ∈ (severResidual twoPathsDist twoPaths 1 [3] .full [7] .downstream).residualReachable ↔
      Residual twoPaths 1 [3] .full [7] .downstream v := by
  intro h
  have hm := (h 8).mpr twoPaths_residual
  revert hm
  decide +kernel

/-- The nodes that the search under a stronger isolation walks on from, and that are eclipsed under the weaker
one, lead only to nodes that the search under the weaker isolation meets too. -/
def NothingUncovered (index : GraphIndex) (source : NodeId) (cutNodes' : List NodeId) (scope' : SeverScope)
    (cutNodes : List NodeId) (scope : SeverScope) (allow : List NodeId) (dir : Direction) : Prop :=
  let succ' := severed index cutNodes' scope' allow dir
  let succ := severed index cutNodes scope allow dir
  ∀ src, index.dense source = some src →
    ∀ d w, Search.Live succ' src w d .walk → Search.Eclipsed succ src d →
      ∀ v r, (v, r) ∈ Search.touches succ' d → Search.Touched succ src v

/-- Whatever is met from a node is met from it under the weaker isolation too. -/
def Stronger (index : GraphIndex) (cutNodes' : List NodeId) (scope' : SeverScope) (cutNodes : List NodeId)
    (scope : SeverScope) (allow : List NodeId) (dir : Direction) : Prop :=
  ∀ d v r, (v, r) ∈ touches (severed index cutNodes' scope' allow dir) d →
    ∃ r', (v, r') ∈ touches (severed index cutNodes scope allow dir) d

lemma severed_subset {index cutNodes scope allow dir d v}
    (h : v ∈ (severed index cutNodes scope allow dir d).1 ∨
      v ∈ (severed index cutNodes scope allow dir d).2) : v ∈ neighbors index d none dir := by
  rw [mem_neighbors]
  cases h with
  | inl h =>
    cases mem_severed_expand.mp h with
    | inl h =>
      obtain ⟨-, l, he⟩ := h
      exact ⟨l, he, .inl rfl⟩
    | inr h =>
      obtain ⟨-, -, -, -, l, -, he⟩ := h
      exact ⟨l, he, .inl rfl⟩
  | inr h =>
    obtain ⟨-, -, l, he⟩ := mem_severed_terminal.mp h
    exact ⟨l, he, .inl rfl⟩

lemma Stronger.of_subset {index cutNodes cutNodes' scope allow dir} (h : cutNodes ⊆ cutNodes') :
    Stronger index cutNodes' scope cutNodes scope allow dir := by
  intro d v r hm
  by_cases hd : index.original d ∈ cutNodes
  · refine ⟨r, ?_⟩
    rw [mem_touches] at hm ⊢
    rw [mem_severed_expand, mem_severed_terminal, ExpandingStep] at hm ⊢
    simpa [hd, h hd] using hm
  · -- An un-cut node expands all of its edges.
    have hv : v ∈ neighbors index d none dir := severed_subset ((mem_touches.mp hm).imp And.right And.right)
    refine ⟨.walk, mem_touches.mpr (.inl ⟨rfl, mem_severed_expand.mpr (.inl ⟨hd, ?_⟩)⟩)⟩
    obtain ⟨l, he, -⟩ := mem_neighbors.mp hv
    exact ⟨l, he⟩

lemma Stronger.of_full {index cutNodes keepLabels allow dir} :
    Stronger index cutNodes .full cutNodes (.selective keepLabels) allow dir := by
  intro d v r hm
  refine ⟨r, ?_⟩
  rw [mem_touches] at hm ⊢
  rw [mem_severed_expand, mem_severed_terminal, ExpandingStep] at hm ⊢
  refine hm.imp (And.imp_right fun hs => ?_) id
  cases hs with
  | inl hs => exact .inl hs
  | inr hs =>
    obtain ⟨_, _, e, _⟩ := hs
    cases e

/-- A stronger isolation is read as a smaller residual exactly if it uncovers nothing. -/
lemma Stronger.reading_iff {bfsOnCsr index source cutNodes' scope' cutNodes scope allow dir}
    (st : Stronger index cutNodes' scope' cutNodes scope allow dir) :
    (severResidual bfsOnCsr index source cutNodes' scope' allow dir).residualReachable ⊆
        (severResidual bfsOnCsr index source cutNodes scope allow dir).residualReachable ↔
      NothingUncovered index source cutNodes' scope' cutNodes scope allow dir := by
  refine Iff.trans ?_ (forall₂_congr fun src _ => touched_subset_iff st)
  constructor
  · intro hsub src hs v ht
    by_cases e : v = src
    · rw [e]
      exact ⟨[], .walk, live_source⟩
    · have hm := hsub (mem_residualReachable.mpr ⟨src, v, hs, rfl, e, ht⟩)
      obtain ⟨src', a, hs', ea, -, ht'⟩ := mem_residualReachable.mp hm
      obtain rfl := Option.some.inj (hs.symm.trans hs')
      rwa [original_injective ea] at ht'
  · intro h v hm
    obtain ⟨src, a, hs, ea, ne, ht⟩ := mem_residualReachable.mp hm
    exact mem_residualReachable.mpr ⟨src, a, hs, ea, ne, h src hs a ht⟩

/-- Rust `sever_residual`: cutting more nodes, and isolating fully, shrink the residual exactly if no node that
only the weaker isolation eclipses leads to something new. -/
theorem severResidual_monotone_iff (bfsOnCsr : BfsOnCsr) (index : GraphIndex) (source : NodeId)
    (allow : List NodeId) (dir : Direction) :
    (∀ cutNodes cutNodes' scope, cutNodes ⊆ cutNodes' →
      ((severResidual bfsOnCsr index source cutNodes' scope allow dir).residualReachable ⊆
          (severResidual bfsOnCsr index source cutNodes scope allow dir).residualReachable ↔
        NothingUncovered index source cutNodes' scope cutNodes scope allow dir)) ∧
    (∀ cutNodes keepLabels,
      ((severResidual bfsOnCsr index source cutNodes .full allow dir).residualReachable ⊆
          (severResidual bfsOnCsr index source cutNodes (.selective keepLabels) allow
            dir).residualReachable ↔
        NothingUncovered index source cutNodes .full cutNodes (.selective keepLabels) allow dir)) := by
  refine ⟨?_, ?_⟩
  · intro cutNodes cutNodes' scope h
    exact (Stronger.of_subset h).reading_iff
  · intro cutNodes keepLabels
    exact Stronger.of_full.reading_iff

/-- Cutting node 2 of `twoPaths` as well as node 3 brings node 8 back into the reading. -/
theorem severResidual_monotone_iff_twoPaths :
    [3] ⊆ ([3, 2] : List NodeId) ∧
      ((severResidual twoPathsDist twoPaths 1 [3, 2] .full [7] .downstream).residualReachable ⊆
          (severResidual twoPathsDist twoPaths 1 [3] .full [7] .downstream).residualReachable ↔
        NothingUncovered twoPaths 1 [3, 2] .full [3] .full [7] .downstream) :=
  ⟨by decide, (severResidual_monotone_iff twoPathsDist twoPaths 1 [7] .downstream).1 [3] [3, 2]
    .full (by decide)⟩

/-- Cutting node 2 as well, or isolating fully, keeps the search from meeting the endpoint 7 early, and node
8 appears. -/
theorem severResidual_not_monotone :
    ¬ (∀ cutNodes cutNodes' scope, cutNodes ⊆ cutNodes' →
        (severResidual twoPathsDist twoPaths 1 cutNodes' scope [7] .downstream).residualReachable ⊆
          (severResidual twoPathsDist twoPaths 1 cutNodes scope [7]
            .downstream).residualReachable) ∧
      ¬ (∀ cutNodes keepLabels,
        (severResidual twoPathsDist twoPaths 1 cutNodes .full [7] .downstream).residualReachable ⊆
          (severResidual twoPathsDist twoPaths 1 cutNodes (.selective keepLabels) [7]
            .downstream).residualReachable) := by
  refine ⟨?_, ?_⟩
  · intro h
    have hm := h [3] [3, 2] .full (by decide) (a := 8) (by decide +kernel)
    revert hm
    decide +kernel
  · intro h
    have hm := h [3, 2] ["RDP"] (a := 8) (by decide +kernel)
    revert hm
    decide +kernel

end SocioWorkspace.Containment
