import Mathlib

/-!
# Dependency cycles

Model of `detect_cycles` of `engines/propagation_engine.py`, a depth-first search that visits each repository
once. A graph is the list of its edges, as `add_edge` gets them; `path` and `stack` are one argument; `order` is
the order in which Python goes through the set `all_graph_nodes`.
-/

namespace SocioWorkspace.Propagation
open List

section
variable {V : Type} [DecidableEq V]

/-- Python `_adjacency[node]`. -/
def adjacency (edges : List (V × V)) (node : V) : List V :=
  edges.foldl (fun targets e => if e.1 = node ∧ e.2 ∉ targets then targets ++ [e.2] else targets) []

/-- Python `PropagationEngine.all_graph_nodes`. -/
def allGraphNodes (edges : List (V × V)) : List V := (edges.flatMap fun e => [e.1, e.2]).dedup

structure Dfs (V : Type) where
  visited : List V
  cycles : List (List V)

def Dfs.record (path : List V) (s : Dfs V) (neighbor : V) : Dfs V :=
  let cycle := path.drop (path.idxOf neighbor) ++ [neighbor]
  if cycle ∈ s.cycles then s else { s with cycles := s.cycles ++ [cycle] }

/-- The body of the loop over the neighbors, where `dfs` is the nested call. -/
def Dfs.look (dfs : V → Dfs V → Dfs V) (path : List V) (s : Dfs V) (neighbor : V) : Dfs V :=
  if neighbor ∉ s.visited then dfs neighbor s
  else if neighbor ∈ path then s.record path neighbor
  else s

/-- Python `dfs`. -/
def dfs (adj : V → List V) : ℕ → List V → V → Dfs V → Dfs V
  | 0, _, _, s => s
  | calls + 1, path, node, s =>
    (adj node).foldl (Dfs.look (dfs adj calls (path ++ [node])) (path ++ [node]))
      { s with visited := node :: s.visited }

/-- Python `PropagationEngine.detect_cycles`. -/
def detectCycles (edges : List (V × V)) (order : List V) : List (List V) :=
  (order.foldl (fun s node => if node ∈ s.visited then s else dfs (adjacency edges) order.length [] node s)
    ⟨[], []⟩).cycles

def Follows (adj : V → List V) (walk : List V) : Prop := walk.IsChain fun u v => v ∈ adj u

/-- A closed walk along the edges that comes to no repository twice. -/
def IsCycle (adj : V → List V) (c : List V) : Prop :=
  Follows adj c ∧ ∃ node rest, c = node :: rest ++ [node] ∧ (node :: rest).Nodup

lemma mem_adjacency {edges : List (V × V)} {u v} : v ∈ adjacency edges u ↔ (u, v) ∈ edges := by
  induction edges using List.reverseRecOn with
  | nil => simp [adjacency]
  | append_singleton edges e ih =>
    obtain ⟨a, b⟩ := e
    rw [adjacency, foldl_append, ← adjacency, foldl_cons, foldl_nil, mem_append, mem_singleton, ← ih]
    split_ifs with h
    · obtain ⟨rfl, -⟩ := h
      simp
    · rw [not_and, not_not] at h
      refine ⟨.inl, ?_⟩
      rintro (hv | he)
      · exact hv
      · cases he
        exact h rfl

section
variable (adj : V → List V) (nodes path : List V)

/-- What the search keeps. A repository that is left with no cycle found has finite chains below it only. -/
structure Dfs.Inv (s : Dfs V) : Prop where
  distinct : s.visited.Nodup
  known : s.visited ⊆ nodes
  visits : path ⊆ s.visited
  cycles : ∀ c ∈ s.cycles, IsCycle adj c
  finished : s.cycles = [] → ∀ v ∈ s.visited, v ∉ path → Acc (fun v u => v ∈ adj u) v

structure Dfs.Extends (s s' : Dfs V) : Prop extends s'.Inv adj nodes path where
  visited : s.visited ⊆ s'.visited
  found : s'.cycles = [] → s.cycles = []

/-- The path goes on to `v`, with calls enough to visit all that is left. -/
structure Dfs.Ready (calls : ℕ) (s : Dfs V) (v : V) : Prop extends s.Inv adj nodes path where
  room : nodes.length ≤ s.visited.length + calls
  mem : v ∈ nodes
  nodup : path.Nodup
  goes : Follows adj (path ++ [v])

def Visits (calls : ℕ) (search : V → Dfs V → Dfs V) : Prop :=
  ∀ s v, s.Ready adj nodes path calls v → v ∉ s.visited →
    s.Extends adj nodes path (search v s) ∧ v ∈ (search v s).visited
end

variable {adj : V → List V} {nodes path : List V} {s : Dfs V} {v : V} {calls : ℕ}
  {search : V → Dfs V → Dfs V}

omit [DecidableEq V] in
lemma Dfs.Inv.refl (inv : s.Inv adj nodes path) : s.Extends adj nodes path s := ⟨inv, Subset.refl _, id⟩

lemma Dfs.Ready.record (h : s.Ready adj nodes path calls v) (hv : v ∈ path) :
    s.Extends adj nodes path (s.record path v) ∧ (s.record path v).cycles ≠ [] := by
  have hlt := idxOf_lt_length_of_mem hv
  have hdrop := drop_eq_getElem_cons hlt
  rw [getElem_idxOf hlt] at hdrop
  have hcycle : IsCycle adj (path.drop (path.idxOf v) ++ [v]) := by
    refine ⟨?_, v, _, congrArg (· ++ [v]) hdrop, hdrop ▸ h.nodup.sublist (drop_sublist _ _)⟩
    rw [← drop_append_of_le_length hlt.le]
    exact IsChain.suffix h.goes (drop_suffix _ _)
  rw [Dfs.record]
  split_ifs with hold
  · exact ⟨h.refl, ne_nil_of_mem hold⟩
  · have hne : s.cycles ++ [path.drop (path.idxOf v) ++ [v]] ≠ [] := by simp
    refine ⟨⟨{ h.toInv with cycles := fun c hc => ?_, finished := fun hnil => absurd hnil hne },
      Subset.refl _, fun hnil => absurd hnil hne⟩, hne⟩
    rcases mem_append.1 hc with hc | hc
    · exact h.cycles c hc
    · exact mem_singleton.1 hc ▸ hcycle

lemma Dfs.Ready.look (hsearch : Visits adj nodes path calls search) (h : s.Ready adj nodes path calls v) :
    s.Extends adj nodes path (s.look search path v) ∧
      ((s.look search path v).cycles = [] → v ∈ (s.look search path v).visited ∧ v ∉ path) := by
  rw [Dfs.look]
  by_cases hnew : v ∉ s.visited
  · rw [if_pos hnew]
    obtain ⟨ext, hvisit⟩ := hsearch s v h hnew
    exact ⟨ext, fun _ => ⟨hvisit, fun hpath => hnew (h.visits hpath)⟩⟩
  · rw [if_neg hnew]
    split_ifs with hpath
    · obtain ⟨ext, hne⟩ := h.record hpath
      exact ⟨ext, fun hnil => absurd hnil hne⟩
    · exact ⟨h.refl, fun _ => ⟨not_not.1 hnew, hpath⟩⟩

lemma Dfs.Inv.looks (hsearch : Visits adj nodes path calls search) (vs : List V)
    (inv : s.Inv adj nodes path) (h : ∀ v ∈ vs, s.Ready adj nodes path calls v) :
    s.Extends adj nodes path (vs.foldl (Dfs.look search path) s) ∧
      ((vs.foldl (Dfs.look search path) s).cycles = [] →
        ∀ v ∈ vs, v ∈ (vs.foldl (Dfs.look search path) s).visited ∧ v ∉ path) := by
  induction vs generalizing s with
  | nil => exact ⟨inv.refl, fun _ v hv => absurd hv not_mem_nil⟩
  | cons v vs ih =>
    rw [List.forall_mem_cons] at h
    obtain ⟨ext, hv⟩ := h.1.look hsearch
    have hlen := (inv.distinct.subperm ext.visited).length_le
    have hready : ∀ u ∈ vs, (s.look search path v).Ready adj nodes path calls u := fun u hu =>
      { h.2 u hu with toInv := ext.toInv, room := (h.2 u hu).room.trans (by omega) }
    obtain ⟨ext', hrest⟩ := ih ext.toInv hready
    refine ⟨⟨ext'.toInv, List.Subset.trans ext.visited ext'.visited, ext.found ∘ ext'.found⟩, ?_⟩
    intro hnil u hu
    rcases mem_cons.1 hu with rfl | hu
    · exact (hv (ext'.found hnil)).imp_left (ext'.visited ·)
    · exact hrest hnil u hu

/-- Unless the loop over the neighbors finds a cycle, it leaves all of them finished. -/
lemma visits_dfs (hadj : ∀ u, adj u ⊆ nodes) : Visits adj nodes path calls (dfs adj calls path) := by
  induction calls generalizing path with
  | zero =>
    intro s v h hnew
    have hlen := ((h.distinct.cons hnew).subperm (cons_subset.2 ⟨h.mem, h.known⟩)).length_le
    have hroom := h.room
    rw [length_cons] at hlen
    omega
  | succ calls ih =>
    intro s v h hnew
    have inv : Dfs.Inv adj nodes (path ++ [v]) { s with visited := v :: s.visited } := by
      refine ⟨h.distinct.cons hnew, cons_subset.2 ⟨h.mem, h.known⟩, ?_, h.cycles, fun hnil u hu hout => ?_⟩
      · exact append_subset.2 ⟨fun u hu => mem_cons_of_mem v (h.visits hu), by simp⟩
      · rw [mem_append, mem_singleton, not_or] at hout
        exact h.finished hnil u ((mem_cons.1 hu).resolve_left hout.2) hout.1
    have hready : ∀ u ∈ adj v, Dfs.Ready adj nodes (path ++ [v]) calls
        { s with visited := v :: s.visited } u := by
      intro u hu
      refine ⟨inv, h.room.trans ?_, hadj v hu, ?_, IsChain.append h.goes (isChain_singleton u) (by simpa)⟩
      · rw [length_cons]
        omega
      · exact h.nodup.append (nodup_singleton v) (disjoint_singleton.2 fun hv => hnew (h.visits hv))
    obtain ⟨ext, hdone⟩ := inv.looks ih (adj v) hready
    refine ⟨⟨⟨ext.distinct, ext.known, ?_, ext.cycles, fun hnil u hu hne => ?_⟩,
      fun u hu => ext.visited (mem_cons_of_mem v hu), ext.found⟩, ext.visited mem_cons_self⟩
    · exact fun u hu => ext.visited (mem_cons_of_mem v (h.visits hu))
    · by_cases he : u = v
      · subst he
        exact .intro u fun w hw => ext.finished hnil w (hdone hnil w hw).1 (hdone hnil w hw).2
      · exact ext.finished hnil u hu (by simp [hne, he])

lemma Dfs.search_spec (hadj : ∀ u, adj u ⊆ nodes) {order : List V} (horder : order ⊆ nodes) :
    ∀ s, s = order.foldl (fun s node => if node ∈ s.visited then s else dfs adj nodes.length [] node s)
      ⟨[], []⟩ → s.Inv adj nodes [] ∧ order ⊆ s.visited := by
  induction order using List.reverseRecOn with
  | nil =>
    rintro _ rfl
    exact ⟨⟨nodup_nil, by simp, by simp, by simp, by simp⟩, by simp⟩
  | append_singleton order v ih =>
    rintro _ rfl
    obtain ⟨hsub, hv⟩ := append_subset.1 horder
    obtain ⟨inv, hall⟩ := ih hsub _ rfl
    rw [foldl_append, foldl_cons, foldl_nil]
    generalize order.foldl _ _ = s at inv hall
    split_ifs with hold
    · exact ⟨inv, append_subset.2 ⟨hall, by simpa using hold⟩⟩
    · obtain ⟨ext, hvisit⟩ := visits_dfs hadj s v
        ⟨inv, Nat.le_add_left _ _, hv mem_cons_self, nodup_nil, isChain_singleton v⟩ hold
      exact ⟨ext.toInv, append_subset.2 ⟨List.Subset.trans hall ext.visited, by simpa using hvisit⟩⟩

end

lemma not_transGen_of_acc {α : Type} {r : α → α → Prop} {a : α} (h : Acc r a) :
    ¬ Relation.TransGen r a a := by
  have h' := h.transGen
  induction h' with
  | intro a _ ih => exact fun ha => ih a ha (h.inv_of_transGen ha) ha

/-- The search finds a cycle exactly if there is one, and what it returns are cycles. -/
theorem detectCycles_decides {V : Type} [DecidableEq V] (edges : List (V × V)) (order : List V)
    (horder : order.Perm (allGraphNodes edges)) :
    (detectCycles edges order ≠ [] ↔ ∃ v, Relation.TransGen (fun u v => v ∈ adjacency edges u) v v) ∧
      ∀ c ∈ detectCycles edges order, IsCycle (adjacency edges) c := by
  have hmem : ∀ {u v}, v ∈ adjacency edges u → u ∈ order ∧ v ∈ order := by
    intro u v h
    simp only [horder.mem_iff, allGraphNodes, mem_dedup, mem_flatMap]
    exact ⟨⟨_, mem_adjacency.1 h, by simp⟩, ⟨_, mem_adjacency.1 h, by simp⟩⟩
  obtain ⟨inv, hall⟩ := Dfs.search_spec (fun u v hv => (hmem hv).2) (Subset.refl order) _ rfl
  refine ⟨⟨fun hne => ?_, ?_⟩, inv.cycles⟩
  · obtain ⟨c, hc⟩ := exists_mem_of_ne_nil _ hne
    obtain ⟨hfollows, v, rest, rfl, -⟩ := inv.cycles c hc
    refine ⟨v, IsChain.rel_cons (R := Relation.TransGen fun u v => v ∈ adjacency edges u) ?_
      (mem_append_right rest (mem_singleton_self v))⟩
    exact IsChain.imp (fun _ _ => .single) hfollows
  · rintro ⟨v, hv⟩ hnil
    obtain ⟨u, hu, -⟩ := Relation.TransGen.head'_iff.1 hv
    exact not_transGen_of_acc (inv.finished hnil v (hall (hmem hu).1) not_mem_nil)
      (Relation.transGen_swap.1 hv)

/-- A self-loop on a cycle of two. -/
theorem ring_detected :
    [2, 1, 3].Perm (allGraphNodes [(1, 2), (2, 2), (2, 1), (2, 3)]) ∧
      (∃ v, Relation.TransGen (fun u v => v ∈ adjacency [(1, 2), (2, 2), (2, 1), (2, 3)] u) v v) ∧
      detectCycles [(1, 2), (2, 2), (2, 1), (2, 3)] [2, 1, 3] = [[2, 2], [2, 1, 2]] := by
  have h : [2, 1, 3].Perm (allGraphNodes [(1, 2), (2, 2), (2, 1), (2, 3)]) := by decide
  have hfound : detectCycles [(1, 2), (2, 2), (2, 1), (2, 3)] [2, 1, 3] = [[2, 2], [2, 1, 2]] := by decide
  exact ⟨h, (detectCycles_decides _ _ h).1.1 (by rw [hfound]; decide), hfound⟩

end SocioWorkspace.Propagation
