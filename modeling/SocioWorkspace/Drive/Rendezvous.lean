import SocioWorkspace.Drive.Resolve
import SocioWorkspace.Lib.Ranking

/-!
# Which nodes hold a name

`manifest_nodes` of `automation/manifest_store.py` and `ref_nodes` of `automation/mesh_namespace.py`:
publisher and reader compute the nodes of a name each from its own view of the mesh.
-/

namespace SocioWorkspace.Drive
open Ranking List

/-- The nodes of a key depend on the set of nodes alone, are as many as there are replicas, and stay
selected in a smaller view of the mesh. Errors are not compared: their text has the length of the list. -/
structure Stable (select : String → List String → ℕ → Except DriveError (List String)) (key : String)
    (nodes : List String) (replicas : ℕ) : Prop where
  same : ∀ nodes', (∀ node, node ∈ nodes' ↔ node ∈ nodes) →
    (select key nodes' replicas).toOption = (select key nodes replicas).toOption
  distinct : ∀ targets, select key nodes replicas = .ok targets → targets.Nodup ∧ targets.length = replicas
  survives : ∀ nodes', nodes' ⊆ nodes → ∀ targets targets',
    select key nodes replicas = .ok targets → select key nodes' replicas = .ok targets' →
      ∀ node ∈ targets, node ∈ nodes' → node ∈ targets'

section
variable {B : Type} {env : Platform B} {key : String} {nodes : List String} {replicas : ℕ}

lemma rendezvous_toOption : (rendezvous env key nodes replicas).toOption =
    if 1 ≤ replicas ∧ replicas ≤ nodes.length then
      some ((nodes.dedup.insertionSort fun a b => env.weight key b ≤ env.weight key a).take replicas)
    else none := by
  rw [rendezvous]
  split_ifs <;> first | rfl | omega

/-- With as many different nodes as replicas the order of the nodes and their repetitions do not matter. -/
lemma rendezvous_same (hweight : Separates (env.weight key) nodes) (h : replicas ≤ nodes.dedup.length)
    {nodes'} (hsame : ∀ node, node ∈ nodes' ↔ node ∈ nodes) :
    (rendezvous env key nodes' replicas).toOption = (rendezvous env key nodes replicas).toOption := by
  have hperm : nodes.dedup.Perm nodes'.dedup := by
    rw [perm_ext_iff_of_nodup nodes.nodup_dedup nodes'.nodup_dedup]
    intro node
    rw [mem_dedup, mem_dedup, hsame]
  have hsep := hweight.subset nodes.dedup_subset
  have hle : replicas ≤ nodes.length := h.trans (dedup_sublist nodes).length_le
  have hle' : replicas ≤ nodes'.length := (h.trans hperm.length_eq.le).trans (dedup_sublist nodes').length_le
  rw [rendezvous_toOption, rendezvous_toOption, ranked_eq_of_perm hsep hperm]
  simp only [hle, hle']

lemma rendezvous_survives (hweight : Separates (env.weight key) nodes) {nodes'}
    (hsub : nodes' ⊆ nodes) {targets targets'} (h : rendezvous env key nodes replicas = .ok targets)
    (h' : rendezvous env key nodes' replicas = .ok targets') {node} (hnode : node ∈ targets)
    (hnode' : node ∈ nodes') : node ∈ targets' := by
  obtain ⟨-, rfl⟩ := rendezvous_eq_ok.1 h
  obtain ⟨-, rfl⟩ := rendezvous_eq_ok.1 h'
  apply mem_take_of_subset (hweight.subset nodes.dedup_subset) nodes.nodup_dedup nodes'.nodup_dedup
  · intro a ha
    exact mem_dedup.2 (hsub (mem_dedup.1 ha))
  · exact mem_dedup.2 hnode'
  · exact hnode

lemma stable_rendezvous (hweight : Separates (env.weight key) nodes)
    (h : nodes = [] ∨ replicas ≤ nodes.dedup.length) : Stable (rendezvous env) key nodes replicas := by
  refine ⟨?_, ?_, fun nodes' hsub _ _ => rendezvous_survives hweight hsub⟩
  · intro nodes' hsame
    cases h with
    | inl h =>
      subst h
      obtain rfl : nodes' = [] := eq_nil_iff_forall_not_mem.2 fun node hnode =>
        not_mem_nil ((hsame node).1 hnode)
      rfl
    | inr h => exact rendezvous_same hweight h hsame
  · intro targets htargets
    obtain ⟨hreplicas, rfl⟩ := rendezvous_eq_ok.1 htargets
    rw [length_take, length_insertionSort]
    refine ⟨?_, Nat.min_eq_left ?_⟩
    · apply List.Nodup.sublist (take_sublist _ _)
      exact (perm_insertionSort _ _).nodup_iff.2 nodes.nodup_dedup
    · cases h with
      | inl h =>
        subst h
        exact absurd hreplicas.1 (not_le.2 (Nat.lt_succ_of_le hreplicas.2))
      | inr h => exact h

lemma Stable.enough_nodes (h : Stable (rendezvous env) key nodes replicas) :
    nodes = [] ∨ replicas ≤ nodes.dedup.length := by
  by_contra hnot
  rw [not_or, not_le] at hnot
  obtain ⟨x, hx⟩ := exists_mem_of_ne_nil nodes hnot.1
  -- one node listed often enough has replicas to choose from, and the nodes listed once have not
  have hmany : (rendezvous env key (nodes ++ replicate replicas x) replicas).toOption ≠ none := by
    rw [rendezvous_toOption, if_pos]
    · exact Option.some_ne_none _
    · rw [length_append, length_replicate]
      omega
  refine hmany ((h.same _ fun node => ?_).trans ((h.same nodes.dedup fun node => mem_dedup).symm.trans ?_))
  · rw [mem_append]
    refine ⟨fun hnode => ?_, .inl⟩
    cases hnode with
    | inl hnode => exact hnode
    | inr hnode => exact (eq_of_mem_replicate hnode) ▸ hx
  · rw [rendezvous_toOption, if_neg (by omega)]

end

/-- The selections are stable exactly if there are at least as many different nodes as replicas, or no
nodes at all. -/
theorem stable_iff {B : Type} (env : Platform B) (key : String) (nodes : List String) (replicas : ℕ)
    (hweight : Separates (env.weight key) nodes) :
    (Stable (manifestNodes env) key nodes replicas ∧ Stable (refNodes env) key nodes replicas) ↔
      nodes = [] ∨ replicas ≤ nodes.toFinset.card := by
  rw [card_toFinset]
  exact ⟨fun h => h.1.enough_nodes, fun h => ⟨stable_rendezvous hweight h, stable_rendezvous hweight h⟩⟩

/-- Two replicas on two nodes. -/
theorem twoNodes_stable : Separates (textPlatform.weight "/a") ["a", "b"] ∧
    Stable (manifestNodes textPlatform) "/a" ["a", "b"] 2 ∧
      Stable (refNodes textPlatform) "/a" ["a", "b"] 2 := by
  have hweight : Separates (textPlatform.weight "/a") ["a", "b"] := by
    show ∀ a ∈ ["a", "b"], ∀ b ∈ ["a", "b"], sha256Weight "/a" a = sha256Weight "/a" b → a = b
    decide +kernel
  exact ⟨hweight, (stable_iff textPlatform "/a" ["a", "b"] 2 hweight).2 (.inr (by decide))⟩

/-- Two replicas are selected from a node that is listed twice, and none from the same node listed once. -/
theorem repeatedNode_not_stable :
    (manifestNodes textPlatform "/a" ["a", "a"] 2).toOption = some ["a"] ∧
      (refNodes textPlatform "/a" ["a", "a"] 2).toOption = some ["a"] ∧
      (manifestNodes textPlatform "/a" ["a"] 2).toOption = none ∧
      (refNodes textPlatform "/a" ["a"] 2).toOption = none := by
  refine ⟨?_, ?_, ?_, ?_⟩
  · exact rendezvous_toOption
  · exact rendezvous_toOption
  · exact rendezvous_toOption
  · exact rendezvous_toOption

end SocioWorkspace.Drive
