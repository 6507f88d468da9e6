import SocioWorkspace.Holographic.Propagation

/-!
# The health of the mesh

Model of `_quorum` and `tree_healthy` of `automation/mesh_topology.py`: a backend is healthy if it is
up, and a group if a strict majority of its members is.
-/

namespace SocioWorkspace.Holographic
open SocioWorkspace.Lists MeshTree

/-- Python `_quorum`. -/
def quorum (c : ℕ) : ℕ := c / 2 + 1

mutual
/-- Python `tree_healthy`. -/
def treeHealthy (up : Finset String) : MeshTree → Bool
  | .backend id => id ∈ up
  | .group members => quorum members.length ≤ healthyMembers up members

def healthyMembers (up : Finset String) : List MeshTree → ℕ
  | [] => 0
  | t :: ts => (if treeHealthy up t then 1 else 0) + healthyMembers up ts
end

variable {P : MeshTree → Prop}

mutual
/-- Induction over a tree: a group has the property if its members have it. -/
theorem MeshTree.induct (backend : ∀ id, P (.backend id))
    (group : ∀ members, (∀ t ∈ members, P t) → P (.group members)) : ∀ t, P t
  | .backend id => backend id
  | .group members => group members (inductAll backend group members)

theorem MeshTree.inductAll (backend : ∀ id, P (.backend id))
    (group : ∀ members, (∀ t ∈ members, P t) → P (.group members)) :
    ∀ ts : List MeshTree, ∀ t ∈ ts, P t
  | [], _, h => absurd h List.not_mem_nil
  | t :: ts, u, h => by
    cases List.mem_cons.1 h with
    | inl he => exact he ▸ induct backend group t
    | inr ht => exact inductAll backend group ts u ht
end

section
variable {A B : Finset String} {t : MeshTree}

lemma healthyMembers_eq (up : Finset String) (ts : List MeshTree) :
    healthyMembers up ts = ts.countP (treeHealthy up) := by
  induction ts with
  | nil => rw [healthyMembers, List.countP_nil]
  | cons t ts ih => rw [healthyMembers, ih, List.countP_cons, Nat.add_comm]

lemma treeHealthy_group {up members} :
    treeHealthy up (.group members) = true ↔
      members.length < 2 * members.countP (treeHealthy up) := by
  rw [treeHealthy, healthyMembers_eq, decide_eq_true_iff, quorum]
  omega

lemma treeHealthy_backend {up id} : treeHealthy up (.backend id) = true ↔ id ∈ up := by
  rw [treeHealthy, decide_eq_true_iff]

/-- Two up sets that make a tree healthy share a backend: their majorities meet in a member. -/
lemma exists_up_of_healthy (hA : treeHealthy A t = true) (hB : treeHealthy B t = true) :
    ∃ id, id ∈ A ∧ id ∈ B := by
  induction t using induct with
  | backend id => exact ⟨id, treeHealthy_backend.1 hA, treeHealthy_backend.1 hB⟩
  | group members ih =>
    obtain ⟨t, ht, htA, htB⟩ := exists_of_majorities (treeHealthy_group.1 hA) (treeHealthy_group.1 hB)
    exact ih t ht htA htB

lemma treeHealthy_mono (hAB : A ⊆ B) (hA : treeHealthy A t = true) : treeHealthy B t = true := by
  induction t using induct with
  | backend id => exact treeHealthy_backend.2 (hAB (treeHealthy_backend.1 hA))
  | group members ih =>
    have hcount : members.countP (treeHealthy A) ≤ members.countP (treeHealthy B) := List.countP_mono_left ih
    rw [treeHealthy_group] at hA ⊢
    omega

end

/-- No two disjoint sets of backends both make the mesh healthy, and more backends keep it healthy. -/
theorem treeHealthy_no_split_brain (nodes : List String) :
    (∀ A B : Finset String, Disjoint A B →
      ¬(treeHealthy A (buildTree nodes) = true ∧ treeHealthy B (buildTree nodes) = true)) ∧
    ∀ A B : Finset String, A ⊆ B → treeHealthy A (buildTree nodes) = true →
      treeHealthy B (buildTree nodes) = true := by
  refine ⟨?_, fun A B => treeHealthy_mono⟩
  rintro A B hdisjoint ⟨hA, hB⟩
  obtain ⟨id, hidA, hidB⟩ := exists_up_of_healthy hA hB
  exact Finset.disjoint_left.1 hdisjoint hidA hidB

end SocioWorkspace.Holographic
