import SocioWorkspace.Propagation.Cascade

/-!
# Cascades by distance

A cascade of `engines/propagation_engine.py` is a breadth-first search with several seeds: the targets of the
rule and the dependents of the changed repository, which is visited from the start. Its dependents are seeds,
so no repository gets further away when the chains through it are left out.
-/

namespace SocioWorkspace.Propagation
open List

section
variable (py : Names) (engine : Engine) (changedRepo : String) (maxDepth : Int)

def seedRepos : List String :=
  (firstTargets py engine changedRepo).map (·.repo.name) ++ dependents py engine changedRepo

def Distance : Nat → String → Prop :=
  Levels.Shortest (dependents py engine) [] (seedRepos py engine changedRepo)

/-- What a breadth-first search up to a depth returns. -/
structure BreadthFirst : Prop where
  ends : (walk py engine (normalizeOr py changedRepo) maxDepth).queue = []
  once : ((computeCascade py engine changedRepo maxDepth).map (·.repo)).Nodup
  other : ∀ s ∈ computeCascade py engine changedRepo maxDepth, s.repo ≠ normalizeOr py changedRepo
  exact : ∀ v d, (∃ s ∈ computeCascade py engine changedRepo maxDepth, s.repo = v ∧ s.depth = d) ↔
    v ≠ normalizeOr py changedRepo ∧ ∃ k, Distance py engine changedRepo k v ∧
      (k : Int) < depthOf py engine changedRepo maxDepth ∧ d = 1 + k
  sorted : (computeCascade py engine changedRepo maxDepth).Pairwise (·.depth ≤ ·.depth)
end

section
variable {py : Names} {engine : Engine} {changedRepo v : String} {maxDepth : Int} {k : Nat}

lemma step_iff {d} :
    (∃ s ∈ computeCascade py engine changedRepo maxDepth, s.repo = v ∧ s.depth = d) ↔
      (v, d) ∈ (walk py engine (normalizeOr py changedRepo) maxDepth).levels.found := by
  simp only [computeCascade, Walk.levels, mem_insertionSort, mem_map, Prod.mk.injEq]

lemma nodup_computeCascade : ((computeCascade py engine changedRepo maxDepth).map (·.repo)).Nodup := by
  have hperm := perm_insertionSort (fun s t : Step => s.depth ≤ t.depth)
    (walk py engine (normalizeOr py changedRepo) maxDepth).results
  rw [computeCascade, (hperm.map _).nodup_iff]
  have hnodup : ((walk py engine (normalizeOr py changedRepo) maxDepth).levels.found.map
      Prod.fst).Nodup := by
    rw [levels_walk]
    exact Levels.nodup_run
  rwa [Walk.levels, map_map] at hnodup

lemma shortest_iff_distance :
    Levels.Shortest (dependents py engine) [normalizeOr py changedRepo]
        ((seedTargets py engine (normalizeOr py changedRepo)).map (·.repo.name)) k v ↔
      v ≠ normalizeOr py changedRepo ∧ Distance py engine changedRepo k v := by
  have hseeds : ∀ w, w ∈ (seedTargets py engine (normalizeOr py changedRepo)).map (·.repo.name) ↔
      w ∈ seedRepos py engine changedRepo := by
    intro w
    rw [mem_seeds, seedRepos, firstTargets, getRule_normalizeOr, dependents_normalizeOr]
  have hwithin : ∀ j, Levels.Within (dependents py engine) []
      ((seedTargets py engine (normalizeOr py changedRepo)).map (·.repo.name)) j v ↔
        Levels.Within (dependents py engine) [] (seedRepos py engine changedRepo) j v :=
    fun j => ⟨.mono fun w hw => (hseeds w).mp hw, .mono fun w hw => (hseeds w).mpr hw⟩
  rw [Levels.shortest_avoiding_iff, mem_singleton, Distance, Levels.Shortest, Levels.Shortest]
  · simp only [hwithin]
  · intro u hu w hw
    rw [mem_singleton.mp hu] at hw
    exact mem_seeds.mpr (mem_append_right _ hw)

end

/-- A cascade that goes to depth 1 at least is a breadth-first search up to its depth. -/
theorem computeCascade_breadthFirst (py : Names) (engine : Engine) (changedRepo : String) (maxDepth : Int)
    (hdepth : 1 ≤ depthOf py engine changedRepo maxDepth) :
    BreadthFirst py engine changedRepo maxDepth := by
  have hqueue : (walk py engine (normalizeOr py changedRepo) maxDepth).levels.queue = [] := by
    rw [Walk.levels, walk_queue, map_nil]
  have hbound : depthOf py engine (normalizeOr py changedRepo) maxDepth =
      depthOf py engine changedRepo maxDepth := by
    rw [depthOf, depthOf, getRule_normalizeOr]
  have hexact : ∀ v d, (∃ s ∈ computeCascade py engine changedRepo maxDepth, s.repo = v ∧ s.depth = d) ↔
      v ≠ normalizeOr py changedRepo ∧ ∃ k, Distance py engine changedRepo k v ∧
        (k : Int) < depthOf py engine changedRepo maxDepth ∧ d = 1 + k := by
    intro v d
    rw [levels_walk] at hqueue
    rw [step_iff, levels_walk, Levels.mem_run_level hqueue]
    simp only [comes_iff, hbound, shortest_iff_distance]
    constructor
    · rintro ⟨k, rfl, ⟨hne, hk⟩, hlt⟩
      exact ⟨hne, k, hk, by omega, rfl⟩
    · rintro ⟨hne, k, hk, hlt, rfl⟩
      exact ⟨k, rfl, ⟨hne, hk⟩, .inr hlt⟩
  refine
    { ends := walk_queue _ _
      once := nodup_computeCascade
      other := fun s hs => ((hexact s.repo s.depth).mp ⟨s, hs, rfl, rfl⟩).1
      exact := hexact
      sorted := ?_ }
  have : Std.Total fun s t : Step => s.depth ≤ t.depth := ⟨fun s t => Nat.le_total _ _⟩
  have : IsTrans Step fun s t => s.depth ≤ t.depth := ⟨fun _ _ _ => Nat.le_trans⟩
  exact pairwise_insertionSort _ _

def ringEngine : Engine where
  reverse := [("a", [⟨"b", by decide⟩]), ("b", [⟨"c", by decide⟩]), ("c", [⟨"a", by decide⟩])]
  rules := []

theorem ring_breadthFirst :
    1 ≤ depthOf asciiNames ringEngine "a" 3 ∧ BreadthFirst asciiNames ringEngine "a" 3 :=
  ⟨by decide, computeCascade_breadthFirst asciiNames ringEngine "a" 3 (by decide)⟩

end SocioWorkspace.Propagation
