import Mathlib.Algebra.Order.Field.Basic
import Mathlib.Data.List.Dedup
import SocioWorkspace.Gbrg.Core

/-!
# Blast-radius scoring

Model of `gbrg/crates/gbrg-core/src/scoring.rs` and of the reads of the frozen index in `lib.rs`: the evidence
of a cell, its epistemic level with the derivation, and its score.

* `GraphStore` is the substrate that freezes the nodes and edges written into an `Index`. It is a parameter, and
  its fields say what is assumed of it: a stored edge is one in-neighbour, and an edge that is written twice is
  either always stored twice (`parallel`) or never.
* What the source keeps in `f64` is in an ordered field, without rounding.
* `Artifact` has the fields that a what-if report shows.
-/

namespace SocioWorkspace.Gbrg
open List EdgeKind GraphEdge

abbrev StoredEdge := NodeId × String × NodeId

def GraphEdge.stored (e : GraphEdge) : StoredEdge := (e.source, e.kind.asLabel, e.target)

/-- What is read of the substrate's `GraphIndex`, by node id. -/
structure Index where
  /-- Whether Rust `dense` finds the node. -/
  has : NodeId → Bool
  /-- Rust `in_degree`. -/
  inDegree : NodeId → Nat
  /-- Rust `in_neighbors`. -/
  inNeighbors : NodeId → Option String → List NodeId

/-- What the substrate keeps of the edges written: all of them, or each edge once. -/
def keep (parallel : Bool) {α : Type*} [DecidableEq α] (es : List α) : List α :=
  if parallel then es else es.dedup

/-- The substrate's graph, as far as an index is frozen from it. -/
structure GraphStore where
  parallel : Bool
  freeze : List NodeId → List StoredEdge → Index
  has_iff : ∀ nodes edges id, (freeze nodes edges).has id = true ↔ id ∈ nodes
  inDegree_eq : ∀ nodes edges id, id ∈ nodes →
    (freeze nodes edges).inDegree id = ((freeze nodes edges).inNeighbors id none).length
  inNeighbors_perm : ∀ nodes edges id label, id ∈ nodes →
    ((freeze nodes edges).inNeighbors id label).Perm (((keep parallel edges).filter fun e =>
      e.2.2 = id ∧ (label = none ∨ label = some e.2.1)).map (·.1))

/-- Such a store exists: it looks the edges up in their list. -/
def GraphStore.ofList (parallel : Bool) : GraphStore where
  parallel := parallel
  freeze nodes edges :=
    let neighbors id label := ((keep parallel edges).filter fun e : StoredEdge =>
      e.2.2 = id ∧ (label = none ∨ label = some e.2.1)).map (·.1)
    ⟨fun id => decide (id ∈ nodes), fun id => (neighbors id none).length, neighbors⟩
  has_iff _ _ _ := decide_eq_true_iff
  inDegree_eq _ _ _ _ := rfl
  inNeighbors_perm _ _ _ _ _ := .rfl

/-- Rust `build_index`: all cells, then every edge whose ends have been written. -/
def buildIndex (store : GraphStore) (nodeId : String → NodeId) (cells : List SemanticCell)
    (edges : List GraphEdge) : Index :=
  store.freeze (written nodeId cells) ((writtenEdges nodeId cells edges).map GraphEdge.stored)

section
variable (index : Index) (cell : NodeId)

/-- Rust `dependents_count`: the in-degree of a node of the index. -/
def dependentsCount : Option Nat :=
  if index.has cell then some (index.inDegree cell) else none

/-- Rust `reverse_dependents`. -/
def reverseDependents (label : Option String) : List NodeId :=
  if index.has cell then index.inNeighbors cell label else []

/-- Rust `test_coverage_reach`. -/
def testCoverageReach : Bool := ! (reverseDependents index cell (some EdgeKind.testedBy.asLabel)).isEmpty

/-- Rust `code_dependents_count`: the in-degree without the edges that stand for tests. -/
def codeDependentsCount : Nat :=
  (dependentsCount index cell).getD 0 -
    (reverseDependents index cell (some EdgeKind.testedBy.asLabel)).length
end

/-- Rust `ScoringConfig`, as far as it is read. -/
structure ScoringConfig (K : Type*) where
  dependentsThreshold : Nat
  dependentsSaturation : K
  churnSaturation : K
  wDependents : K
  wChurn : K
  wCoverage : K

/-- Rust `default`. -/
def ScoringConfig.default {K : Type*} [Field K] : ScoringConfig K where
  dependentsThreshold := 15
  dependentsSaturation := 40
  churnSaturation := 1
  wDependents := 1 / 2
  wChurn := 3 / 10
  wCoverage := 1 / 5

/-- Rust `EpistemicLevel`. -/
inductive EpistemicLevel where
  | proved
  | bounded
  | empirical
  | synthetic
  | speculative
  | rejected
deriving DecidableEq

/-- Rust `as_str`. -/
def EpistemicLevel.asStr : EpistemicLevel → String
  | .proved => "proved"
  | .bounded => "bounded"
  | .empirical => "empirical"
  | .synthetic => "synthetic"
  | .speculative => "speculative"
  | .rejected => "rejected"

/-- Rust `status`. -/
def EpistemicLevel.status : EpistemicLevel → String
  | .proved | .empirical => "PROVED"
  | .bounded => "BOUNDED"
  | .speculative => "INCONCLUSIVE"
  | .rejected => "BLOCKED"
  | .synthetic => "SYNTHETIC_ONLY"

@[ext]
structure BlastRadiusInputs (K : Type*) where
  dependentsCount : Nat
  testCoverageReach : Bool
  churnFrequency : K
  generated : Bool
  dead : Bool

def natText (n : Nat) : String := .ofList (Nat.toDigits 10 n)

def boolText (b : Bool) : String := if b then "true" else "false"

section
variable {K : Type*}

/-- Rust `derive_epistemic_level`. -/
def deriveEpistemicLevel (inputs : BlastRadiusInputs K) (config : ScoringConfig K) :
    EpistemicLevel × String :=
  let t := natText config.dependentsThreshold
  let d := natText inputs.dependentsCount
  if inputs.dead then
    (.rejected,
      "cell is flagged dead / scheduled-for-removal → rejected (excluded from review context); " ++
        "recorded so the exclusion is auditable: " ++ d ++ " dependents, test_coverage_reach=" ++
        boolText inputs.testCoverageReach ++ ", generated=" ++ boolText inputs.generated)
  else if inputs.testCoverageReach then
    if inputs.dependentsCount ≤ config.dependentsThreshold then
      (.empirical,
        "a test function's call path statically reaches this cell and " ++ d ++
          " dependents is within the bounded threshold of " ++ t ++ " → empirical. " ++
          "NOTE: `empirical` here means TEST-REACHABLE (a test calls into this cell in the static " ++
          "call graph), NOT assertion-verified — the signal does not prove any test asserts this " ++
          "cell's behaviour. True behavioural/line coverage requires RUNNING the suite (out of " ++
          "scope for this static pipeline)")
    else
      (.bounded,
        "a test function's call path reaches this cell (test-reachable, NOT assertion-verified) " ++
          "but " ++ d ++ " dependents exceeds the bounded threshold of " ++ t ++
          ", so not every caller is exercised → bounded")
  else if config.dependentsThreshold < inputs.dependentsCount then
    (.speculative,
      "no test function's call path reaches this cell and " ++ d ++
        " dependents exceeds the bounded threshold of " ++ t ++
        " → speculative (the \"many callers, no tests\" case)")
  else
    (.speculative,
      "no test function's call path reaches this cell; " ++ d ++
        " dependents is within the bounded threshold of " ++ t ++
        ", but absent any test-reach the behaviour can only be speculated → speculative")

variable [Field K] [LinearOrder K] [IsStrictOrderedRing K]

def clamp (x : K) : K := if x < 0 then 0 else if 1 < x then 1 else x

def dNorm (config : ScoringConfig K) (dependents : Nat) : K :=
  if 0 < config.dependentsSaturation then min (dependents / config.dependentsSaturation) 1 else 0

section
variable (inputs : BlastRadiusInputs K) (config : ScoringConfig K)

def rawScore : K :=
  let cNorm := if 0 < config.churnSaturation then
    clamp (inputs.churnFrequency / config.churnSaturation) else 0
  let cov : K := if inputs.testCoverageReach then 0 else 1
  config.wDependents * dNorm config inputs.dependentsCount + config.wChurn * cNorm +
    config.wCoverage * cov

/-- Rust `blast_radius_score`. -/
def blastRadiusScore : K := clamp (rawScore inputs config)

/-- Rust `BlastRadiusProofArtifact`, as far as it is read. -/
structure Artifact (K : Type*) where
  epistemicLevel : EpistemicLevel
  status : String
  dependentsCount : Nat
  testCoverageReach : Bool
  blastRadius : K
  derivation : String

/-- Rust `build_proof_artifact`. -/
def buildProofArtifact (inputs : BlastRadiusInputs K) (config : ScoringConfig K) : Artifact K :=
  let level := deriveEpistemicLevel inputs config
  { epistemicLevel := level.1
    status := level.1.status
    dependentsCount := inputs.dependentsCount
    testCoverageReach := inputs.testCoverageReach
    blastRadius := blastRadiusScore inputs config
    derivation := level.2 }

variable (nodeId : String → NodeId) (cell : SemanticCell) (index : Index) (churn : K) (dead : Bool)

/-- The evidence of a cell (in Rust `emit_proof_artifact`). -/
def evidence : BlastRadiusInputs K where
  dependentsCount := codeDependentsCount index (nodeId cell.cellId)
  testCoverageReach := testCoverageReach index (nodeId cell.cellId)
  churnFrequency := churn
  generated := cell.generated
  dead := dead

/-- Rust `emit_proof_artifact`. -/
def emitProofArtifact (config : ScoringConfig K) : Artifact K :=
  buildProofArtifact (evidence nodeId cell index churn dead) config

end

end

section
variable {parallel : Bool} {α : Type*} [DecidableEq α] {l : List α}

lemma mem_keep {a} : a ∈ keep parallel l ↔ a ∈ l := by
  unfold keep
  split_ifs
  · rfl
  · exact mem_dedup

lemma filter_dedup (p : α → Bool) : l.dedup.filter p = (l.filter p).dedup := by
  induction l with
  | nil => rfl
  | cons a l ih =>
    by_cases ha : a ∈ l
    · rw [dedup_cons_of_mem ha, ih]
      by_cases hp : p a = true
      · rw [filter_cons_of_pos hp, dedup_cons_of_mem (mem_filter.mpr ⟨ha, hp⟩)]
      · rw [filter_cons_of_neg hp]
    · rw [dedup_cons_of_notMem ha]
      by_cases hp : p a = true
      · have hn : a ∉ l.filter p := fun h => ha (mem_filter.mp h).1
        rw [filter_cons_of_pos hp, filter_cons_of_pos hp, dedup_cons_of_notMem hn, ih]
      · rw [filter_cons_of_neg hp, filter_cons_of_neg hp, ih]

lemma filter_keep (p : α → Bool) : (keep parallel l).filter p = keep parallel (l.filter p) := by
  unfold keep
  split_ifs
  · rfl
  · exact filter_dedup p

lemma length_keep_perm {l'} (h : l.Perm l') : (keep parallel l).length = (keep parallel l').length := by
  unfold keep
  split_ifs
  · exact h.length_eq
  · exact h.dedup.length_eq

/-- One more edge is one more stored edge, unless it is stored already. -/
lemma length_keep_cons_iff {a} :
    (keep parallel l).length + 1 = (keep parallel (a :: l)).length ↔ parallel = true ∨ a ∉ l := by
  unfold keep
  cases parallel with
  | true => simp
  | false =>
    by_cases h : a ∈ l
    · simp [dedup_cons_of_mem h, h]
    · simp [dedup_cons_of_notMem h, h]

lemma EdgeKind.asLabel_inj {k k' : EdgeKind} : k.asLabel = k'.asLabel ↔ k = k' := by
  cases k <;> cases k' <;> decide

variable {store : GraphStore} {nodeId : String → NodeId} {cells : List SemanticCell} {edges : List GraphEdge}
  {id : NodeId}

def codeEdges (nodeId : String → NodeId) (cells : List SemanticCell) (edges : List GraphEdge)
    (id : NodeId) : List StoredEdge :=
  (edges.filter fun e =>
    e.target = id ∧ e.kind ≠ .testedBy ∧ e.source ∈ written nodeId cells).map GraphEdge.stored

section
variable (hid : id ∈ written nodeId cells)
include hid

lemma keep_written_filter (p : StoredEdge → Bool) :
    (keep parallel ((writtenEdges nodeId cells edges).map stored)).filter
        (fun e => e.2.2 = id ∧ p e = true) =
      keep parallel ((edges.filter fun e =>
        e.target = id ∧ p e.stored = true ∧ e.source ∈ written nodeId cells).map
          stored) := by
  rw [filter_keep, filter_map, writtenEdges, filter_filter]
  congr 2
  refine filter_congr fun e _ => ?_
  rw [Bool.eq_iff_iff]
  simp only [Function.comp_apply, writable, Bool.and_eq_true, decide_eq_true_eq]
  constructor
  · rintro ⟨⟨ht, hp⟩, hs, -⟩
    exact ⟨ht, hp, hs⟩
  · rintro ⟨ht, hp, hs⟩
    refine ⟨⟨ht, hp⟩, hs, ?_⟩
    rwa [ht]

lemma buildIndex_has : (buildIndex store nodeId cells edges).has id = true := (store.has_iff _ _ _).2 hid

lemma reverseDependents_testedBy :
    (reverseDependents (buildIndex store nodeId cells edges) id (some testedBy.asLabel)).Perm
      ((keep store.parallel ((edges.filter fun e =>
        e.target = id ∧ e.kind = .testedBy ∧ e.source ∈ written nodeId cells).map
          stored)).map (·.1)) := by
  have h := @keep_written_filter store.parallel nodeId cells edges id hid
    fun e => e.2.1 = testedBy.asLabel
  simp only [decide_eq_true_eq, stored, asLabel_inj] at h
  have hperm := store.inNeighbors_perm _ ((writtenEdges nodeId cells edges).map stored) id
    (some testedBy.asLabel) hid
  simp only [reduceCtorEq, false_or, Option.some.injEq, eq_comm (a := testedBy.asLabel)] at hperm
  rw [reverseDependents, if_pos (buildIndex_has hid), ← h]
  exact hperm

lemma testCoverageReach_iff :
    testCoverageReach (buildIndex store nodeId cells edges) id = true ↔
      ∃ e ∈ edges, e.target = id ∧ e.kind = .testedBy ∧ e.source ∈ written nodeId cells := by
  rw [testCoverageReach, (reverseDependents_testedBy hid).isEmpty_eq, Bool.not_eq_true', isEmpty_eq_false_iff,
    ne_eq, map_eq_nil_iff, eq_nil_iff_forall_not_mem, not_forall]
  simp only [not_not, mem_keep, mem_map, mem_filter, decide_eq_true_eq]
  constructor
  · rintro ⟨-, e, ⟨he, h⟩, -⟩
    exact ⟨e, he, h⟩
  · rintro ⟨e, he, h⟩
    exact ⟨e.stored, e, ⟨he, h⟩, rfl⟩

/-- The code dependents of a cell are its stored edges other than those for tests. -/
lemma codeDependentsCount_buildIndex :
    codeDependentsCount (buildIndex store nodeId cells edges) id =
      ((keep store.parallel ((writtenEdges nodeId cells edges).map stored)).filter fun e =>
        e.2.2 = id ∧ (! decide (e.2.1 = testedBy.asLabel)) = true).length := by
  have split := @List.length_eq_length_filter_add _
    ((keep store.parallel ((writtenEdges nodeId cells edges).map stored)).filter fun e => e.2.2 = id)
    fun e => e.2.1 = testedBy.asLabel
  rw [filter_filter, filter_filter] at split
  have hlength (label) := (store.inNeighbors_perm _ ((writtenEdges nodeId cells edges).map stored) id
    label hid).length_eq
  rw [codeDependentsCount, dependentsCount, if_pos (buildIndex_has hid), Option.getD_some, reverseDependents,
    if_pos (buildIndex_has hid), buildIndex, store.inDegree_eq _ _ _ hid, hlength, hlength, length_map,
    length_map]
  simp only [true_or, and_true, reduceCtorEq, false_or, Option.some.injEq,
    eq_comm (a := testedBy.asLabel), Bool.decide_and, Bool.decide_eq_true,
    Bool.and_comm (decide (_ = id))] at split ⊢
  omega

lemma codeDependentsCount_eq :
    codeDependentsCount (buildIndex store nodeId cells edges) id =
      (keep store.parallel (codeEdges nodeId cells edges id)).length := by
  rw [codeDependentsCount_buildIndex hid, keep_written_filter hid]
  simp only [codeEdges, stored, asLabel_inj, Bool.not_eq_true', decide_eq_false_iff_not, ne_eq]

end

lemma codeEdges_append {edges'} : codeEdges nodeId cells (edges ++ edges') id =
    codeEdges nodeId cells edges id ++ codeEdges nodeId cells edges' id := by
  rw [codeEdges, filter_append, map_append]
  rfl

lemma codeEdges_cons_pos {e} (h : e.target = id ∧ e.kind ≠ .testedBy ∧ e.source ∈ written nodeId cells) :
    codeEdges nodeId cells (e :: edges) id = e.stored :: codeEdges nodeId cells edges id := by
  rw [codeEdges, filter_cons, if_pos (decide_eq_true h), map_cons]
  rfl

lemma codeEdges_cons_neg {e}
    (h : ¬ (e.target = id ∧ e.kind ≠ .testedBy ∧ e.source ∈ written nodeId cells)) :
    codeEdges nodeId cells (e :: edges) id = codeEdges nodeId cells edges id := by
  rw [codeEdges, filter_cons, if_neg (mt of_decide_eq_true h)]
  rfl

lemma mem_codeEdges {k} : k ∈ codeEdges nodeId cells edges id ↔
    ∃ e ∈ edges, (e.target = id ∧ e.kind ≠ .testedBy ∧ e.source ∈ written nodeId cells) ∧
      e.stored = k := by
  simp only [codeEdges, mem_map, mem_filter, decide_eq_true_eq, and_assoc]

/-- The code edges from the cells written before are a part of those after one more is written. -/
lemma codeEdges_filter (c : SemanticCell) :
    (codeEdges nodeId (cells ++ [c]) edges id).filter (·.1 ∈ written nodeId cells) =
      codeEdges nodeId cells edges id := by
  rw [codeEdges, codeEdges, filter_map, filter_filter]
  congr 1
  refine filter_congr fun e _ => ?_
  rw [Bool.eq_iff_iff]
  simp only [Function.comp_apply, stored, Bool.and_eq_true, decide_eq_true_eq, mem_written_append]
  constructor
  · rintro ⟨hs, ht, hk, -⟩
    exact ⟨ht, hk, of_decide_eq_true hs⟩
  · rintro ⟨ht, hk, hs⟩
    exact ⟨decide_eq_true hs, ht, hk, .inl hs⟩
end

end SocioWorkspace.Gbrg
