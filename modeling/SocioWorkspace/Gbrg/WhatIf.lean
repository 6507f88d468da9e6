import Mathlib.Algebra.Order.Field.Rat
import SocioWorkspace.Gbrg.Scoring

/-!
# What-if: recompute and compare

Model of `gbrg/crates/gbrg-core/src/whatif.rs`: a hypothetical edit is applied to a copy of the cells
and edges, the index is built again, and the score of one cell is compared with its score before.

The edits look at the edges as they were given, the scores at those that were written.
-/

namespace SocioWorkspace.Gbrg
open List

/-- Rust `Mutation`. -/
inductive Mutation where
  | addTests
  | removeDependent
deriving DecidableEq

/-- Rust `as_str`. -/
def Mutation.asStr : Mutation → String
  | .addTests => "add_tests"
  | .removeDependent => "remove_dependent"

/-- Rust `WhatIfError`; the substrate in memory does not fail. -/
inductive WhatIfError where
  | cellNotFound (cellId : String)
deriving DecidableEq

/-- Rust `WhatIfGraph`. -/
structure WhatIfGraph where
  cells : List SemanticCell
  edges : List GraphEdge

/-- Rust `find_cell`. -/
def WhatIfGraph.findCell (graph : WhatIfGraph) (cellId : String) : Option SemanticCell :=
  graph.cells.find? (·.cellId = cellId)

/-- Rust `WhatIfSnapshot`. -/
structure WhatIfSnapshot (K : Type*) where
  epistemicLevel : EpistemicLevel
  status : String
  blastRadius : K
  dependentsCount : Nat
  testCoverageReach : Bool
  derivation : String

/-- Rust `from_artifact`. -/
def WhatIfSnapshot.fromArtifact {K : Type*} (a : Artifact K) : WhatIfSnapshot K where
  epistemicLevel := a.epistemicLevel
  status := a.status
  blastRadius := a.blastRadius
  dependentsCount := a.dependentsCount
  testCoverageReach := a.testCoverageReach
  derivation := a.derivation

/-- Rust `WhatIfDelta`. -/
structure WhatIfDelta (K : Type*) where
  blastRadiusChange : K
  epistemicLevelChange : String

/-- Rust `WhatIfResult`. -/
structure WhatIfResult (K : Type*) where
  cellId : String
  mutation : Mutation
  before : WhatIfSnapshot K
  after : WhatIfSnapshot K
  delta : WhatIfDelta K
  summary : String
  applied : Bool
  note : String
  method : String

def whatIfMethod : String :=
  "deterministic recompute-and-diff over an in-memory-edited graph copy; " ++
    "NOT counterfactual causal inference (no do-operator / confounders / Pearl)"

/-- What the simulation takes from outside: the graph store, the hash functions, and how a score is printed. -/
structure Platform (K : Type*) where
  store : GraphStore
  nodeId : String → NodeId
  astHashOf : List UInt8 → String
  /-- Rust `{:.2}`. -/
  fixed2 : K → String

section
variable {K : Type*} (p : Platform K)

section
variable (target : SemanticCell)

def synthIri : String := "code://whatif-synthetic/test#" ++ target.cellId

def synth : SemanticCell where
  cellId := synthIri target
  kind := .function
  language := target.language
  filePath := "<whatif-synthetic-test>"
  symbolName := "whatif_test_for_" ++ target.symbolName
  astHash := p.astHashOf "whatif synthetic test".toUTF8.data.toList
  locStart := 0
  locEnd := 0
  generated := true

def synthEdge : GraphEdge where
  source := p.nodeId (synthIri target)
  target := p.nodeId target.cellId
  kind := .testedBy
  weight := 1.0

def testsTarget (e : GraphEdge) : Bool := e.target = p.nodeId target.cellId && e.kind = .testedBy

def callsTarget (e : GraphEdge) : Bool := e.target = p.nodeId target.cellId && e.kind = .calls

end

/-- Rust `{:#018x}`. -/
def hex018 (id : NodeId) : String := .ofList ('0' :: 'x' :: (Nat.toDigits 16 id.toNat).leftpad 16 '0')

/-- What `apply_mutation` leaves: the edited graph, whether it did anything, and a note. -/
structure Edit extends WhatIfGraph where
  applied : Bool
  note : String

/-- Rust `apply_mutation`. -/
def applyMutation (graph : WhatIfGraph) (target : SemanticCell) : Mutation → Edit
  | .addTests =>
    if graph.edges.any (testsTarget p target) then
      ⟨graph, false,
        "cell already has a TESTED_BY edge; adding another is a no-op " ++
          "(test_coverage_reach was already true)"⟩
    else
      ⟨⟨graph.cells ++ [synth p target], graph.edges ++ [synthEdge p target]⟩, true,
        "added one synthetic TESTED_BY edge into the target on the graph copy " ++
          "→ test_coverage_reach recomputes to true"⟩
  | .removeDependent =>
    match graph.edges.find? (callsTarget p target) with
    | some removed =>
      ⟨⟨graph.cells, graph.edges.eraseP (callsTarget p target)⟩, true,
        "dropped one incoming CALLS edge (from node " ++ hex018 removed.source ++
          ") on the graph copy → dependents_count recomputes one lower"⟩
    | none =>
      ⟨graph, false,
        "target has no incoming CALLS edge to drop; recompute equals baseline (no-op)"⟩

variable [Field K] [LinearOrder K] [IsStrictOrderedRing K]

section
variable (graph : WhatIfGraph) (target : SemanticCell) (churn : K) (dead : Bool)

def evidenceIn :
    BlastRadiusInputs K :=
  evidence p.nodeId target (buildIndex p.store p.nodeId graph.cells graph.edges) churn dead

def snapshot (config : ScoringConfig K) : WhatIfSnapshot K :=
  .fromArtifact (emitProofArtifact p.nodeId target
    (buildIndex p.store p.nodeId graph.cells graph.edges) churn dead config)

end

/-- Rust `what_if`. -/
def whatIf (graph : WhatIfGraph) (cellId : String) (mutation : Mutation) (churn : K) (dead : Bool)
    (config : ScoringConfig K) : Except WhatIfError (WhatIfResult K) :=
  match graph.findCell cellId with
  | none => .error (.cellNotFound cellId)
  | some target =>
    let before := snapshot p graph target churn dead config
    let edit := applyMutation p graph target mutation
    let after := snapshot p edit.toWhatIfGraph target churn dead config
    let levelChange :=
      if before.epistemicLevel = after.epistemicLevel then
        before.epistemicLevel.asStr ++ " (unchanged)"
      else before.epistemicLevel.asStr ++ "→" ++ after.epistemicLevel.asStr
    .ok {
      cellId := target.cellId
      mutation := mutation
      before := before
      after := after
      delta := ⟨after.blastRadius - before.blastRadius, levelChange⟩
      summary := "IF " ++ mutation.asStr ++ ": " ++ levelChange ++ ", blast " ++
        p.fixed2 before.blastRadius ++ "→" ++ p.fixed2 after.blastRadius
      applied := edit.applied
      note := edit.note
      method := whatIfMethod }

variable (graph : WhatIfGraph) (cellId : String) (churn : K) (dead : Bool) (config : ScoringConfig K)

structure WhatIfLaws : Prop where
  addTests : ∀ r, whatIf p graph cellId .addTests churn dead config = .ok r →
    r.after.testCoverageReach = true ∧ r.after.dependentsCount = r.before.dependentsCount ∧
      (0 ≤ config.wCoverage → r.after.blastRadius ≤ r.before.blastRadius)
  removeDependent : ∀ r, whatIf p graph cellId .removeDependent churn dead config = .ok r →
    r.applied = true → r.after.dependentsCount + 1 = r.before.dependentsCount ∧
      r.after.blastRadius ≤ r.before.blastRadius
  notApplied : ∀ mutation r, whatIf p graph cellId mutation churn dead config = .ok r →
    r.applied = false → r.after = r.before

variable (target : SemanticCell)

/-- A test that is found reaches the target from a written cell; or the test that is made up was written
before or has no other edge into the target. -/
def TestsCount : Prop :=
  (∃ e ∈ graph.edges, testsTarget p target e = true ∧ e.source ∈ written p.nodeId graph.cells) ∨
    (∀ e ∈ graph.edges, testsTarget p target e = false) ∧
      ∀ e ∈ graph.edges, e.target = p.nodeId target.cellId → e.source = p.nodeId (synthIri target) →
        e.source ∈ written p.nodeId graph.cells

/-- The call that is dropped comes from a written cell, and no other edge is stored as the same. -/
def DropCounts (e : GraphEdge) : Prop :=
  e.source ∈ written p.nodeId graph.cells ∧
    (p.store.parallel = true ∨ ∀ e' ∈ graph.edges.eraseP (callsTarget p target), e'.stored ≠ e.stored)

def DropFalls (inputs : BlastRadiusInputs K) : Prop :=
  0 ≤ config.wDependents ∨ config.dependentsSaturation ≤ 0 ∨
    config.dependentsSaturation ≤ (inputs.dependentsCount - 1 : ℕ) ∨ 1 ≤ rawScore inputs config ∨
    rawScore { inputs with dependentsCount := inputs.dependentsCount - 1 } config ≤ 0

variable {config} {inputs : BlastRadiusInputs K}

lemma clamp_eq {x : K} : clamp x = max 0 (min x 1) := by
  unfold clamp
  split_ifs with h0 h1
  · rw [max_eq_left ((min_le_left x 1).trans h0.le)]
  · rw [min_eq_right h1.le, max_eq_right zero_le_one]
  · rw [min_eq_left (not_lt.mp h1), max_eq_right (not_lt.mp h0)]

lemma clamp_le_clamp_iff {x y : K} : clamp x ≤ clamp y ↔ x ≤ y ∨ x ≤ 0 ∨ 1 ≤ y := by
  rw [clamp_eq, clamp_eq, max_le_iff, min_le_iff, and_iff_right (le_max_left _ _), le_max_iff,
    le_max_iff, le_min_iff, le_min_iff]
  constructor
  · rintro ((h | h) | h | h)
    · exact .inr (.inl h)
    · exact .inl h.1
    · exact absurd h (not_le.mpr zero_lt_one)
    · exact .inr (.inr h.1)
  · rintro (h | h | h)
    · by_cases h1 : x ≤ 1
      · exact .inl (.inr ⟨h, h1⟩)
      · exact .inr (.inr ⟨(not_le.mp h1).le.trans h, le_rfl⟩)
    · exact .inl (.inl h)
    · exact .inr (.inr ⟨h, le_rfl⟩)

lemma dNorm_pred_le {d} : dNorm config (d - 1) ≤ dNorm config d := by
  unfold dNorm
  split_ifs with hs
  · have hd : ((d - 1 : ℕ) : K) ≤ d := Nat.cast_le.mpr (Nat.sub_le d 1)
    exact min_le_min_right 1 (div_le_div_of_nonneg_right hd hs.le)
  · exact le_rfl

/-- The dependents term moves with every dependent until it is saturated. -/
lemma dNorm_pred_eq_iff {d} (hd : 0 < d) : dNorm config (d - 1) = dNorm config d ↔
    config.dependentsSaturation ≤ 0 ∨ config.dependentsSaturation ≤ (d - 1 : ℕ) := by
  have hlt : ((d - 1 : ℕ) : K) < d := Nat.cast_lt.mpr (Nat.sub_lt hd one_pos)
  unfold dNorm
  split_ifs with hs
  · rw [or_iff_right (not_le.mpr hs)]
    constructor
    · intro h
      by_contra hsat
      have below : ((d - 1 : ℕ) : K) / config.dependentsSaturation < 1 := (div_lt_one hs).mpr (not_le.mp hsat)
      rw [min_eq_left below.le] at h
      exact (lt_min (div_lt_div_of_pos_right hlt hs) below).ne h
    · intro hsat
      rw [min_eq_right ((one_le_div hs).mpr hsat), min_eq_right ((one_le_div hs).mpr (hsat.trans hlt.le))]
  · exact ⟨fun _ => .inl (not_lt.mp hs), fun _ => rfl⟩

lemma rawScore_pred_le_iff (hd : 0 < inputs.dependentsCount) :
    rawScore { inputs with dependentsCount := inputs.dependentsCount - 1 } config ≤ rawScore inputs config ↔
      0 ≤ config.wDependents ∨ config.dependentsSaturation ≤ 0 ∨
        config.dependentsSaturation ≤ (inputs.dependentsCount - 1 : ℕ) := by
  rw [← dNorm_pred_eq_iff hd]
  simp only [rawScore, add_le_add_iff_right]
  constructor
  · intro h
    by_cases hw : 0 ≤ config.wDependents
    · exact .inl hw
    · exact .inr (le_antisymm dNorm_pred_le ((mul_le_mul_left_of_neg (not_le.mp hw)).mp h))
  · rintro (hw | he)
    · exact mul_le_mul_of_nonneg_left dNorm_pred_le hw
    · rw [he]

/-- One dependent less does not raise the score exactly if one of five things keeps it down. -/
lemma blastRadiusScore_pred_le_iff (hd : 0 < inputs.dependentsCount) :
    blastRadiusScore { inputs with dependentsCount := inputs.dependentsCount - 1 } config ≤
        blastRadiusScore inputs config ↔ DropFalls config inputs := by
  rw [blastRadiusScore, blastRadiusScore, clamp_le_clamp_iff, rawScore_pred_le_iff hd, DropFalls,
    or_assoc, or_assoc, or_comm (a := rawScore _ config ≤ 0)]

lemma blastRadiusScore_tested_le (hw : 0 ≤ config.wCoverage) :
    blastRadiusScore { inputs with testCoverageReach := true } config ≤
      blastRadiusScore inputs config := by
  refine clamp_le_clamp_iff.mpr (.inl ?_)
  simp only [rawScore, if_true, mul_zero, add_zero]
  have hcov : (0 : K) ≤ if inputs.testCoverageReach = true then 0 else 1 := by
    split_ifs
    · exact le_rfl
    · exact zero_le_one
  exact le_add_of_nonneg_right (mul_nonneg hw hcov)
end

section
variable {K : Type*} {p : Platform K} {graph : WhatIfGraph} {cellId : String} {target : SemanticCell}

lemma target_written (h : graph.findCell cellId = some target) :
    p.nodeId target.cellId ∈ written p.nodeId graph.cells :=
  mem_written.mpr ⟨target, mem_of_find?_eq_some h, rfl⟩

variable {churn : K} {dead : Bool} (hw : p.nodeId target.cellId ∈ written p.nodeId graph.cells)
include hw

/-- A made-up test reaches the target, and only edges of its own can change the dependents. -/
lemma evidence_addTests {tested}
    (htested : tested = ⟨graph.cells ++ [synth p target], graph.edges ++ [synthEdge p target]⟩)
    (hnone : ∀ e ∈ graph.edges, testsTarget p target e = false) :
    (evidenceIn p tested target churn dead).testCoverageReach = true ∧
    ((evidenceIn p tested target churn dead).dependentsCount =
        (evidenceIn p graph target churn dead).dependentsCount ↔
      ∀ e ∈ graph.edges, e.target = p.nodeId target.cellId → e.source = p.nodeId (synthIri target) →
        e.source ∈ written p.nodeId graph.cells) := by
  subst htested
  have hw' : p.nodeId target.cellId ∈ written p.nodeId (graph.cells ++ [synth p target]) :=
    mem_written_append.mpr (.inl hw)
  constructor
  · refine (testCoverageReach_iff hw').mpr ⟨synthEdge p target, ?_, rfl, rfl, ?_⟩
    · exact mem_append_right _ (mem_singleton.mpr rfl)
    · exact mem_written_append.mpr (.inr rfl)
  · -- the new edge stands for a test, so the code edges are those of the old list
    have noCode : ¬ ((synthEdge p target).target = p.nodeId target.cellId ∧
        (synthEdge p target).kind ≠ .testedBy ∧
        (synthEdge p target).source ∈ written p.nodeId (graph.cells ++ [synth p target])) :=
      fun h => h.2.1 rfl
    have part := @codeEdges_filter p.nodeId graph.cells graph.edges (p.nodeId target.cellId)
      (synth p target)
    simp only [evidenceIn, evidence]
    rw [codeDependentsCount_eq hw', codeDependentsCount_eq hw, codeEdges_append,
      codeEdges_cons_neg noCode, ← part, eq_comm]
    change (keep p.store.parallel _).length = (keep p.store.parallel (_ ++ [])).length ↔ _
    rw [append_nil, ← filter_keep, length_filter_eq_length_iff]
    simp only [mem_keep, mem_codeEdges, decide_eq_true_eq]
    constructor
    · intro h e he ht hs
      refine h e.stored ⟨e, he, ⟨ht, ?_, mem_written_append.mpr (.inr hs)⟩, rfl⟩
      intro hk
      simpa [testsTarget, ht, hk] using hnone e he
    · rintro h k ⟨e, he, ⟨ht, -, hs⟩, rfl⟩
      cases mem_written_append.mp hs with
      | inl hs => exact hs
      | inr hs => exact h e he ht hs

/-- A call that is dropped takes no test away, and a dependent exactly if it counts. -/
lemma evidence_removeDependent {dropped e}
    (hdropped : dropped = ⟨graph.cells, graph.edges.eraseP (callsTarget p target)⟩)
    (hfind : graph.edges.find? (callsTarget p target) = some e) :
    (evidenceIn p dropped target churn dead).testCoverageReach =
      (evidenceIn p graph target churn dead).testCoverageReach ∧
    ((evidenceIn p dropped target churn dead).dependentsCount + 1 =
        (evidenceIn p graph target churn dead).dependentsCount ↔ DropCounts p graph target e) := by
  subst hdropped
  obtain ⟨he, before, after, hedges, hbefore⟩ := find?_eq_some_iff_append.mp hfind
  have herase : graph.edges.eraseP (callsTarget p target) = before ++ after := by
    rw [hedges, eraseP_append_right _ (by simpa using hbefore), eraseP_cons_of_pos he]
  simp only [callsTarget, Bool.and_eq_true, decide_eq_true_eq] at he
  simp only [evidenceIn, evidence, DropCounts]
  rw [herase]
  constructor
  · rw [Bool.eq_iff_iff, testCoverageReach_iff hw, testCoverageReach_iff hw, hedges]
    simp only [mem_append, mem_cons]
    constructor
    · rintro ⟨e', h | h, rest⟩
      · exact ⟨e', .inl h, rest⟩
      · exact ⟨e', .inr (.inr h), rest⟩
    · rintro ⟨e', h | rfl | h, ht, hk, hs⟩
      · exact ⟨e', .inl h, ht, hk, hs⟩
      · rw [he.2] at hk
        cases hk
      · exact ⟨e', .inr h, ht, hk, hs⟩
  · rw [codeDependentsCount_eq hw, codeDependentsCount_eq hw, hedges, codeEdges_append, codeEdges_append]
    by_cases hs : e.source ∈ written p.nodeId graph.cells
    · have code : e.target = p.nodeId target.cellId ∧ e.kind ≠ .testedBy ∧
          e.source ∈ written p.nodeId graph.cells := ⟨he.1, by rw [he.2]; decide, hs⟩
      have same : e.stored ∈ codeEdges p.nodeId graph.cells (before ++ after)
          (p.nodeId target.cellId) ↔ ∃ e' ∈ before ++ after, e'.stored = e.stored := by
        rw [mem_codeEdges]
        refine exists_congr fun e' => and_congr_right fun _ => ⟨And.right, fun h => ⟨?_, h⟩⟩
        simp only [GraphEdge.stored, Prod.mk.injEq, EdgeKind.asLabel_inj] at h
        rwa [h.1, h.2.1, h.2.2]
      rw [codeEdges_cons_pos code, length_keep_perm perm_middle, length_keep_cons_iff,
        ← codeEdges_append, same, and_iff_right hs]
      push Not
      rfl
    · rw [codeEdges_cons_neg (fun h => hs h.2.2)]
      exact ⟨fun h => absurd h (Nat.succ_ne_self _), fun h => absurd h.1 hs⟩
end

section
variable {K : Type*} {p : Platform K} {graph : WhatIfGraph} {cellId : String} {target : SemanticCell}

lemma applyMutation_notApplied {mutation} (h : (applyMutation p graph target mutation).applied = false) :
    (applyMutation p graph target mutation).toWhatIfGraph = graph := by
  cases mutation with
  | addTests =>
    unfold applyMutation at h ⊢
    split_ifs at h ⊢
    rfl
  | removeDependent =>
    unfold applyMutation at h ⊢
    cases hfind : graph.edges.find? (callsTarget p target) with
    | some e =>
      rw [hfind] at h
      cases h
    | none => rfl

variable [Field K] [LinearOrder K] {churn : K} {dead : Bool} {config : ScoringConfig K}

variable (p churn dead config) in
lemma whatIf_found (mutation : Mutation) (h : graph.findCell cellId = some target) :
    ∃ r, whatIf p graph cellId mutation churn dead config = .ok r ∧
      r.before = snapshot p graph target churn dead config ∧
      r.after = snapshot p (applyMutation p graph target mutation).toWhatIfGraph target churn dead
        config ∧
      r.applied = (applyMutation p graph target mutation).applied := by
  rw [whatIf, h]
  exact ⟨_, rfl, rfl, rfl, rfl⟩

variable [IsStrictOrderedRing K] (hw : p.nodeId target.cellId ∈ written p.nodeId graph.cells)
include hw

lemma addTests_iff {tested} (htested : tested = (applyMutation p graph target .addTests).toWhatIfGraph) :
    ((snapshot p tested target churn dead config).testCoverageReach = true ∧
      (snapshot p tested target churn dead config).dependentsCount =
        (snapshot p graph target churn dead config).dependentsCount ∧
      (0 ≤ config.wCoverage → (snapshot p tested target churn dead config).blastRadius ≤
        (snapshot p graph target churn dead config).blastRadius)) ↔ TestsCount p graph target := by
  unfold TestsCount
  by_cases hfound : ∃ e ∈ graph.edges, testsTarget p target e = true
  · -- nothing is edited, so the test that was found must be one that the index has
    have hsame : tested = graph := by
      rw [htested, applyMutation, if_pos (any_eq_true.mpr hfound)]
    have hnot : ¬ ∀ e ∈ graph.edges, testsTarget p target e = false := by
      obtain ⟨e, he, ht⟩ := hfound
      exact fun h => absurd ht (by rw [h e he]; decide)
    have reach : (snapshot p graph target churn dead config).testCoverageReach = true ↔
        ∃ e ∈ graph.edges, testsTarget p target e = true ∧
          e.source ∈ written p.nodeId graph.cells := by
      refine (testCoverageReach_iff hw).trans ?_
      simp only [testsTarget, Bool.and_eq_true, decide_eq_true_eq, and_assoc]
    rw [hsame, ← reach, or_iff_left (fun h => hnot h.1)]
    exact ⟨And.left, fun h => ⟨h, rfl, fun _ => le_rfl⟩⟩
  · have hnone : ∀ e ∈ graph.edges, testsTarget p target e = false := by
      intro e he
      exact Bool.eq_false_iff.mpr fun ht => hfound ⟨e, he, ht⟩
    have hnot : ¬ ∃ e ∈ graph.edges, testsTarget p target e = true ∧
        e.source ∈ written p.nodeId graph.cells := by
      rintro ⟨e, he, ht, -⟩
      exact hfound ⟨e, he, ht⟩
    rw [applyMutation, if_neg (mt any_eq_true.mp hfound)] at htested
    obtain ⟨reach, dependents⟩ := @evidence_addTests K p graph target churn dead hw tested htested hnone
    rw [or_iff_right hnot, and_iff_right hnone, ← dependents]
    refine ⟨fun h => h.2.1, fun h => ⟨reach, h, fun hcov => ?_⟩⟩
    -- the two bodies of evidence differ in the test only
    have edited : evidenceIn p tested target churn dead =
        { evidenceIn p graph target churn dead with testCoverageReach := true } :=
      BlastRadiusInputs.ext h reach rfl rfl rfl
    change blastRadiusScore (evidenceIn p tested target churn dead) config ≤
      blastRadiusScore (evidenceIn p graph target churn dead) config
    rw [edited]
    exact blastRadiusScore_tested_le hcov

lemma removeDependent_iff {dropped e}
    (hdropped : dropped = ⟨graph.cells, graph.edges.eraseP (callsTarget p target)⟩)
    (hfind : graph.edges.find? (callsTarget p target) = some e) :
    ((snapshot p dropped target churn dead config).dependentsCount + 1 =
        (snapshot p graph target churn dead config).dependentsCount ∧
      (snapshot p dropped target churn dead config).blastRadius ≤
        (snapshot p graph target churn dead config).blastRadius) ↔
      DropCounts p graph target e ∧ DropFalls config (evidenceIn p graph target churn dead) := by
  obtain ⟨reach, dependents⟩ :=
    @evidence_removeDependent K p graph target churn dead hw dropped e hdropped hfind
  rw [← dependents]
  refine and_congr_right fun h => ?_
  have hcount : (evidenceIn p dropped target churn dead).dependentsCount =
      (evidenceIn p graph target churn dead).dependentsCount - 1 := Nat.eq_sub_of_add_eq h
  have edited : evidenceIn p dropped target churn dead =
      { evidenceIn p graph target churn dead with
        dependentsCount := (evidenceIn p graph target churn dead).dependentsCount - 1 } :=
    BlastRadiusInputs.ext hcount reach rfl rfl rfl
  change blastRadiusScore (evidenceIn p dropped target churn dead) config ≤
    blastRadiusScore (evidenceIn p graph target churn dead) config ↔ _
  rw [edited]
  refine blastRadiusScore_pred_le_iff ?_
  exact Nat.lt_of_lt_of_eq (Nat.succ_pos _) h
end

/-- The promises hold exactly if the edits count: tests that are found or made up, and a call that is
dropped, whose loss must not raise the score. -/
theorem whatIf_iff {K : Type*} [Field K] [LinearOrder K] [IsStrictOrderedRing K] (p : Platform K)
    (graph : WhatIfGraph) (cellId : String) (churn : K) (dead : Bool) (config : ScoringConfig K) :
    WhatIfLaws p graph cellId churn dead config ↔
      ∀ target, graph.findCell cellId = some target →
        TestsCount p graph target ∧
          ∀ e, graph.edges.find? (callsTarget p target) = some e →
            DropCounts p graph target e ∧ DropFalls config (evidenceIn p graph target churn dead) := by
  constructor
  · intro laws target htarget
    have hw : p.nodeId target.cellId ∈ written p.nodeId graph.cells := target_written htarget
    constructor
    · obtain ⟨r, hr, hb, ha, -⟩ := whatIf_found p churn dead config .addTests htarget
      have h := laws.addTests r hr
      rw [ha, hb] at h
      exact (addTests_iff hw rfl).mp h
    · intro e hfind
      obtain ⟨r, hr, hb, ha, happ⟩ := whatIf_found p churn dead config .removeDependent htarget
      simp only [applyMutation, hfind] at ha happ
      have h := laws.removeDependent r hr happ
      rw [ha, hb] at h
      exact (removeDependent_iff hw rfl hfind).mp h
  · intro h
    cases htarget : graph.findCell cellId with
    | none =>
      have missing : ∀ mutation r, whatIf p graph cellId mutation churn dead config ≠ .ok r := by
        intro mutation r hr
        rw [whatIf, htarget] at hr
        cases hr
      exact ⟨fun r hr => absurd hr (missing _ r), fun r hr => absurd hr (missing _ r),
        fun mutation r hr => absurd hr (missing mutation r)⟩
    | some target =>
      have hw : p.nodeId target.cellId ∈ written p.nodeId graph.cells := target_written htarget
      obtain ⟨tests, drops⟩ := h target htarget
      refine ⟨?_, ?_, ?_⟩
      · intro r hr
        obtain ⟨r', hr', hb, ha, -⟩ := whatIf_found p churn dead config .addTests htarget
        obtain rfl := Except.ok.inj (hr'.symm.trans hr)
        rw [ha, hb]
        exact (addTests_iff hw rfl).mpr tests
      · intro r hr happ
        obtain ⟨r', hr', hb, ha, happ'⟩ := whatIf_found p churn dead config .removeDependent htarget
        obtain rfl := Except.ok.inj (hr'.symm.trans hr)
        cases hfind : graph.edges.find? (callsTarget p target) with
        | none =>
          simp only [applyMutation, hfind] at happ'
          rw [happ] at happ'
          cases happ'
        | some e =>
          simp only [applyMutation, hfind] at ha
          rw [ha, hb]
          exact (removeDependent_iff hw rfl hfind).mpr (drops e hfind)
      · intro mutation r hr happ
        obtain ⟨r', hr', hb, ha, happ'⟩ := whatIf_found p churn dead config mutation htarget
        obtain rfl := Except.ok.inj (hr'.symm.trans hr)
        rw [ha, hb, applyMutation_notApplied (happ'.symm.trans happ)]

def rustFunction (path symbol : String) : SemanticCell where
  cellId := "code://rust/" ++ path ++ "#" ++ symbol
  kind := .function
  language := "rust"
  filePath := path
  symbolName := symbol
  astHash := ""
  locStart := 1
  locEnd := 1
  generated := false

def plainPlatform : Platform ℚ where
  store := .ofList false
  nodeId := cellIriToNodeId sha256
  astHashOf slice := Sha256.hexdigest (Sha256.digest (slice.map UInt8.toNat))
  fixed2 _ := ""

def calledOnce : WhatIfGraph where
  cells := [rustFunction "src/lib.rs" "target", rustFunction "src/main.rs" "main"]
  edges := [{
    source := cellIriToNodeId sha256 "code://rust/src/main.rs#main"
    target := cellIriToNodeId sha256 "code://rust/src/lib.rs#target"
    kind := .calls
    weight := 1.0 }]

theorem whatIf_iff_calledOnce :
    WhatIfLaws plainPlatform calledOnce "code://rust/src/lib.rs#target" 0 false .default := by
  refine (whatIf_iff plainPlatform calledOnce _ 0 false .default).mpr fun target htarget => ?_
  obtain rfl : rustFunction "src/lib.rs" "target" = target := Option.some.inj htarget
  have caller : plainPlatform.nodeId "code://rust/src/main.rs#main" ∈
      written plainPlatform.nodeId calledOnce.cells :=
    mem_written.mpr ⟨rustFunction "src/main.rs" "main", mem_cons_of_mem _ mem_cons_self, rfl⟩
  refine ⟨.inr ⟨?_, ?_⟩, fun e he => ⟨⟨?_, .inr ?_⟩, .inl ?_⟩⟩
  · intro e he
    obtain rfl := mem_singleton.mp he
    exact Bool.and_false _
  · intro e he _ _
    obtain rfl := mem_singleton.mp he
    exact caller
  · obtain rfl := mem_singleton.mp (mem_of_find?_eq_some he)
    exact caller
  · intro e' he'
    have called := find?_some he
    obtain rfl := mem_singleton.mp (mem_of_find?_eq_some he)
    change e' ∈ List.eraseP _ [_] at he'
    rw [eraseP_cons_of_pos called] at he'
    cases he'
  · change (0 : ℚ) ≤ 1 / 2
    norm_num

/-- One function, with a test edge from a function that is no cell of the graph. -/
def danglingTest : WhatIfGraph where
  cells := [rustFunction "src/lib.rs" "target"]
  edges := [{
    source := cellIriToNodeId sha256 "code://rust/tests/api.rs#check"
    target := cellIriToNodeId sha256 "code://rust/src/lib.rs#target"
    kind := .testedBy
    weight := 1.0 }]

set_option maxRecDepth 100000 in
/-- `add_tests` takes the function for tested and does nothing, and it stays untested. -/
theorem danglingTest_not_reached :
    (whatIf plainPlatform danglingTest "code://rust/src/lib.rs#target" .addTests 0 false
        .default).map (fun r => (r.applied, r.after.testCoverageReach)) = .ok (false, false) ∧
      ¬ WhatIfLaws plainPlatform danglingTest "code://rust/src/lib.rs#target" 0 false .default := by
  have eval : (whatIf plainPlatform danglingTest "code://rust/src/lib.rs#target" .addTests 0 false
      .default).map (fun r => (r.applied, r.after.testCoverageReach)) = .ok (false, false) := by
    decide +kernel
  refine ⟨eval, fun laws => ?_⟩
  cases hr : whatIf plainPlatform danglingTest "code://rust/src/lib.rs#target" .addTests 0 false
      .default with
  | error e =>
    rw [hr] at eval
    cases eval
  | ok r =>
    rw [hr] at eval
    have reach := (laws.addTests r hr).1
    have missed : r.after.testCoverageReach = false := congrArg Prod.snd (Except.ok.inj eval)
    rw [missed] at reach
    cases reach

end SocioWorkspace.Gbrg
