import Mathlib.Algebra.Order.Field.Rat
import SocioWorkspace.Gbrg.Closed
import SocioWorkspace.Gbrg.Scoring

/-!
# Calls across files

Model of `analyze_path_report` (`gbrg/crates/gbrg-analyze/src/lib.rs`): every file is parsed on its own, and
the call sites that their file does not answer are looked up in one table of all definitions. A name with one
definition gives an edge, a name with none is external, and a name with several is left alone. The table has
node ids, and all the functions of one name in one file are one id.

The files come in the order of their paths, each with its language and its tree; `collect_source_files` and
the git history are outside, and the substrate in memory does not fail.
-/

namespace SocioWorkspace.Gbrg
open List

structure SourceFile where
  language : Language
  filePath : String
  tree : SyntaxTree

/-- What the analyzer takes from outside: the graph store, the hash functions, and the churn of a file. -/
structure Substrate (K : Type*) where
  store : GraphStore
  nodeId : String → NodeId
  astHashOf : List UInt8 → String
  /-- Rust `file_churn`. -/
  fileChurn : String → K

section
variable {K : Type*} (sub : Substrate K)

def SourceFile.file (f : SourceFile) : File where
  language := f.language
  filePath := f.filePath
  cellIriToNodeId := sub.nodeId
  astHashOf := sub.astHashOf

/-- Rust `parse_file`. -/
def SourceFile.parsed (f : SourceFile) : ParseResult := parseSource (f.file sub) f.tree

/-- Rust `func_defs` and `class_defs`: the ids of the definitions of a name. -/
abbrev Definitions := SortedMap String (List NodeId)

/-- Rust `entry(symbol_name).or_default().insert(node_id)`, for the cells of one kind. -/
def Definitions.define (kind : CellKind) (table : Definitions) (cell : SemanticCell) : Definitions :=
  if cell.kind = kind then
    table.insert cell.symbolName
      (((table.get? cell.symbolName).getD []).insert (sub.nodeId cell.cellId))
  else table

structure Gathered (K : Type*) where
  filesParsed : Nat
  testFiles : Nat
  churnFilesNonzero : Nat
  allCells : List SemanticCell
  allEdges : List GraphEdge
  globalTestCells : List String
  globalTestFunctionCells : List String
  testFilePaths : List String
  funcDefs : Definitions
  classDefs : Definitions
  pendingXfileCalls : List UnresolvedCall
  pendingXfileInherits : List UnresolvedInherit
  churnByFile : SortedMap String K

inductive XfileOutcome where
  | resolved (edge : GraphEdge)
  | ambiguous
  | external
  | testScaffold

def XfileOutcome.edge? : XfileOutcome → Option GraphEdge
  | .resolved edge => some edge
  | .ambiguous | .external | .testScaffold => none

/-- The body of the loop over the pending calls. The caller itself does not count as a definition. -/
def Gathered.resolveCall (g : Gathered K) (site : UnresolvedCall) : XfileOutcome :=
  let callerNode := sub.nodeId site.callerIri
  match g.funcDefs.get? site.calleeSymbol with
  | none => .external
  | some nodes =>
    match nodes.filter (· ≠ callerNode) with
    | [only] =>
      if site.callerIri ∈ g.globalTestFunctionCells then
        .resolved { source := callerNode, target := only, kind := .testedBy, weight := 1.0 }
      else if site.callerIri ∈ g.globalTestCells then .testScaffold
      else .resolved { source := callerNode, target := only, kind := .calls, weight := 1.0 }
    | [] => .external
    | _ => .ambiguous

def Gathered.resolveInherit (g : Gathered K) (site : UnresolvedInherit) : Option GraphEdge :=
  let subNode := sub.nodeId site.subclassIri
  match g.classDefs.get? site.baseSymbol with
  | none => none
  | some nodes =>
    match nodes.filter (· ≠ subNode) with
    | [only] => some { source := subNode, target := only, kind := .inherits, weight := 1.0 }
    | _ => none

structure XfileCalls where
  edges : List GraphEdge
  resolved : Nat
  ambiguous : Nat
  external : Nat
  testScaffold : Nat

def XfileCalls.count (x : XfileCalls) : XfileOutcome → XfileCalls
  | .resolved edge => { x with edges := x.edges ++ [edge], resolved := x.resolved + 1 }
  | .ambiguous => { x with ambiguous := x.ambiguous + 1 }
  | .external => { x with external := x.external + 1 }
  | .testScaffold => { x with testScaffold := x.testScaffold + 1 }

def Gathered.tally (g : Gathered K) : XfileCalls :=
  g.pendingXfileCalls.foldl (fun x site => x.count (g.resolveCall sub site)) ⟨g.allEdges, 0, 0, 0, 0⟩

/-- The cells, each id once (Rust `unique_cells`). -/
def uniqueCells (cells : List SemanticCell) : List SemanticCell :=
  (cells.foldl (fun (s : List NodeId × List SemanticCell) cell =>
    let id := sub.nodeId cell.cellId
    if id ∈ s.1 then s else (id :: s.1, s.2 ++ [cell])) ([], [])).2

/-- Rust `AnalyzePathReport`. -/
structure AnalyzePathReport (K : Type*) where
  artifacts : List (Artifact K)
  filesParsed : Nat
  testFiles : Nat
  cellsTotal : Nat
  cellsScored : Nat
  testCells : Nat
  xfileCallsResolved : Nat
  xfileCallsAmbiguous : Nat
  xfileCallsExternal : Nat
  xfileCallsTestScaffold : Nat
  xfileInheritsResolved : Nat
  testedByEdges : Nat
  churnFilesNonzero : Nat
  cells : List SemanticCell
  edges : List GraphEdge
  churnByFile : SortedMap String K

variable [Field K] [LinearOrder K]

def Gathered.add (g : Gathered K) (f : SourceFile) : Gathered K :=
  let parsed := f.parsed sub
  let isTest := isTestFile f.filePath f.language
  let churn := sub.fileChurn f.filePath
  { filesParsed := g.filesParsed + 1
    testFiles := g.testFiles + if isTest then 1 else 0
    churnFilesNonzero := g.churnFilesNonzero + if 0 < churn then 1 else 0
    allCells := g.allCells ++ parsed.cells
    allEdges := g.allEdges ++ parsed.edges
    globalTestCells := g.globalTestCells ∪ parsed.testCells
    globalTestFunctionCells := g.globalTestFunctionCells ∪ parsed.testFunctionCells
    testFilePaths := if isTest then g.testFilePaths.insert f.filePath else g.testFilePaths
    funcDefs := parsed.cells.foldl (Definitions.define sub .function) g.funcDefs
    classDefs := parsed.cells.foldl (Definitions.define sub .cls) g.classDefs
    pendingXfileCalls := g.pendingXfileCalls ++ parsed.unresolvedCallSites
    pendingXfileInherits := g.pendingXfileInherits ++ parsed.unresolvedInheritSites
    churnByFile := g.churnByFile.insert f.filePath churn }

def gather (files : List SourceFile) : Gathered K :=
  files.foldl (Gathered.add sub) ⟨0, 0, 0, [], [], [], [], [], .empty, .empty, [], [], .empty⟩

/-- Rust `analyze_path_report`. -/
def analyzePathReport (config : ScoringConfig K) (files : List SourceFile) : AnalyzePathReport K :=
  let g := gather sub files
  let calls := g.tally sub
  let inherits := g.pendingXfileInherits.filterMap (g.resolveInherit sub)
  let allEdges := calls.edges ++ inherits
  let index := buildIndex sub.store sub.nodeId g.allCells allEdges
  let unique := uniqueCells sub g.allCells
  let isTestCell := fun cell : SemanticCell =>
    cell.cellId ∈ g.globalTestCells || cell.filePath ∈ g.testFilePaths
  let artifacts := (unique.filter fun cell => ! isTestCell cell).map fun cell =>
    emitProofArtifact sub.nodeId cell index ((g.churnByFile.get? cell.filePath).getD 0) false config
  let edges := writtenEdges sub.nodeId g.allCells allEdges
  { artifacts := artifacts
    filesParsed := g.filesParsed
    testFiles := g.testFiles
    cellsTotal := unique.length
    cellsScored := artifacts.length
    testCells := unique.countP isTestCell
    xfileCallsResolved := calls.resolved
    xfileCallsAmbiguous := calls.ambiguous
    xfileCallsExternal := calls.external
    xfileCallsTestScaffold := calls.testScaffold
    xfileInheritsResolved := inherits.length
    testedByEdges := edges.countP (·.kind = .testedBy)
    churnFilesNonzero := g.churnFilesNonzero
    cells := unique
    edges := edges
    churnByFile := g.churnByFile }
end

def SourceFile.functionNames (f : SourceFile) : List String :=
  (fileVisits f.language f.tree).filterMap (·.funcName f.language)

def functionNames (files : List SourceFile) : List String := files.flatMap (·.functionNames)

section
variable {K : Type*} (sub : Substrate K)

section
variable (files : List SourceFile)

def pendingCalls : List UnresolvedCall := files.flatMap fun f => (f.parsed sub).unresolvedCallSites

def definitionIds (name : String) : List NodeId :=
  (files.filter fun f => name ∈ f.functionNames).map fun f => sub.nodeId ((f.file sub).defIri name)

def TestScaffold (site : UnresolvedCall) : Prop :=
  (∀ f ∈ files, site.callerIri ∉ (f.parsed sub).testFunctionCells) ∧
    ∃ f ∈ files, site.callerIri ∈ (f.parsed sub).testCells

/-- The definitions of a name, without the caller, have one id. -/
def OneId (site : UnresolvedCall) : Prop :=
  ∃ only, ∀ id, (id ∈ definitionIds sub files site.calleeSymbol ∧ id ≠ sub.nodeId site.callerIri) ↔ id = only

end

variable [Field K] [LinearOrder K]

/-- An edge is added only for a name with one definition, and every call site is counted once. -/
structure NeverGuesses (config : ScoringConfig K) (files : List SourceFile) : Prop where
  unique : ∀ site ∈ pendingCalls sub files, ∀ edge,
    (gather sub files).resolveCall sub site = .resolved edge →
      (functionNames files).count site.calleeSymbol = 1
  counted : let report := analyzePathReport sub config files
    report.xfileCallsResolved + report.xfileCallsAmbiguous + report.xfileCallsExternal +
      report.xfileCallsTestScaffold = (files.map fun f => (f.parsed sub).unresolvedCalls).sum
end

section
variable {K : Type*} [Field K] [LinearOrder K] {sub : Substrate K}
  {files : List SourceFile}

lemma gather_append (f : SourceFile) :
    gather sub (files ++ [f]) = (gather sub files).add sub f := foldl_concat ..

lemma gather_concat {α : Type*} (field : Gathered K → List α) (part : SourceFile → List α)
    (empty : field (gather sub []) = []) (add : ∀ g f, field (Gathered.add sub g f) = field g ++ part f) :
    field (gather sub files) = files.flatMap part := by
  induction files using List.reverseRecOn with
  | nil => exact empty
  | append_singleton files f ih =>
    rw [gather_append, add, ih, flatMap_append, flatMap_singleton]

lemma mem_gather_union (field : Gathered K → List String) (part : SourceFile → List String)
    (empty : field (gather sub []) = [])
    (add : ∀ g f, field (Gathered.add sub g f) = field g ∪ part f) {iri} :
    iri ∈ field (gather sub files) ↔ ∃ f ∈ files, iri ∈ part f := by
  induction files using List.reverseRecOn with
  | nil =>
    rw [empty]
    simp
  | append_singleton files f ih =>
    rw [gather_append, add, mem_union_iff, ih]
    simp only [mem_append, mem_singleton, or_and_right, exists_or, exists_eq_left]

lemma gather_funcDefs : (gather sub files).funcDefs =
    (gather sub files).allCells.foldl (Definitions.define sub .function) .empty := by
  induction files using List.reverseRecOn with
  | nil => rfl
  | append_singleton files f ih =>
    rw [gather_append]
    change (f.parsed sub).cells.foldl _ (gather sub files).funcDefs =
      ((gather sub files).allCells ++ (f.parsed sub).cells).foldl _ _
    rw [foldl_append, ih]

end

section
variable {K : Type*} {sub : Substrate K} {kind : CellKind} {table : Definitions}

def Definitions.ids (table : Definitions) (name : String) : List NodeId := (table.get? name).getD []

variable {cells : List SemanticCell}

lemma mem_defineAll {name id} :
    id ∈ Definitions.ids (cells.foldl (Definitions.define sub kind) .empty) name ↔
      ∃ c ∈ cells, c.kind = kind ∧ c.symbolName = name ∧ sub.nodeId c.cellId = id := by
  induction cells using List.reverseRecOn with
  | nil => simp [Definitions.ids]
  | append_singleton cells c ih =>
    simp only [mem_append, mem_singleton, or_and_right, exists_or, exists_eq_left, ← ih, foldl_concat]
    unfold Definitions.define Definitions.ids
    by_cases hk : c.kind = kind
    · rw [if_pos hk, SortedMap.get?_insert]
      by_cases hn : name = c.symbolName
      · subst hn
        rw [if_pos rfl, Option.getD_some, mem_insert_iff, or_comm]
        simp only [hk, true_and, eq_comm (a := id)]
      · rw [if_neg hn]
        simp only [ne_comm.mp hn, false_and, and_false, or_false]
    · rw [if_neg hk]
      simp only [hk, false_and, or_false]

lemma functionCell_iff {f : SourceFile} {name iri} :
    (∃ c ∈ (f.parsed sub).cells, c.kind = .function ∧ c.symbolName = name ∧ c.cellId = iri) ↔
      name ∈ f.functionNames ∧ iri = (f.file sub).defIri name := by
  have cells : ((f.parsed sub).cells.filter (·.kind = .function)).map
      (fun c => (c.symbolName, c.cellId)) =
        f.functionNames.map fun s => (s, (f.file sub).defIri s) := by
    change ((walked (f.file sub) f.tree).cells.filter _).map _ = _
    rw [walked_eq]
    exact after_functionCells _
  have mem := congrArg ((name, iri) ∈ ·) cells
  simp only [mem_map, mem_filter, decide_eq_true_eq, Prod.mk.injEq, eq_iff_iff] at mem
  constructor
  · rintro ⟨c, hc, hk, hn⟩
    obtain ⟨s, hs, rfl, e⟩ := mem.mp ⟨c, ⟨hc, hk⟩, hn⟩
    exact ⟨hs, e.symm⟩
  · rintro ⟨hs, e⟩
    obtain ⟨c, ⟨hc, hk⟩, hn⟩ := mem.mpr ⟨name, hs, rfl, e.symm⟩
    exact ⟨c, hc, hk, hn⟩

variable [Field K] [LinearOrder K] {files : List SourceFile}

lemma mem_funcDefs {name id} :
    id ∈ (gather sub files).funcDefs.ids name ↔ id ∈ definitionIds sub files name := by
  rw [gather_funcDefs, mem_defineAll, gather_concat (·.allCells) _ rfl fun _ _ => rfl]
  simp only [definitionIds, mem_map, mem_filter, decide_eq_true_eq, mem_flatMap]
  constructor
  · rintro ⟨c, ⟨f, hf, hc⟩, hk, hn, rfl⟩
    obtain ⟨hs, e⟩ := functionCell_iff.mp ⟨c, hc, hk, hn, rfl⟩
    exact ⟨f, ⟨hf, hs⟩, by rw [← e]⟩
  · rintro ⟨f, ⟨hf, hs⟩, rfl⟩
    obtain ⟨c, hc, hk, hn, e⟩ := functionCell_iff.mpr ⟨hs, rfl⟩
    exact ⟨c, ⟨f, hf, hc⟩, hk, hn, by rw [e]⟩

lemma nodup_funcDefs {name} : ((gather sub files).funcDefs.ids name).Nodup := by
  rw [gather_funcDefs]
  induction (gather sub files).allCells using List.reverseRecOn generalizing name with
  | nil => exact nodup_nil
  | append_singleton cells c ih =>
    rw [foldl_concat]
    unfold Definitions.define Definitions.ids
    by_cases hk : c.kind = .function
    · rw [if_pos hk, SortedMap.get?_insert]
      by_cases hn : name = c.symbolName
      · rw [if_pos hn]
        exact (@ih c.symbolName).insert
      · rw [if_neg hn]
        exact ih
    · rw [if_neg hk]
      exact ih
end

lemma filter_eq_singleton {α : Type*} {l : List α} {p : α → Bool} {a} (nodup : l.Nodup) :
    l.filter p = [a] ↔ ∀ x, (x ∈ l ∧ p x = true) ↔ x = a := by
  rw [← perm_singleton, perm_ext_iff_of_nodup (nodup.filter p) (nodup_singleton a)]
  simp only [mem_filter, mem_singleton]

section
variable {K : Type*} (sub : Substrate K)

def Gathered.xfileEdge (g : Gathered K) (site : UnresolvedCall) (callee : NodeId) : GraphEdge where
  source := sub.nodeId site.callerIri
  target := callee
  kind := if site.callerIri ∈ g.globalTestFunctionCells then .testedBy else .calls
  weight := 1.0

variable {sub} {site : UnresolvedCall}

lemma resolveCall_eq_resolved {g : Gathered K} {edge} :
    g.resolveCall sub site = .resolved edge ↔
      ¬ (site.callerIri ∉ g.globalTestFunctionCells ∧ site.callerIri ∈ g.globalTestCells) ∧
        ∃ only, (g.funcDefs.ids site.calleeSymbol).filter (· ≠ sub.nodeId site.callerIri) = [only] ∧
          g.xfileEdge sub site only = edge := by
  unfold Gathered.resolveCall Gathered.xfileEdge Definitions.ids
  cases g.funcDefs.get? site.calleeSymbol with
  | none => simp
  | some nodes =>
    dsimp only [Option.getD_some]
    cases nodes.filter (· ≠ sub.nodeId site.callerIri) with
    | nil => simp
    | cons only rest =>
      cases rest with
      | nil =>
        by_cases hf : site.callerIri ∈ g.globalTestFunctionCells
        · simp [hf]
        · by_cases ht : site.callerIri ∈ g.globalTestCells
          · simp [hf, ht]
          · simp [hf, ht]
      | cons second rest => simp

lemma OneId.count_pos {files} (h : OneId sub files site) :
    0 < (functionNames files).count site.calleeSymbol := by
  obtain ⟨only, h⟩ := h
  obtain ⟨f, hf, -⟩ := mem_map.mp ((h only).mpr rfl).1
  obtain ⟨hf, hs⟩ := mem_filter.mp hf
  exact count_pos_iff.mpr (mem_flatMap.mpr ⟨f, hf, of_decide_eq_true hs⟩)

variable [Field K] [LinearOrder K] {files : List SourceFile}

lemma resolveCall_resolved :
    (∃ edge, (gather sub files).resolveCall sub site = .resolved edge) ↔
      ¬ TestScaffold sub files site ∧ OneId sub files site := by
  have scaffold : (site.callerIri ∉ (gather sub files).globalTestFunctionCells ∧
      site.callerIri ∈ (gather sub files).globalTestCells) ↔ TestScaffold sub files site := by
    rw [mem_gather_union (·.globalTestCells) _ rfl fun _ _ => rfl,
      mem_gather_union (·.globalTestFunctionCells) _ rfl fun _ _ => rfl, TestScaffold]
    simp only [not_exists, not_and]
  have one : (∃ only, ((gather sub files).funcDefs.ids site.calleeSymbol).filter
      (· ≠ sub.nodeId site.callerIri) = [only]) ↔ OneId sub files site := by
    simp only [filter_eq_singleton nodup_funcDefs, mem_funcDefs, decide_eq_true_eq, OneId]
  constructor
  · rintro ⟨edge, h⟩
    obtain ⟨hs, only, ho, -⟩ := resolveCall_eq_resolved.mp h
    exact ⟨mt scaffold.mpr hs, one.mp ⟨only, ho⟩⟩
  · rintro ⟨hs, ho⟩
    obtain ⟨only, ho⟩ := one.mpr ho
    exact ⟨_, resolveCall_eq_resolved.mpr ⟨mt scaffold.mp hs, only, ho, rfl⟩⟩

def XfileCalls.total (x : XfileCalls) : Nat := x.resolved + x.ambiguous + x.external + x.testScaffold

lemma XfileCalls.total_count (x : XfileCalls) (o : XfileOutcome) : (x.count o).total = x.total + 1 := by
  cases o with
  | resolved | ambiguous | external | testScaffold => simp only [count, total]; omega

lemma XfileCalls.edges_count (x : XfileCalls) (o : XfileOutcome) :
    (x.count o).edges = x.edges ++ o.edge?.toList := by
  cases o with
  | resolved => rfl
  | ambiguous | external | testScaffold => exact (append_nil _).symm

lemma foldl_count {α : Type*} (outcome : α → XfileOutcome) (sites : List α) (x : XfileCalls) :
    (sites.foldl (fun x site => x.count (outcome site)) x).total = x.total + sites.length ∧
      (sites.foldl (fun x site => x.count (outcome site)) x).edges =
        x.edges ++ sites.filterMap fun site => (outcome site).edge? := by
  induction sites using List.reverseRecOn with
  | nil => exact ⟨rfl, (append_nil _).symm⟩
  | append_singleton sites site ih =>
    rw [foldl_concat, XfileCalls.total_count, XfileCalls.edges_count, ih.1, ih.2,
      length_append, filterMap_append, append_assoc]
    refine ⟨rfl, ?_⟩
    rw [filterMap_cons, filterMap_nil]
    cases (outcome site).edge? with
    | none => rfl
    | some edge => rfl

lemma tally_total : ((gather sub files).tally sub).total =
    (files.map fun f => (f.parsed sub).unresolvedCalls).sum := by
  rw [Gathered.tally, (foldl_count ..).1, gather_concat (·.pendingXfileCalls) _ rfl fun _ _ => rfl,
    length_flatMap]
  exact Nat.zero_add _

/-- Resolution guesses exactly if a call from outside the scaffolding is of a name with several definitions
under one id. -/
theorem neverGuesses_iff (sub : Substrate K) (config : ScoringConfig K) (files : List SourceFile) :
    NeverGuesses sub config files ↔
      ∀ site ∈ pendingCalls sub files, ¬ TestScaffold sub files site → OneId sub files site →
        ¬ 2 ≤ (functionNames files).count site.calleeSymbol := by
  constructor
  · intro h site hsite hscaffold hone several
    obtain ⟨edge, he⟩ := resolveCall_resolved.mpr ⟨hscaffold, hone⟩
    have := h.unique site hsite edge he
    omega
  · intro h
    refine ⟨?_, tally_total⟩
    intro site hsite edge he
    obtain ⟨hscaffold, hone⟩ := resolveCall_resolved.mp ⟨edge, he⟩
    have := h site hsite hscaffold hone
    have := hone.count_pos
    omega
end

def constructorOf (type : String) (row : Nat) : List SyntaxTree :=
  let new := "fn new() -> " ++ type ++ " \x7b " ++ type ++ " \x7d"
  [leaf "struct_item" none ("struct " ++ type ++ ";") row [
      leaf "type_identifier" (some "name") type row],
    leaf "impl_item" none ("impl " ++ type ++ " \x7b " ++ new ++ " \x7d") row [
      leaf "type_identifier" (some "type") type row,
      leaf "declaration_list" (some "body") ("\x7b " ++ new ++ " \x7d") row [
        leaf "function_item" none new row [
          leaf "identifier" (some "name") "new" row,
          leaf "parameters" (some "parameters") "()" row,
          leaf "type_identifier" (some "return_type") type row,
          leaf "block" (some "body") ("\x7b " ++ type ++ " \x7d") row [
            leaf "identifier" none type row]]]]]

/-- The file `a.rs`, with the types `A` and `B` and a constructor of each. -/
def twoConstructors : SourceFile where
  language := .rust
  filePath := "a.rs"
  tree := leaf "source_file" none
    ("struct A; impl A \x7b fn new() -> A \x7b A \x7d \x7d\n" ++
      "struct B; impl B \x7b fn new() -> B \x7b B \x7d \x7d") 0
    (constructorOf "A" 0 ++ constructorOf "B" 1)

/-- The file `b.rs`: `fn main() { A::new(); }`. -/
def callsConstructor : SourceFile where
  language := .rust
  filePath := "b.rs"
  tree := leaf "source_file" none "fn main() \x7b A::new(); \x7d" 0 [
    leaf "function_item" none "fn main() \x7b A::new(); \x7d" 0 [
      leaf "identifier" (some "name") "main" 0,
      leaf "parameters" (some "parameters") "()" 0,
      leaf "block" (some "body") "\x7b A::new(); \x7d" 0 [
        leaf "expression_statement" none "A::new();" 0 [
          leaf "call_expression" none "A::new()" 0 [
            leaf "scoped_identifier" (some "function") "A::new" 0,
            leaf "arguments" (some "arguments") "()" 0]]]]]

/-- The substrate's hash functions, and a tree without history. -/
def sha256Substrate : Substrate ℚ where
  store := .ofList false
  nodeId := (rustFile "").cellIriToNodeId
  astHashOf := (rustFile "").astHashOf
  fileChurn _ := 0

set_option maxRecDepth 100000 in
/-- Two functions are called `new`, and the call is taken for a call of one of them. -/
theorem twoConstructors_guessed :
    let files := [twoConstructors, callsConstructor]
    let report := analyzePathReport sha256Substrate .default files
    (functionNames files).count "new" = 2 ∧ report.xfileCallsResolved = 1 ∧
      report.xfileCallsAmbiguous = 0 ∧ report.edges.map (·.kind) = [.calls] ∧
      ¬ NeverGuesses sha256Substrate .default files := by
  intro files report
  have counts : (functionNames files).count "new" = 2 := by decide +kernel
  have found : report.xfileCallsResolved = 1 ∧ report.xfileCallsAmbiguous = 0 ∧
      report.edges.map (·.kind) = [.calls] := by decide +kernel
  refine ⟨counts, found.1, found.2.1, found.2.2, fun h => ?_⟩
  have site : pendingCalls sha256Substrate files = [⟨"code://rust/b.rs#main", "new", false⟩] := by
    decide +kernel
  have unique := h.unique _ (site ▸ mem_singleton.mpr rfl) _ rfl
  cases unique

end SocioWorkspace.Gbrg
