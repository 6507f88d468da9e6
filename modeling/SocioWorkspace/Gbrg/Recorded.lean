import SocioWorkspace.Gbrg.Parser
import SocioWorkspace.Lib.Basic

/-!
# What the walk has recorded

The context after the walk over a file, field by field, in terms of the nodes the walk came to. Each field
comes with a step lemma for `record`, and with what holds after all visits.

`hasCell_iff` and `mem_after_edges` are the ones that the results about closed graphs use.
-/

namespace SocioWorkspace.Gbrg
open List Ctx SortedMap

variable {file : File} {ctx : Ctx} {v : Visit}

section
variable (file)

def importIri (counter : Nat) : String :=
  file.defIri ("import:" ++ .ofList (Nat.toDigits 10 counter))

def newCell (counter : Nat) (v : Visit) : Option SemanticCell :=
  match v.role file.language with
  | .func =>
    some (cellOf file (file.defIri (defSymbol v.children)) .function (defSymbol v.children) v.node)
  | .cls => some (cellOf file (file.defIri (defSymbol v.children)) .cls (defSymbol v.children) v.node)
  | .module =>
    some (cellOf file (file.defIri (modSymbol v.children)) .module (modSymbol v.children) v.node)
  | .import_ => some (cellOf file (importIri file counter) .import_ (importSymbol v.node) v.node)
  | _ => none

def newEdge (counter : Nat) (v : Visit) : Option GraphEdge :=
  if v.role file.language = .import_ then some {
    source := file.cellIriToNodeId file.moduleIri
    target := file.cellIriToNodeId (importIri file counter)
    kind := .imports
    weight := 1.0 }
  else none

def callOf (v : Visit) : Option (String × String) :=
  if v.role file.language = .call then
    (calleeName v.children).map (callerIri file v.scope, ·)
  else none

def inheritsOf (v : Visit) : List (String × String) :=
  match v.role file.language with
  | .cls => (baseNames file.language v.children).map (file.defIri (defSymbol v.children), ·)
  | .impl => (implNames v.children).toList.map fun n => (file.defIri n.1, n.2)
  | _ => []

def Frame.itemName (lang : Language) (f : Frame) : Option String := (f.funcName lang).or (f.moduleName lang)

def ifTest (v : Visit) (name : Option String) : Option String :=
  if inTestScope file (v.toFrame :: v.scope) = true then name else none

def enter (table : SortedMap String String) (symbol : Option String) : SortedMap String String :=
  symbol.elim table fun s => orInsert table s (file.defIri s)

def mark (iris : List String) (symbol : Option String) : List String :=
  symbol.elim iris fun s => iris.insert (file.defIri s)
end

lemma callOf_caller {call} (h : callOf file v = some call) : call.1 = callerIri file v.scope := by
  unfold callOf at h
  split_ifs at h
  obtain ⟨callee, -, rfl⟩ := Option.map_eq_some_iff.mp h
  rfl

lemma record_eq : record file ctx v = {
    cells := ctx.cells ++ (newCell file (ctx.importCounter + 1) v).toList
    edges := ctx.edges ++ (newEdge file (ctx.importCounter + 1) v).toList
    funcByName := enter file ctx.funcByName (v.funcName file.language)
    classByName := enter file ctx.classByName (v.className file.language)
    pendingCalls := ctx.pendingCalls ++ (callOf file v).toList
    pendingInherits := ctx.pendingInherits ++ inheritsOf file v
    testCells := mark file ctx.testCells (ifTest file v (v.itemName file.language))
    testFnIris := mark file ctx.testFnIris (ifTest file v (v.funcName file.language))
    importCounter := ctx.importCounter + if v.role file.language = .import_ then 1 else 0 } := by
  unfold record newCell newEdge callOf inheritsOf Frame.itemName Frame.funcName Frame.className
    Frame.moduleName
  cases hr : v.role file.language with
  | func =>
    dsimp only
    rw [funcIsTest_eq hr]
    cases ht : inTestScope file (v.toFrame :: v.scope) with
    | true | false => simp [func, pushCell, enter, mark, ifTest, ht]
  | cls => simp [cls, pushCell, enter, mark, ifTest]
  | impl =>
    cases hi : implNames v.children with
    | none | some n => simp [impl, hi, enter, mark, ifTest]
  | module =>
    dsimp only
    rw [modIsTest_eq hr]
    cases ht : inTestScope file (v.toFrame :: v.scope) with
    | true | false => simp [module, pushCell, enter, mark, ifTest, ht]
  | import_ => simp [import_, pushCell, enter, mark, ifTest, importIri]
  | call =>
    cases hc : calleeName v.children with
    | none | some callee => simp [call, hc, enter, mark, ifTest]
  | other => simp [enter, mark, ifTest]

section
variable (file) (root : SyntaxNode)

def after (vs : List Visit) : Ctx := vs.foldl (record file) (.start file root)

variable {file root}

lemma after_append (vs : List Visit) (v : Visit) :
    after file root (vs ++ [v]) = record file (after file root vs) v :=
  foldl_concat ..

lemma after_pendingCalls (vs : List Visit) :
    (after file root vs).pendingCalls = vs.filterMap (callOf file) := by
  induction vs using reverseRecOn with
  | nil => rfl
  | append_singleton vs v ih =>
    rw [after_append, record_eq, ih, filterMap_append]
    cases hc : callOf file v with
    | none => rw [filterMap_cons_none hc]; rfl
    | some call => rw [filterMap_cons_some hc]; rfl

lemma after_pendingInherits (vs : List Visit) :
    (after file root vs).pendingInherits = vs.flatMap (inheritsOf file) := by
  induction vs using reverseRecOn with
  | nil => rfl
  | append_singleton vs v ih =>
    rw [after_append, record_eq, ih, flatMap_append, flatMap_singleton]

variable {symbol : Option String}

lemma enter_get? {table} {seen : String → Prop}
    (h : ∀ name iri, table.get? name = some iri ↔ seen name ∧ iri = file.defIri name) (name iri) :
    (enter file table symbol).get? name = some iri ↔
      (seen name ∨ symbol = some name) ∧ iri = file.defIri name := by
  cases symbol with
  | none => simpa [enter] using h name iri
  | some s =>
    simp only [enter, Option.elim_some, orInsert, Option.some.injEq]
    cases hs : table.get? s with
    | some iri' =>
      have known := ((h s iri').mp hs).1
      rw [Option.isSome_some, if_pos rfl, h]
      refine and_congr_left fun _ => ⟨.inl, ?_⟩
      rintro (hn | rfl)
      · exact hn
      · exact known
    | none =>
      rw [Option.isSome_none, if_neg Bool.false_ne_true, get?_insert]
      by_cases e : name = s
      · subst e
        rw [if_pos rfl, Option.some.injEq]
        exact ⟨fun e => ⟨.inr rfl, e.symm⟩, fun h => h.2.symm⟩
      · rw [if_neg e, h]
        exact and_congr_left fun _ => ⟨.inl, fun h => h.resolve_right fun e' => e e'.symm⟩

lemma after_funcByName (vs : List Visit) (name iri) :
    (after file root vs).funcByName.get? name = some iri ↔
      (∃ v ∈ vs, v.funcName file.language = some name) ∧ iri = file.defIri name := by
  induction vs using reverseRecOn generalizing name iri with
  | nil => simp [after, start, empty, get?]
  | append_singleton vs v ih =>
    rw [after_append, record_eq, enter_get? ih]
    simp only [mem_append, mem_singleton, or_and_right, exists_or, exists_eq_left]

lemma after_classByName (vs : List Visit) (name iri) :
    (after file root vs).classByName.get? name = some iri ↔
      (∃ v ∈ vs, v.className file.language = some name) ∧ iri = file.defIri name := by
  induction vs using reverseRecOn generalizing name iri with
  | nil => simp [after, start, empty, get?]
  | append_singleton vs v ih =>
    rw [after_append, record_eq, enter_get? ih]
    simp only [mem_append, mem_singleton, or_and_right, exists_or, exists_eq_left]

lemma mem_mark {iris iri} : iri ∈ mark file iris symbol ↔
    iri ∈ iris ∨ ∃ s, symbol = some s ∧ iri = file.defIri s := by
  cases symbol with
  | none => simp [mark]
  | some s => simp [mark, or_comm]

lemma mem_after_testFnIris (vs : List Visit) {iri} : iri ∈ (after file root vs).testFnIris ↔
    ∃ v ∈ vs, ∃ s, ifTest file v (v.funcName file.language) = some s ∧ iri = file.defIri s := by
  induction vs using reverseRecOn with
  | nil => simp [after, start]
  | append_singleton vs v ih =>
    rw [after_append, record_eq, mem_mark, ih]
    simp only [mem_append, mem_singleton, or_and_right, exists_or, exists_eq_left]

lemma mem_after_testCells (vs : List Visit) {iri} : iri ∈ (after file root vs).testCells ↔
    (file.isTest = true ∧ iri = file.moduleIri) ∨
      ∃ v ∈ vs, ∃ s, ifTest file v (v.itemName file.language) = some s ∧ iri = file.defIri s := by
  induction vs using reverseRecOn with
  | nil =>
    cases ht : file.isTest with
    | true | false => simp [after, start, ht]
  | append_singleton vs v ih =>
    rw [after_append, record_eq, mem_mark, ih]
    simp only [mem_append, mem_singleton, or_and_right, exists_or, exists_eq_left, or_assoc]

def HasCell (cells : List SemanticCell) (iri : String) : Prop := ∃ c ∈ cells, c.cellId = iri

lemma hasCell_append {cells more iri} : HasCell (cells ++ more) iri ↔ HasCell cells iri ∨ HasCell more iri := by
  simp only [HasCell, mem_append, or_and_right, exists_or]

/-- The node is a function, a class or a module of this name. -/
def Frame.Names (lang : Language) (f : Frame) (symbol : String) : Prop :=
  f.funcName lang = some symbol ∨ f.className lang = some symbol ∨ f.moduleName lang = some symbol

lemma hasCell_newCell {counter iri} : HasCell (newCell file counter v).toList iri ↔
    (∃ s, v.Names file.language s ∧ file.defIri s = iri) ∨
      v.role file.language = .import_ ∧ importIri file counter = iri := by
  unfold HasCell newCell Frame.Names Frame.funcName Frame.className Frame.moduleName
  cases hr : v.role file.language <;> simp [cellOf]

lemma after_importCounter (vs : List Visit) :
    (after file root vs).importCounter = vs.countP (·.role file.language = .import_) := by
  induction vs using reverseRecOn with
  | nil => rfl
  | append_singleton vs v ih =>
    rw [after_append, record_eq, countP_append, countP_singleton, ih]
    simp only [decide_eq_true_eq]

/-- The IRIs of the file, of what it defines by name, and of its imports. -/
def Recorded (file : File) (vs : List Visit) (iri : String) : Prop :=
  iri = file.moduleIri ∨ (∃ v ∈ vs, ∃ s, v.Names file.language s ∧ file.defIri s = iri) ∨
    ∃ n < vs.countP (·.role file.language = .import_), importIri file (n + 1) = iri

/-- These IRIs have the cells of the walk. -/
theorem hasCell_iff (vs : List Visit) {iri} : HasCell (after file root vs).cells iri ↔ Recorded file vs iri := by
  induction vs using reverseRecOn with
  | nil =>
    constructor
    · rintro ⟨c, hc, rfl⟩
      obtain rfl := mem_singleton.mp hc
      exact .inl rfl
    · rintro (rfl | ⟨v, hv, -⟩ | ⟨n, hn, -⟩)
      · exact ⟨_, mem_singleton.mpr rfl, rfl⟩
      · cases hv
      · exact absurd hn (Nat.not_lt_zero n)
  | append_singleton vs v ih =>
    have himports : (∃ n < (vs ++ [v]).countP (·.role file.language = .import_), importIri file (n + 1) = iri) ↔
        (∃ n < vs.countP (·.role file.language = .import_), importIri file (n + 1) = iri) ∨
          v.role file.language = .import_ ∧
            importIri file (vs.countP (·.role file.language = .import_) + 1) = iri := by
      rw [countP_append, countP_singleton]
      by_cases hr : v.role file.language = .import_
      · simp [hr, Nat.le_iff_lt_or_eq, or_and_right, exists_or]
      · simp [hr]
    rw [after_append, record_eq, hasCell_append, ih, hasCell_newCell, after_importCounter, Recorded, Recorded,
      himports]
    simp only [mem_append, mem_singleton, or_and_right, exists_or, exists_eq_left]
    refine iff_of_eq ?_
    ac_rfl

lemma after_functionCells (vs : List Visit) :
    ((after file root vs).cells.filter (·.kind = .function)).map (fun c => (c.symbolName, c.cellId)) =
      (vs.filterMap (·.funcName file.language)).map fun s => (s, file.defIri s) := by
  induction vs using reverseRecOn with
  | nil => rfl
  | append_singleton vs v ih =>
    rw [after_append, record_eq, filter_append, map_append, ih, filterMap_append, map_append]
    congr 1
    unfold newCell Frame.funcName
    cases hr : v.role file.language with
    | func | cls | impl | module | import_ | call | other => simp [cellOf, hr]

lemma mem_after_edges {vs e} (he : e ∈ (after file root vs).edges) :
    e.kind = .imports ∧ e.source = file.cellIriToNodeId file.moduleIri ∧
      ∃ iri, HasCell (after file root vs).cells iri ∧ e.target = file.cellIriToNodeId iri := by
  induction vs using reverseRecOn with
  | nil => cases he
  | append_singleton vs v ih =>
    rw [after_append, record_eq] at he ⊢
    cases mem_append.mp he with
    | inl he =>
      obtain ⟨hk, hs, iri, hc, ht⟩ := ih he
      exact ⟨hk, hs, iri, hasCell_append.2 (.inl hc), ht⟩
    | inr he =>
      unfold newEdge at he
      by_cases hr : v.role file.language = .import_
      · rw [if_pos hr] at he
        obtain rfl := mem_singleton.mp he
        exact ⟨rfl, rfl, importIri file ((after file root vs).importCounter + 1),
          hasCell_append.2 (.inr (hasCell_newCell.2 (.inr ⟨hr, rfl⟩))), rfl⟩
      · rw [if_neg hr] at he
        cases he
end

end SocioWorkspace.Gbrg
