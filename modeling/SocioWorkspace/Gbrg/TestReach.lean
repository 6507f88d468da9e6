import SocioWorkspace.Gbrg.Closed

/-!
# Which calls count as test evidence

The parser turns a call into a `TESTED_BY` edge if its caller is a test function, and into a `CALLS` edge if
its caller is no test code. It decides both by the IRI of the innermost function around the call, and takes a
function or module for test code if an attribute in front of it holds the letters `test`. `Attribution` says
what this should mean, for any reading of the attributes (`AttrReading`).
-/

namespace SocioWorkspace.Gbrg
open List Option

structure AttrReading where
  /-- The attribute makes a function a test, as `#[test]` does. -/
  isTest : String → Bool
  /-- The attribute keeps its item in a compilation in which the given options are set. -/
  keeps : String → (String → Bool) → Bool

def innerAttrs (children : List SyntaxTree) : List String :=
  let body := ((childByFieldName children "body").map (·.children)).getD []
  ((children ++ body).filter (·.label.kind = "inner_attribute_item")).map (·.label.text)

def Frame.attributes (f : Frame) : List String := f.attrs ++ innerAttrs f.children

section
variable (reading : AttrReading) (file : File) (tree : SyntaxTree)

def OnlyInTests (attr : String) : Prop :=
  (∃ options, reading.keeps attr options = true) ∧
    ∀ options, reading.keeps attr options = true → options "test" = true

/-- Some attributes together keep their item, but only outside test builds. -/
def OnlyOutsideTests (attrs : List String) : Prop :=
  (∃ options, ∀ a ∈ attrs, reading.keeps a options = true) ∧
    ∀ options, (∀ a ∈ attrs, reading.keeps a options = true) → options "test" = false

def TestAttr (attr : String) : Prop := reading.isTest attr = true ∨ OnlyInTests reading attr

/-- A function or module that is test code by itself. -/
def Frame.IsTest (lang : Language) (f : Frame) : Prop :=
  match f.role lang with
  | .func => (∃ a ∈ f.attributes, TestAttr reading a) ∨ nameIsTest lang (defSymbol f.children) = true
  | .module => (∃ a ∈ f.attributes, TestAttr reading a) ∨
      modSymbol f.children = "tests" ∨ modSymbol f.children = "test"
  | _ => False

def FileIsTest : Prop := file.isTest = true ∨ ∃ a ∈ innerAttrs tree.children, OnlyInTests reading a

/-- Some function around a node is a test: by itself, by the file, or by what is around it. -/
def InTestFunction (scope : List Frame) : Prop :=
  ∃ f rest, f :: rest <:+ scope ∧ f.role file.language = .func ∧
    (FileIsTest reading file tree ∨ ∃ g ∈ f :: rest, g.IsTest reading file.language)

/-- The attributes of a node, of the nodes around it and of the file. -/
def Visit.conditions (v : Visit) : List String :=
  (v.toFrame :: v.scope).flatMap (·.attributes) ++ innerAttrs tree.children

def emitted (v : Visit) : Option GraphEdge := (callOf file v).bind (callEdge file (walked file tree))

/-- Test evidence is attributed to tests, and only to them. -/
structure Attribution : Prop where
  /-- A `TESTED_BY` edge comes from a call in a test function. -/
  tested : ∀ v ∈ fileVisits file.language tree, ∀ e, emitted file tree v = some e →
    e.kind = .testedBy → InTestFunction reading file tree v.scope
  /-- A `CALLS` edge comes from a call outside test functions. -/
  calls : ∀ v ∈ fileVisits file.language tree, ∀ e, emitted file tree v = some e →
    e.kind = .calls → ¬ InTestFunction reading file tree v.scope
  /-- A call compiled only outside tests is no test evidence. -/
  outsideCalls : ∀ v ∈ fileVisits file.language tree, OnlyOutsideTests reading (v.conditions tree) →
    ∀ e, emitted file tree v = some e → e.kind ≠ .testedBy
  /-- A function or module compiled only outside tests is no test code. -/
  outsideItems : ∀ v ∈ fileVisits file.language tree, OnlyOutsideTests reading (v.conditions tree) →
    ∀ s, v.itemName file.language = some s → file.defIri s ∉ (parseSource file tree).testCells
  /-- A file compiled only outside tests is no test code. -/
  outsideFile : OnlyOutsideTests reading (innerAttrs tree.children) →
    file.moduleIri ∉ (parseSource file tree).testCells

def Answered (v : Visit) : Prop :=
  ∃ call, callOf file v = some call ∧
    (∃ w ∈ fileVisits file.language tree, w.funcName file.language = some call.2) ∧
    file.defIri call.2 ≠ call.1

/-- Some function of that name is marked, or has a mark around it. -/
def MarkedFunction (name : String) : Prop :=
  ∃ w ∈ fileVisits file.language tree, w.funcName file.language = some name ∧
    inTestScope file (w.toFrame :: w.scope) = true

/-- Some function or module of that name is marked, or has a mark around it. -/
def MarkedItem (name : String) : Prop :=
  ∃ w ∈ fileVisits file.language tree, w.itemName file.language = some name ∧
    inTestScope file (w.toFrame :: w.scope) = true

/-- The marks of the file agree with what its attributes mean, for all definitions of one name
together. -/
structure MarksAgree : Prop where
  /-- Where a function is called from a function whose name is marked, the caller is a test. -/
  tested : ∀ v ∈ fileVisits file.language tree, Answered file tree v →
    ∀ s, v.scope.findSome? (·.funcName file.language) = some s → MarkedFunction file tree s →
      InTestFunction reading file tree v.scope ∧ ¬ OnlyOutsideTests reading (v.conditions tree)
  /-- Where a function is called from a test, the name of the caller is marked. -/
  calls : ∀ v ∈ fileVisits file.language tree, Answered file tree v →
    ∀ s, v.scope.findSome? (·.funcName file.language) = some s →
      InTestFunction reading file tree v.scope → MarkedItem file tree s
  /-- No function or module of a marked name is compiled only outside tests. -/
  items : ∀ v ∈ fileVisits file.language tree, ∀ s, v.itemName file.language = some s →
    MarkedItem file tree s → ¬ OnlyOutsideTests reading (v.conditions tree)
  /-- No test file is compiled only outside tests. -/
  file : file.isTest = true → ¬ OnlyOutsideTests reading (innerAttrs tree.children)

variable {file tree} {v : Visit} {s t : String} {e : GraphEdge}

lemma defIri_inj : file.defIri s = file.defIri t ↔ s = t := by
  rw [File.defIri, File.defIri, ← String.toList_inj, ← String.toList_inj]
  simp only [String.toList_append, append_cancel_left_eq]

lemma moduleIri_ne_defIri : file.moduleIri ≠ file.defIri s := by
  intro h
  have hlen := congrArg (·.toList.length) h
  simp only [File.moduleIri, File.defIri, String.toList_append, length_append] at hlen
  have : "#".toList.length = 1 := rfl
  omega

lemma ifTest_eq_some {name} : ifTest file v name = some s ↔
    name = some s ∧ inTestScope file (v.toFrame :: v.scope) = true := by
  unfold ifTest
  split_ifs with h
  · exact ⟨fun e => ⟨e, h⟩, And.left⟩
  · exact ⟨nofun, fun e => absurd e.2 h⟩

lemma defIri_mem_testFnIris : file.defIri s ∈ (walked file tree).testFnIris ↔ MarkedFunction file tree s := by
  rw [walked_eq, ← after, mem_after_testFnIris]
  simp only [ifTest_eq_some, defIri_inj, and_comm (b := s = _), MarkedFunction]
  exact exists_congr fun w => and_congr_right fun _ => exists_eq_left'

lemma defIri_mem_testCells : file.defIri s ∈ (walked file tree).testCells ↔ MarkedItem file tree s := by
  rw [walked_eq, ← after, mem_after_testCells]
  simp only [moduleIri_ne_defIri.symm, and_false, false_or]
  simp only [ifTest_eq_some, defIri_inj, and_comm (b := s = _), MarkedItem]
  exact exists_congr fun w => and_congr_right fun _ => exists_eq_left'

lemma moduleIri_notMem_testFnIris : file.moduleIri ∉ (walked file tree).testFnIris := by
  rw [walked_eq, ← after, mem_after_testFnIris]
  rintro ⟨w, -, s, -, e⟩
  exact moduleIri_ne_defIri e

lemma moduleIri_mem_testCells : file.moduleIri ∈ (walked file tree).testCells ↔ file.isTest = true := by
  rw [walked_eq, ← after, mem_after_testCells]
  constructor
  · rintro (⟨h, -⟩ | ⟨w, -, s, -, e⟩)
    · exact h
    · exact absurd e moduleIri_ne_defIri
  · exact fun h => .inl ⟨h, rfl⟩

lemma mem_testCells {iri} : iri ∈ (parseSource file tree).testCells ↔ iri ∈ (walked file tree).testCells :=
  mem_insertionSort _

lemma MarkedFunction.item (h : MarkedFunction file tree s) : MarkedItem file tree s := by
  obtain ⟨w, hw, hname, ht⟩ := h
  refine ⟨w, hw, ?_, ht⟩
  rw [Frame.itemName, hname, some_or]

/-- Only an answered call gets an edge. -/
lemma answered_of_emitted (h : emitted file tree v = some e) : Answered file tree v := by
  obtain ⟨call, hc, he⟩ := bind_eq_some_iff.mp h
  obtain ⟨callee, hf, -, -⟩ := callEdge_some he
  have hname := hf
  rw [walked_eq, ← after, after_funcByName] at hname
  refine ⟨call, hc, hname.1, ?_⟩
  rintro own
  rw [callEdge, hf] at he
  dsimp only at he
  rw [if_pos (hname.2.trans own)] at he
  cases he

/-- The kind of the edge of an answered call goes by its caller. -/
lemma emitted_of_answered (h : Answered file tree v) :
    (callerIri file v.scope ∈ (walked file tree).testFnIris →
      ∃ e, emitted file tree v = some e ∧ e.kind = .testedBy) ∧
    (callerIri file v.scope ∉ (walked file tree).testFnIris →
      callerIri file v.scope ∉ (walked file tree).testCells →
      ∃ e, emitted file tree v = some e ∧ e.kind = .calls) := by
  obtain ⟨call, hc, hw, hne⟩ := h
  have hf : (walked file tree).funcByName.get? call.2 = some (file.defIri call.2) := by
    rw [walked_eq, ← after, after_funcByName]
    exact ⟨hw, rfl⟩
  rw [← callOf_caller hc, emitted, hc, bind_some, callEdge, hf]
  dsimp only
  rw [if_neg hne]
  constructor
  · intro ht
    rw [if_pos ht]
    exact ⟨_, rfl, rfl⟩
  · intro ht hm
    rw [if_neg ht, if_neg hm]
    exact ⟨_, rfl, rfl⟩

lemma emitted_kind (h : emitted file tree v = some e) :
    (callerIri file v.scope ∈ (walked file tree).testFnIris ∧ e.kind = .testedBy) ∨
    (callerIri file v.scope ∉ (walked file tree).testFnIris ∧
      callerIri file v.scope ∉ (walked file tree).testCells ∧ e.kind = .calls) := by
  obtain ⟨call, hc, he⟩ := bind_eq_some_iff.mp h
  rw [← callOf_caller hc]
  obtain ⟨callee, hf, -, -⟩ := callEdge_some he
  rw [callEdge, hf] at he
  dsimp only at he
  split_ifs at he with _ ht hm
  · cases he
    exact .inl ⟨ht, rfl⟩
  · cases he
    exact .inr ⟨ht, hm, rfl⟩

lemma emitted_testedBy : (∃ e, emitted file tree v = some e ∧ e.kind = .testedBy) ↔
    Answered file tree v ∧ ∃ s, v.scope.findSome? (·.funcName file.language) = some s ∧
      MarkedFunction file tree s := by
  have caller : callerIri file v.scope ∈ (walked file tree).testFnIris ↔
      ∃ s, v.scope.findSome? (·.funcName file.language) = some s ∧ MarkedFunction file tree s := by
    unfold callerIri
    cases v.scope.findSome? (·.funcName file.language) with
    | none => simp [moduleIri_notMem_testFnIris]
    | some s => simp [defIri_mem_testFnIris]
  rw [← caller]
  constructor
  · rintro ⟨e, he, hk⟩
    refine ⟨answered_of_emitted he, ?_⟩
    rcases emitted_kind he with ⟨ht, -⟩ | ⟨-, -, hk'⟩
    · exact ht
    · rw [hk] at hk'
      cases hk'
  · rintro ⟨answered, ht⟩
    exact (emitted_of_answered answered).1 ht

/-- A call in a function gets a `CALLS` edge if it is answered and the name of its caller is not marked. -/
lemma emitted_calls (hs : v.scope.findSome? (·.funcName file.language) = some s) :
    (∃ e, emitted file tree v = some e ∧ e.kind = .calls) ↔
      Answered file tree v ∧ ¬ MarkedItem file tree s := by
  have caller : callerIri file v.scope = file.defIri s := by rw [callerIri, hs]
  constructor
  · rintro ⟨e, he, hk⟩
    refine ⟨answered_of_emitted he, ?_⟩
    rcases emitted_kind he with ⟨-, hk'⟩ | ⟨-, hm, -⟩
    · rw [hk] at hk'
      cases hk'
    · rwa [caller, defIri_mem_testCells] at hm
  · rintro ⟨answered, hm⟩
    refine (emitted_of_answered answered).2 ?_ ?_
    · rw [caller, defIri_mem_testFnIris]
      exact fun h => hm h.item
    · rwa [caller, defIri_mem_testCells]

/-- The edges for calls are those that the calls of the file get, one by one. -/
lemma mem_edges_iff (hk : e.kind = .testedBy ∨ e.kind = .calls) :
    e ∈ (parseSource file tree).edges ↔
      ∃ v ∈ fileVisits file.language tree, emitted file tree v = some e := by
  have calls : (walked file tree).pendingCalls.filterMap (callEdge file (walked file tree)) =
      (fileVisits file.language tree).filterMap (emitted file tree) := by
    have pending : (walked file tree).pendingCalls =
        (fileVisits file.language tree).filterMap (callOf file) := by
      rw [walked_eq, ← after, after_pendingCalls]
    rw [pending, filterMap_filterMap]
    rfl
  have edges : (parseSource file tree).edges = (walked file tree).edges ++
      (fileVisits file.language tree).filterMap (emitted file tree) ++
      (walked file tree).pendingInherits.filterMap (inheritEdge file (walked file tree)) := by
    rw [← calls]
    rfl
  rw [edges, mem_append, mem_append, mem_filterMap]
  constructor
  · rintro ((he | he) | he)
    · rw [walked_eq, ← after] at he
      rw [(mem_after_edges he).1] at hk
      cases hk <;> contradiction
    · exact he
    · obtain ⟨note, -, he⟩ := mem_filterMap.mp he
      obtain ⟨iri, -, rfl⟩ := map_eq_some_iff.mp he
      cases hk <;> contradiction
  · exact fun he => .inl (.inr he)

lemma InTestFunction.caller {reading scope} (h : InTestFunction reading file tree scope) :
    ∃ s, scope.findSome? (·.funcName file.language) = some s := by
  obtain ⟨f, rest, hsuffix, hf, -⟩ := h
  rw [← isSome_iff_exists, findSome?_isSome_iff]
  refine ⟨f, hsuffix.mem mem_cons_self, ?_⟩
  rw [Frame.funcName, if_pos hf, isSome_some]
end

/-- Test evidence comes from tests exactly on the files whose marks agree with what their attributes
mean. -/
theorem attribution_iff (reading : AttrReading) (file : File) (tree : SyntaxTree) :
    (∀ e : GraphEdge, e.kind = .testedBy ∨ e.kind = .calls →
      (e ∈ (parseSource file tree).edges ↔
        ∃ v ∈ fileVisits file.language tree, emitted file tree v = some e)) ∧
    (Attribution reading file tree ↔ MarksAgree reading file tree) := by
  refine ⟨fun e hk => mem_edges_iff hk, ?_, ?_⟩
  · intro h
    refine ⟨?_, ?_, ?_, ?_⟩
    · intro v hv answered s hs hm
      obtain ⟨e, he, hk⟩ := emitted_testedBy.mpr ⟨answered, s, hs, hm⟩
      exact ⟨h.tested v hv e he hk, fun outside => h.outsideCalls v hv outside e he hk⟩
    · intro v hv answered s hs hin
      by_contra hm
      obtain ⟨e, he, hk⟩ := (emitted_calls hs).mpr ⟨answered, hm⟩
      exact h.calls v hv e he hk hin
    · intro v hv s hs hm outside
      apply h.outsideItems v hv outside s hs
      rwa [mem_testCells, defIri_mem_testCells]
    · intro ht outside
      apply h.outsideFile outside
      rwa [mem_testCells, moduleIri_mem_testCells]
  · intro h
    refine ⟨?_, ?_, ?_, ?_, ?_⟩
    · intro v hv e he hk
      obtain ⟨answered, s, hs, hm⟩ := emitted_testedBy.mp ⟨e, he, hk⟩
      exact (h.tested v hv answered s hs hm).1
    · intro v hv e he hk hin
      obtain ⟨s, hs⟩ := hin.caller
      obtain ⟨answered, hm⟩ := (emitted_calls hs).mp ⟨e, he, hk⟩
      exact hm (h.calls v hv answered s hs hin)
    · intro v hv outside e he hk
      obtain ⟨answered, s, hs, hm⟩ := emitted_testedBy.mp ⟨e, he, hk⟩
      exact (h.tested v hv answered s hs hm).2 outside
    · intro v hv outside s hs hm
      rw [mem_testCells, defIri_mem_testCells] at hm
      exact h.items v hv s hs hm outside
    · intro outside hm
      rw [mem_testCells, moduleIri_mem_testCells] at hm
      exact h.file hm outside

def plainReading : AttrReading where
  isTest attr := attr = "#[test]"
  keeps attr options :=
    if attr = "#[cfg(test)]" then options "test"
    else if attr = "#[cfg(not(test))]" then ! options "test"
    else true

/-- The tree of `fn helper() {}`, `#[cfg(not(test))]` and `fn main() { helper(); }`. -/
def productionMain : SyntaxTree :=
  leaf "source_file" none
    "fn helper() \x7b\x7d\n#[cfg(not(test))]\nfn main() \x7b helper(); \x7d" 0 [
    leaf "function_item" none "fn helper() \x7b\x7d" 0 [
      leaf "identifier" (some "name") "helper" 0,
      leaf "parameters" (some "parameters") "()" 0,
      leaf "block" (some "body") "\x7b\x7d" 0],
    leaf "attribute_item" none "#[cfg(not(test))]" 1,
    leaf "function_item" none "fn main() \x7b helper(); \x7d" 2 [
      leaf "identifier" (some "name") "main" 2,
      leaf "parameters" (some "parameters") "()" 2,
      leaf "block" (some "body") "\x7b helper(); \x7d" 2 [
        leaf "expression_statement" none "helper();" 2 [
          leaf "call_expression" none "helper()" 2 [
            leaf "identifier" (some "function") "helper" 2,
            leaf "arguments" (some "arguments") "()" 2]]]]]

/-- Its `main` is taken for a test and `helper` for tested, though no test build has `main`. -/
theorem productionMain_not_attributed :
    (parseSource (rustFile "src/lib.rs") productionMain).testFunctionCells =
        ["code://rust/src/lib.rs#main"] ∧
      (parseSource (rustFile "src/lib.rs") productionMain).edges.map (·.kind) = [.testedBy] ∧
      ¬ Attribution plainReading (rustFile "src/lib.rs") productionMain := by
  refine ⟨by decide +kernel, by decide +kernel, fun h => ?_⟩
  have hmain : ∃ v ∈ fileVisits .rust productionMain, v.itemName .rust = some "main" ∧
      v.conditions productionMain = ["#[cfg(not(test))]"] := by
    refine ⟨_, mem_of_getElem? (i := 4) rfl, ?_, ?_⟩
    · decide +kernel
    · decide +kernel
  obtain ⟨v, hv, hname, hconditions⟩ := hmain
  refine h.outsideItems v hv ?_ "main" hname (by decide +kernel)
  rw [hconditions]
  refine ⟨⟨fun _ => false, by decide⟩, ?_⟩
  intro options hkeep
  have hnot := hkeep _ (mem_singleton.mpr rfl)
  simpa [plainReading] using hnot

end SocioWorkspace.Gbrg
