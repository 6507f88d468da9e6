import SocioWorkspace.Gbrg.Core
import SocioWorkspace.Lib.RoseTree
import SocioWorkspace.Lib.SortedMap

/-!
# The code-structure parser

Model of `gbrg/crates/gbrg-parser/src/lib.rs`: the walk over the syntax tree of one file, which writes a cell
for every definition and import and notes calls and base types, and `resolve`, which turns the notes into
edges by the names that the file defines.

* The syntax tree of `tree-sitter` is a tree of labels: the kind of a node, the field its parent knows it by,
  its text and its lines. Any tree is allowed.
* `visits` lists the nodes that the walk comes to, and `record` is what it does at one node (`walk_eq`).
* A `HashMap` is a sorted map and a `HashSet` a list without repetitions; nothing depends on their order.
-/

namespace SocioWorkspace.Gbrg
open List

def isWhitespace (c : Char) : Bool :=
  (9 ≤ c.toNat && c.toNat ≤ 13) || c.toNat == 0x20 || c.toNat == 0x85 || c.toNat == 0xA0 ||
    c.toNat == 0x1680 || (0x2000 ≤ c.toNat && c.toNat ≤ 0x200A) || c.toNat == 0x2028 ||
    c.toNat == 0x2029 || c.toNat == 0x202F || c.toNat == 0x205F || c.toNat == 0x3000

def trim (s : List Char) : List Char := ((s.dropWhile isWhitespace).reverse.dropWhile isWhitespace).reverse

/-- The part behind the last separator (Rust `s.rsplit(sep).next()`). -/
def afterLast (sep s : List Char) : List Char :=
  match (s.tails.filter (sep.isPrefixOf ·)).getLast? with
  | some rest => rest.drop sep.length
  | none => s

/-- The part before the first separator (Rust `s.split(sep).next()`). -/
def beforeFirst (sep : Char) (s : List Char) : List Char := s.takeWhile (· ≠ sep)

def contains (s part : List Char) : Bool := s.tails.any (part.isPrefixOf ·)

/-- Rust `Language`. -/
inductive Language where
  | rust
  | python
  | typeScript
deriving DecidableEq

/-- Rust `short`. -/
def Language.short : Language → String
  | .rust => "rust"
  | .python => "python"
  | .typeScript => "typescript"

/-- Rust `LangSpec`. -/
structure LangSpec where
  funcKinds : List String
  classKinds : List String
  moduleKinds : List String
  importKinds : List String
  callKinds : List String

/-- Rust `spec`. -/
def Language.spec : Language → LangSpec
  | .rust => {
      funcKinds := ["function_item"]
      classKinds := ["struct_item", "enum_item", "trait_item", "union_item"]
      moduleKinds := ["mod_item"]
      importKinds := ["use_declaration"]
      callKinds := ["call_expression"] }
  | .python => {
      funcKinds := ["function_definition"]
      classKinds := ["class_definition"]
      moduleKinds := []
      importKinds := ["import_statement", "import_from_statement"]
      callKinds := ["call"] }
  | .typeScript => {
      funcKinds := ["function_declaration", "method_definition"]
      classKinds := ["class_declaration", "interface_declaration"]
      moduleKinds := ["internal_module", "module"]
      importKinds := ["import_statement"]
      callKinds := ["call_expression"] }

inductive Role where
  | func
  | cls
  | impl
  | module
  | import_
  | call
  | other
deriving DecidableEq

/-- The tests of Rust `walk` on the kind of a node, in their order. -/
def Language.role (lang : Language) (kind : String) : Role :=
  if kind ∈ lang.spec.funcKinds then .func
  else if kind ∈ lang.spec.classKinds then .cls
  else if lang = .rust ∧ kind = "impl_item" then .impl
  else if kind ∈ lang.spec.moduleKinds then .module
  else if kind ∈ lang.spec.importKinds then .import_
  else if kind ∈ lang.spec.callKinds then .call
  else .other

/-- The components of a path: empty ones do not count, and `.` only in front. -/
def pathComponents (path : List Char) : List (List Char) :=
  match path.splitOn '/' with
  | [] => []
  | first :: rest => (if first = [] then [] else [first]) ++ rest.filter fun c => c ≠ [] ∧ c ≠ ['.']

/-- Rust `Path::file_name`, of the components. -/
def fileName (components : List (List Char)) : Option (List Char) :=
  components.getLast?.filter fun c => c ≠ ['.'] ∧ c ≠ ['.', '.']

/-- Rust `Path::file_stem`: the name without its last extension; a dot in front starts none. -/
def fileStem (name : List Char) : List Char :=
  match (name.tails.filter (['.'].isPrefixOf ·)).getLast? with
  | some extension =>
    if extension.length = name.length then name else name.take (name.length - extension.length)
  | none => name

/-- Rust `is_test_file`. -/
def isTestFile (path : String) (lang : Language) : Bool :=
  let components := pathComponents path.toList
  let name := (fileName components).getD []
  let stem := ((fileName components).map fileStem).getD []
  match lang with
  | .rust => fileName components.dropLast = some "tests".toList
  | .python => "test_".toList.isPrefixOf stem || "_test".toList.isSuffixOf stem
  | .typeScript => contains name ".test.".toList || contains name ".spec.".toList

structure File where
  language : Language
  filePath : String
  cellIriToNodeId : String → NodeId
  astHashOf : List UInt8 → String

/-- The whole file is test code (Rust `Ctx::file_is_test`). -/
def File.isTest (file : File) : Bool := isTestFile file.filePath file.language

/-- Rust `module_iri`. -/
def File.moduleIri (file : File) : String := "code://" ++ file.language.short ++ "/" ++ file.filePath

/-- Rust `def_iri`. -/
def File.defIri (file : File) (symbol : String) : String :=
  "code://" ++ file.language.short ++ "/" ++ file.filePath ++ "#" ++ symbol

/-- What the parser reads of a node of `tree-sitter`. -/
structure SyntaxNode where
  kind : String
  /-- The field by which the parent knows the node. -/
  field : Option String
  /-- The text of the node, which is empty where its bytes are no text (Rust `node_text`). -/
  text : String
  slice : List UInt8
  startRow : Nat
  endRow : Nat

abbrev SyntaxTree := RoseTree SyntaxNode

section
variable (children : List SyntaxTree)

def childByFieldName (name : String) : Option SyntaxTree := children.find? (·.label.field = some name)

/-- Rust `name_of`. -/
def nameOf : Option String :=
  (childByFieldName children "name").map (·.label.text)

/-- Rust `callee_name`: the last segment of the text of the called expression. -/
def calleeName : Option String := do
  let func ← childByFieldName children "function"
  let seg := afterLast ['.'] (afterLast [':', ':'] func.label.text.toList)
  let seg := trim (beforeFirst '<' seg)
  if seg = [] then none else some (.ofList seg)

end

def typeName (text : String) : String := .ofList (trim (beforeFirst '<' (afterLast [':', ':'] text.toList)))

/-- Rust `collect_rust_impl_inherits`: the type and the trait of an `impl`. -/
def implNames (children : List SyntaxTree) : Option (String × String) := do
  let tr ← childByFieldName children "trait"
  let ty ← childByFieldName children "type"
  return (typeName ty.label.text, typeName tr.label.text)

mutual
/-- Rust `collect_ts_type_identifiers`: the type identifiers below a clause. -/
def tsTypeIdentifiers : SyntaxTree → List String
  | .node _ children => tsTypeIdentifiersAll children

def tsTypeIdentifiersAll : List SyntaxTree → List String
  | [] => []
  | k :: kids =>
    (if k.label.kind = "type_identifier" ∨ k.label.kind = "identifier" then [k.label.text]
      else tsTypeIdentifiers k) ++ tsTypeIdentifiersAll kids
end

/-- Rust `collect_inherits`: the base types that a class names. -/
def baseNames (lang : Language) (children : List SyntaxTree) : List String :=
  match lang with
  | .python =>
    match childByFieldName children "superclasses" with
    | none => []
    | some supers =>
      (supers.children.filter fun k => k.label.kind = "identifier" ∨ k.label.kind = "attribute").map
        fun k => .ofList (afterLast ['.'] k.label.text.toList)
  | .typeScript =>
    (children.filter fun k =>
      k.label.kind = "class_heritage" ∨ k.label.kind = "extends_type_clause").flatMap
        tsTypeIdentifiers
  | .rust => []

/-- Rust `UnresolvedCall`. -/
structure UnresolvedCall where
  callerIri : String
  calleeSymbol : String
  callerIsTest : Bool
deriving DecidableEq

/-- Rust `UnresolvedInherit`. -/
structure UnresolvedInherit where
  subclassIri : String
  baseSymbol : String
deriving DecidableEq

/-- Rust `ParseResult`. -/
structure ParseResult where
  cells : List SemanticCell
  edges : List GraphEdge
  unresolvedCalls : Nat
  unresolvedInherits : Nat
  unresolvedCallSites : List UnresolvedCall
  unresolvedInheritSites : List UnresolvedInherit
  testCells : List String
  testFunctionCells : List String

/-- What changes during a parse (Rust `Ctx`). -/
structure Ctx where
  cells : List SemanticCell
  edges : List GraphEdge
  funcByName : SortedMap String String
  classByName : SortedMap String String
  pendingCalls : List (String × String)
  pendingInherits : List (String × String)
  testCells : List String
  testFnIris : List String
  importCounter : Nat

/-- Rust `HashMap::entry(name).or_insert(iri)`. -/
def orInsert (table : SortedMap String String) (name iri : String) : SortedMap String String :=
  if (table.get? name).isSome then table else table.insert name iri

/-- Rust `attrs_mark_test`. -/
def attrsMarkTest (attrs : List String) : Bool := attrs.any fun a => contains a.toList "test".toList

/-- Rust `name_is_test`. -/
def nameIsTest (lang : Language) (symbol : String) : Bool :=
  lang = .python && ("test_".toList.isPrefixOf symbol.toList || symbol = "test")

section
variable (file : File)

def cellOf (iri : String) (kind : CellKind) (symbol : String) (node : SyntaxNode) : SemanticCell where
  cellId := iri
  kind := kind
  language := file.language.short
  filePath := file.filePath
  symbolName := symbol
  astHash := file.astHashOf node.slice
  locStart := node.startRow + 1
  locEnd := node.endRow + 1
  generated := false

/-- Rust `push_cell`. -/
def Ctx.pushCell (ctx : Ctx) (iri : String) (kind : CellKind) (symbol : String) (node : SyntaxNode) :
    Ctx :=
  { ctx with cells := ctx.cells ++ [cellOf file iri kind symbol node] }

def defSymbol (children : List SyntaxTree) : String := (nameOf children).getD "<anon>"

def modSymbol (children : List SyntaxTree) : String := (nameOf children).getD "<anon-mod>"

def importSymbol (node : SyntaxNode) : String := .ofList (trim (beforeFirst '\n' node.text.toList))

section
variable (ctx : Ctx)

def Ctx.func (node : SyntaxNode) (symbol : String) (isTest : Bool) : Ctx :=
  let iri := file.defIri symbol
  let ctx := ctx.pushCell file iri .function symbol node
  let ctx := { ctx with funcByName := orInsert ctx.funcByName symbol iri }
  if isTest then
    { ctx with testCells := ctx.testCells.insert iri, testFnIris := ctx.testFnIris.insert iri }
  else ctx

def Ctx.cls (node : SyntaxNode) (children : List SyntaxTree) : Ctx :=
  let symbol := defSymbol children
  let iri := file.defIri symbol
  let ctx := ctx.pushCell file iri .cls symbol node
  { ctx with
    classByName := orInsert ctx.classByName symbol iri
    pendingInherits := ctx.pendingInherits ++ (baseNames file.language children).map (iri, ·) }

def Ctx.impl (children : List SyntaxTree) : Ctx :=
  match implNames children with
  | some (sub, base) =>
    { ctx with pendingInherits := ctx.pendingInherits ++ [(file.defIri sub, base)] }
  | none => ctx

def Ctx.module (node : SyntaxNode) (symbol : String) (isTest : Bool) : Ctx :=
  let iri := file.defIri symbol
  let ctx := ctx.pushCell file iri .module symbol node
  if isTest then { ctx with testCells := ctx.testCells.insert iri } else ctx

def Ctx.import_ (node : SyntaxNode) : Ctx :=
  let counter := ctx.importCounter + 1
  let iri := file.defIri ("import:" ++ .ofList (Nat.toDigits 10 counter))
  let ctx := ctx.pushCell file iri .import_ (importSymbol node) node
  { ctx with
    importCounter := counter
    edges := ctx.edges ++ [{
      source := file.cellIriToNodeId file.moduleIri
      target := file.cellIriToNodeId iri
      kind := .imports
      weight := 1.0 }] }

def Ctx.call (children : List SyntaxTree) (enclosingFn : Option String) : Ctx :=
  match calleeName children with
  | some callee =>
    { ctx with
      pendingCalls := ctx.pendingCalls ++ [(enclosingFn.getD file.moduleIri, callee)] }
  | none => ctx

variable (inTest : Bool) (attrs : List String) (symbol : String)

def funcIsTest : Bool := inTest || file.isTest || attrsMarkTest attrs || nameIsTest file.language symbol

def modIsTest : Bool :=
  inTest || file.isTest || attrsMarkTest attrs || symbol = "tests" || symbol = "test"

end

mutual
/-- Rust `walk`. -/
def walk (ctx : Ctx) (enclosingFn : Option String) (inTest : Bool) (attrs : List String) :
    SyntaxTree → Ctx
  | .node n children =>
    match file.language.role n.kind with
    | .func =>
      let symbol := defSymbol children
      let isTest := funcIsTest file inTest attrs symbol
      walkChildren (ctx.func file n symbol isTest) (some (file.defIri symbol)) isTest [] children
    | .cls => walkChildren (ctx.cls file n children) enclosingFn inTest [] children
    | .impl => walkChildren (ctx.impl file children) enclosingFn inTest [] children
    | .module =>
      let symbol := modSymbol children
      let isTest := modIsTest file inTest attrs symbol
      walkChildren (ctx.module file n symbol isTest) enclosingFn isTest [] children
    | .import_ => ctx.import_ file n
    | .call => walkChildren (ctx.call file children enclosingFn) enclosingFn inTest [] children
    | .other => walkChildren ctx enclosingFn inTest [] children

/-- Rust `walk_children`: the attributes in front of an item go to that item. -/
def walkChildren (ctx : Ctx) (enclosingFn : Option String) (inTest : Bool)
    (pendingAttrs : List String) : List SyntaxTree → Ctx
  | [] => ctx
  | child :: children =>
    if child.label.kind = "attribute_item" then
      walkChildren ctx enclosingFn inTest (pendingAttrs ++ [child.label.text]) children
    else
      walkChildren (walk ctx enclosingFn inTest pendingAttrs child) enclosingFn inTest [] children
end

section
variable (ctx : Ctx)

/-- The edge of a call to a function of the file under another IRI: from a test function, that tests reach
the callee; from a test module, nothing. -/
def callEdge (call : String × String) : Option GraphEdge :=
  match ctx.funcByName.get? call.2 with
  | none => none
  | some calleeIri =>
    if calleeIri = call.1 then none
    else if call.1 ∈ ctx.testFnIris then some {
      source := file.cellIriToNodeId call.1
      target := file.cellIriToNodeId calleeIri
      kind := .testedBy
      weight := 1.0 }
    else if call.1 ∈ ctx.testCells then none
    else some {
      source := file.cellIriToNodeId call.1
      target := file.cellIriToNodeId calleeIri
      kind := .calls
      weight := 1.0 }

/-- The calls that no function of the file answers. -/
def unresolvedCall (call : String × String) : Option UnresolvedCall :=
  if (ctx.funcByName.get? call.2).isSome then none
  else some ⟨call.1, call.2, call.1 ∈ ctx.testFnIris⟩

/-- The edge of a base type, if the file defines a class of that name. -/
def inheritEdge (inherit : String × String) : Option GraphEdge :=
  (ctx.classByName.get? inherit.2).map fun baseIri => {
    source := file.cellIriToNodeId inherit.1
    target := file.cellIriToNodeId baseIri
    kind := .inherits
    weight := 1.0 }

def unresolvedInherit (inherit : String × String) : Option UnresolvedInherit :=
  if (ctx.classByName.get? inherit.2).isSome then none else some ⟨inherit.1, inherit.2⟩

/-- Rust `resolve`, with the sets published as `parse_source` does. -/
def resolve : ParseResult :=
  let callSites := ctx.pendingCalls.filterMap (unresolvedCall ctx)
  let inheritSites := ctx.pendingInherits.filterMap (unresolvedInherit ctx)
  { cells := ctx.cells
    edges := ctx.edges ++ ctx.pendingCalls.filterMap (callEdge file ctx) ++
      ctx.pendingInherits.filterMap (inheritEdge file ctx)
    unresolvedCalls := callSites.length
    unresolvedInherits := inheritSites.length
    unresolvedCallSites := callSites
    unresolvedInheritSites := inheritSites
    testCells := ctx.testCells.insertionSort (· ≤ ·)
    testFunctionCells := ctx.testFnIris.insertionSort (· ≤ ·) }

end

def File.stem : String :=
  ((fileName (pathComponents file.filePath.toList)).map fun n => .ofList (fileStem n)).getD
    file.filePath

def Ctx.start (root : SyntaxNode) : Ctx where
  cells := [cellOf file file.moduleIri .module file.stem root]
  edges := []
  funcByName := .empty
  classByName := .empty
  pendingCalls := []
  pendingInherits := []
  testCells := if file.isTest then [file.moduleIri] else []
  testFnIris := []
  importCounter := 0

def walked (tree : SyntaxTree) : Ctx :=
  walkChildren file (.start file tree.label) (some file.moduleIri) file.isTest [] tree.children

/-- Rust `parse_source`, on the tree of `tree-sitter`. -/
def parseSource (tree : SyntaxTree) : ParseResult := resolve file (walked file tree)
end

structure Frame where
  node : SyntaxNode
  children : List SyntaxTree
  attrs : List String

/-- A node that the walk comes to, with the nodes around it, innermost first. -/
structure Visit extends Frame where
  scope : List Frame

mutual
def visits (lang : Language) (scope : List Frame) (attrs : List String) : SyntaxTree → List Visit
  | .node n children =>
    ⟨⟨n, children, attrs⟩, scope⟩ ::
      if lang.role n.kind = .import_ then []
      else visitsChildren lang (⟨n, children, attrs⟩ :: scope) [] children

def visitsChildren (lang : Language) (scope : List Frame) (pendingAttrs : List String) :
    List SyntaxTree → List Visit
  | [] => []
  | child :: children =>
    if child.label.kind = "attribute_item" then
      visitsChildren lang scope (pendingAttrs ++ [child.label.text]) children
    else visits lang scope pendingAttrs child ++ visitsChildren lang scope [] children
end

section
variable (lang : Language)

def fileVisits (tree : SyntaxTree) : List Visit := visitsChildren lang [] [] tree.children

def Frame.role (f : Frame) : Role := lang.role f.node.kind

def Frame.funcName (f : Frame) : Option String :=
  if f.role lang = .func then some (defSymbol f.children) else none

def Frame.className (f : Frame) : Option String :=
  if f.role lang = .cls then some (defSymbol f.children) else none

def Frame.moduleName (f : Frame) : Option String :=
  if f.role lang = .module then some (modSymbol f.children) else none

/-- The marks by which `walk` takes a function or module for test code. -/
def Frame.marked (f : Frame) : Bool :=
  match f.role lang with
  | .func => attrsMarkTest f.attrs || nameIsTest lang (defSymbol f.children)
  | .module =>
    attrsMarkTest f.attrs || modSymbol f.children = "tests" || modSymbol f.children = "test"
  | _ => false

variable (file : File)

/-- `in_test`, read off the nodes around a node. -/
def inTestScope (scope : List Frame) : Bool := file.isTest || scope.any (·.marked file.language)

/-- `enclosing_fn`, read off the nodes around a node. -/
def callerIri (scope : List Frame) : String :=
  match scope.findSome? (·.funcName file.language) with
  | some symbol => file.defIri symbol
  | none => file.moduleIri

def record (ctx : Ctx) (v : Visit) : Ctx :=
  match v.role file.language with
  | .func =>
    let symbol := defSymbol v.children
    ctx.func file v.node symbol (funcIsTest file (inTestScope file v.scope) v.attrs symbol)
  | .cls => ctx.cls file v.node v.children
  | .impl => ctx.impl file v.children
  | .module =>
    let symbol := modSymbol v.children
    ctx.module file v.node symbol (modIsTest file (inTestScope file v.scope) v.attrs symbol)
  | .import_ => ctx.import_ file v.node
  | .call => ctx.call file v.children (some (callerIri file v.scope))
  | .other => ctx

variable {file} {f : Frame} {scope : List Frame}

lemma funcIsTest_eq (hr : f.role file.language = .func) :
    funcIsTest file (inTestScope file scope) f.attrs (defSymbol f.children) =
      inTestScope file (f :: scope) := by
  rw [funcIsTest, inTestScope, inTestScope, any_cons, Frame.marked, hr]
  generalize scope.any (·.marked file.language) = around
  cases file.isTest with
  | true => simp only [Bool.true_or]
  | false => rw [Bool.false_or, Bool.false_or, Bool.or_false, Bool.or_assoc, Bool.or_comm]

lemma modIsTest_eq (hr : f.role file.language = .module) :
    modIsTest file (inTestScope file scope) f.attrs (modSymbol f.children) =
      inTestScope file (f :: scope) := by
  rw [modIsTest, inTestScope, inTestScope, any_cons, Frame.marked, hr]
  generalize scope.any (·.marked file.language) = around
  cases file.isTest with
  | true => simp only [Bool.true_or]
  | false =>
    rw [Bool.false_or, Bool.false_or, Bool.or_false, Bool.or_assoc, Bool.or_assoc, Bool.or_comm]
    simp only [Bool.or_assoc]

lemma inTestScope_cons (hf : f.role file.language ≠ .func) (hm : f.role file.language ≠ .module) :
    inTestScope file (f :: scope) = inTestScope file scope := by
  have unmarked : f.marked file.language = false := by
    unfold Frame.marked
    cases hr : f.role file.language with
    | func => exact absurd hr hf
    | module => exact absurd hr hm
    | cls | impl | import_ | call | other => rfl
  rw [inTestScope, inTestScope, any_cons, unmarked, Bool.false_or]

lemma callerIri_cons (hf : f.role file.language ≠ .func) :
    callerIri file (f :: scope) = callerIri file scope := by
  rw [callerIri, callerIri, findSome?_cons_of_isNone]
  rw [Frame.funcName, if_neg hf, Option.isNone_none]

lemma callerIri_func (hf : f.role file.language = .func) :
    callerIri file (f :: scope) = file.defIri (defSymbol f.children) := by
  rw [callerIri, findSome?_cons, Frame.funcName, if_pos hf]

mutual
/-- The walk is the fold of `record` over the nodes it comes to. -/
lemma walk_eq (ctx : Ctx) (scope : List Frame) (attrs : List String) : ∀ tree : SyntaxTree,
    walk file ctx (some (callerIri file scope)) (inTestScope file scope) attrs tree =
      (visits file.language scope attrs tree).foldl (record file) ctx
  | .node n children => by
    have below := fun ctx => walkChildren_eq ctx (⟨n, children, attrs⟩ :: scope) [] children
    rw [walk, visits, foldl_cons]
    cases hr : file.language.role n.kind with
    | func =>
      have hf : Frame.role file.language ⟨n, children, attrs⟩ = .func := hr
      rw [callerIri_func hf, ← funcIsTest_eq hf] at below
      rw [if_neg (by decide), ← below, record, Frame.role, hr]
    | module =>
      have hm : Frame.role file.language ⟨n, children, attrs⟩ = .module := hr
      rw [callerIri_cons (by rw [hm]; decide), ← modIsTest_eq hm] at below
      rw [if_neg (by decide), ← below, record, Frame.role, hr]
    | import_ =>
      rw [if_pos rfl, foldl_nil, record, Frame.role, hr]
    | cls | impl | call | other =>
      have ho : Frame.role file.language ⟨n, children, attrs⟩ = _ := hr
      rw [callerIri_cons (by rw [ho]; decide),
        inTestScope_cons (by rw [ho]; decide) (by rw [ho]; decide)] at below
      rw [if_neg (by decide), ← below, record, Frame.role, hr]

lemma walkChildren_eq (ctx : Ctx) (scope : List Frame) (pendingAttrs : List String) :
    ∀ children : List SyntaxTree,
      walkChildren file ctx (some (callerIri file scope)) (inTestScope file scope) pendingAttrs
          children =
        (visitsChildren file.language scope pendingAttrs children).foldl (record file) ctx
  | [] => by rw [walkChildren, visitsChildren, foldl_nil]
  | child :: children => by
    rw [walkChildren, visitsChildren]
    by_cases hk : child.label.kind = "attribute_item"
    · rw [if_pos hk, if_pos hk]
      exact walkChildren_eq ctx scope _ children
    · rw [if_neg hk, if_neg hk, foldl_append, walk_eq ctx scope pendingAttrs child]
      exact walkChildren_eq _ scope [] children
end

/-- The walk over a file is the fold of `record` over its nodes. -/
theorem walked_eq (tree : SyntaxTree) :
    walked file tree =
      (fileVisits file.language tree).foldl (record file) (.start file tree.label) := by
  have h := @walkChildren_eq file (.start file tree.label) [] [] tree.children
  simpa [callerIri, inTestScope, walked, fileVisits] using h
end

end SocioWorkspace.Gbrg
