import SocioWorkspace.Gbrg.Recorded

/-!
# Where the edges of a parsed file end

The parser resolves names to definitions of the same file, so that an edge should run between two cells that
it returns. One pass does not keep to that: `collect_rust_impl_inherits` notes the type of an `impl` whether
or not the file defines it.
-/

namespace SocioWorkspace.Gbrg
open List

variable {file : File}

mutual
lemma scope_visits {lang scope attrs f} : ∀ (tree : SyntaxTree),
    ∀ v ∈ visits lang scope attrs tree, f ∈ v.scope →
      f ∈ scope ∨ ∃ w ∈ visits lang scope attrs tree, w.toFrame = f
  | .node n children => by
    intro v hv hf
    rw [visits] at hv ⊢
    cases mem_cons.mp hv with
    | inl e =>
      subst e
      exact .inl hf
    | inr hv =>
      by_cases hr : lang.role n.kind = .import_
      · rw [if_pos hr] at hv
        cases hv
      · rw [if_neg hr] at hv ⊢
        cases scope_visitsChildren children v hv hf with
        | inl h =>
          cases mem_cons.mp h with
          | inl e => exact .inr ⟨_, mem_cons_self, e.symm⟩
          | inr h => exact .inl h
        | inr h =>
          obtain ⟨w, hw, e⟩ := h
          exact .inr ⟨w, mem_cons_of_mem _ hw, e⟩

lemma scope_visitsChildren {lang scope attrs f} :
    ∀ (children : List SyntaxTree), ∀ v ∈ visitsChildren lang scope attrs children, f ∈ v.scope →
      f ∈ scope ∨ ∃ w ∈ visitsChildren lang scope attrs children, w.toFrame = f
  | [] => by
    intro v hv
    rw [visitsChildren] at hv
    cases hv
  | child :: children => by
    intro v hv hf
    rw [visitsChildren] at hv ⊢
    by_cases hk : child.label.kind = "attribute_item"
    · rw [if_pos hk] at hv ⊢
      exact scope_visitsChildren children v hv hf
    · rw [if_neg hk] at hv ⊢
      cases mem_append.mp hv with
      | inl hv =>
        refine (scope_visits child v hv hf).imp_right ?_
        rintro ⟨w, hw, e⟩
        exact ⟨w, mem_append_left _ hw, e⟩
      | inr hv =>
        refine (scope_visitsChildren children v hv hf).imp_right ?_
        rintro ⟨w, hw, e⟩
        exact ⟨w, mem_append_right _ hw, e⟩
end

variable (file) in
def DefinesClass (tree : SyntaxTree) (name : String) : Prop :=
  ∃ v ∈ fileVisits file.language tree, v.className file.language = some name

variable (file) in
def Implements (tree : SyntaxTree) (type trait : String) : Prop :=
  ∃ v ∈ fileVisits file.language tree,
    v.role file.language = .impl ∧ implNames v.children = some (type, trait)

variable (file) in
def HasNode (cells : List SemanticCell) (id : NodeId) : Prop :=
  ∃ c ∈ cells, file.cellIriToNodeId c.cellId = id

/-- Something of the file has the node id: the file itself, an item that it defines, or an import. -/
def Denotes (file : File) (tree : SyntaxTree) (id : NodeId) : Prop :=
  ∃ iri, Recorded file (fileVisits file.language tree) iri ∧ file.cellIriToNodeId iri = id

lemma HasCell.hasNode {cells iri} (h : HasCell cells iri) :
    HasNode file cells (file.cellIriToNodeId iri) := by
  obtain ⟨c, hc, rfl⟩ := h
  exact ⟨c, hc, rfl⟩

variable (file) in
def Closed (result : ParseResult) : Prop :=
  ∀ e ∈ result.edges, HasNode file result.cells e.source ∧ HasNode file result.cells e.target

variable {tree : SyntaxTree}

lemma callEdge_some {ctx call e} (h : callEdge file ctx call = some e) :
    ∃ callee, ctx.funcByName.get? call.2 = some callee ∧
      e.source = file.cellIriToNodeId call.1 ∧ e.target = file.cellIriToNodeId callee := by
  unfold callEdge at h
  cases hc : ctx.funcByName.get? call.2 with
  | none =>
    rw [hc] at h
    cases h
  | some callee =>
    rw [hc] at h
    refine ⟨callee, rfl, ?_⟩
    dsimp only at h
    split_ifs at h with _ ht
    · cases h
      exact ⟨rfl, rfl⟩
    · cases h
      exact ⟨rfl, rfl⟩

lemma callEdge_closed {call e} (hcall : call ∈ (walked file tree).pendingCalls)
    (he : callEdge file (walked file tree) call = some e) :
    HasNode file (walked file tree).cells e.source ∧
      HasNode file (walked file tree).cells e.target := by
  obtain ⟨callee, hc, hs, ht⟩ := callEdge_some he
  rw [walked_eq, ← after] at hc hcall
  rw [hs, ht, walked_eq]
  constructor
  · rw [after_pendingCalls] at hcall
    obtain ⟨v, hv, hcall⟩ := mem_filterMap.mp hcall
    rw [callOf_caller hcall]
    unfold callerIri
    cases hf : v.scope.findSome? (·.funcName file.language) with
    | none => exact ((hasCell_iff _).2 (.inl rfl)).hasNode
    | some symbol =>
      obtain ⟨f, hfs, hname⟩ := exists_of_findSome?_eq_some hf
      cases scope_visitsChildren tree.children v hv hfs with
      | inl h => cases h
      | inr h =>
        obtain ⟨w, hw, rfl⟩ := h
        exact ((hasCell_iff _).2 (.inr (.inl ⟨w, hw, _, .inl hname, rfl⟩))).hasNode
  · rw [after_funcByName] at hc
    obtain ⟨⟨w, hw, hname⟩, rfl⟩ := hc
    exact ((hasCell_iff _).2 (.inr (.inl ⟨w, hw, _, .inl hname, rfl⟩))).hasNode

lemma inheritEdge_some {sub base e} (h : inheritEdge file (walked file tree) (sub, base) = some e) :
    DefinesClass file tree base ∧ e.source = file.cellIriToNodeId sub ∧
      HasNode file (walked file tree).cells e.target := by
  obtain ⟨iri, hb, rfl⟩ := Option.map_eq_some_iff.mp h
  rw [walked_eq, ← after, after_classByName] at hb
  obtain ⟨hclass, rfl⟩ := hb
  refine ⟨hclass, rfl, ?_⟩
  obtain ⟨w, hw, hname⟩ := hclass
  rw [walked_eq]
  exact ((hasCell_iff _).2 (.inr (.inl ⟨w, hw, _, .inr (.inl hname), rfl⟩))).hasNode

lemma inheritEdge_of_definesClass {sub base} (h : DefinesClass file tree base) :
    ∃ e, inheritEdge file (walked file tree) (sub, base) = some e ∧
      e.source = file.cellIriToNodeId sub := by
  have hb : (walked file tree).classByName.get? base = some (file.defIri base) := by
    rw [walked_eq, ← after, after_classByName]
    exact ⟨h, rfl⟩
  rw [inheritEdge, hb]
  exact ⟨_, rfl, rfl⟩

lemma mem_pendingInherits {sub base} :
    (sub, base) ∈ (walked file tree).pendingInherits ↔
      (∃ v ∈ fileVisits file.language tree, ∃ name, v.className file.language = some name ∧
        sub = file.defIri name ∧ base ∈ baseNames file.language v.children) ∨
      ∃ type, sub = file.defIri type ∧ Implements file tree type base := by
  rw [walked_eq, ← after, after_pendingInherits, mem_flatMap]
  constructor
  · rintro ⟨v, hv, h⟩
    unfold inheritsOf at h
    cases hr : v.role file.language with
    | cls =>
      rw [hr] at h
      obtain ⟨b, hb, e⟩ := mem_map.mp h
      cases e
      exact .inl ⟨v, hv, _, by rw [Frame.className, if_pos hr], rfl, hb⟩
    | impl =>
      rw [hr] at h
      obtain ⟨n, hn, e⟩ := mem_map.mp h
      cases e
      exact .inr ⟨n.1, rfl, v, hv, hr, Option.mem_toList.mp hn⟩
    | func | module | import_ | call | other =>
      rw [hr] at h
      cases h
  · rintro (⟨v, hv, name, hname, rfl, hb⟩ | ⟨type, rfl, v, hv, hr, hn⟩)
    · refine ⟨v, hv, ?_⟩
      unfold Frame.className at hname
      split_ifs at hname with hr
      cases hname
      rw [inheritsOf, hr]
      exact mem_map_of_mem hb
    · refine ⟨v, hv, ?_⟩
      rw [inheritsOf, hr]
      exact mem_map.mpr ⟨(type, base), by rw [hn]; exact mem_singleton.mpr rfl, rfl⟩

lemma hasNode_iff {id} : HasNode file (parseSource file tree).cells id ↔ Denotes file tree id := by
  have hcells : (parseSource file tree).cells =
      (after file tree.label (fileVisits file.language tree)).cells := by
    change (walked file tree).cells = _
    rw [walked_eq]
    rfl
  constructor
  · rintro ⟨c, hc, he⟩
    exact ⟨c.cellId, (hasCell_iff _).1 ⟨c, hcells ▸ hc, rfl⟩, he⟩
  · rintro ⟨iri, hiri, rfl⟩
    rw [hcells]
    exact ((hasCell_iff _).2 hiri).hasNode

/-- Rust `parse_source`: a parse is closed exactly if every `impl` of a trait of the file is for a type that
something of the file denotes; and then the analyzer skips no edge. -/
theorem closed_iff (file : File) (tree : SyntaxTree) :
    (Closed file (parseSource file tree) ↔
      ∀ type trait, Implements file tree type trait → DefinesClass file tree trait →
        Denotes file tree (file.cellIriToNodeId (file.defIri type))) ∧
    (Closed file (parseSource file tree) ↔
      skippedEdges file.cellIriToNodeId (parseSource file tree).cells
        (parseSource file tree).edges = 0) := by
  constructor
  · constructor
    · intro closed type trait himpl hclass
      obtain ⟨e, he, hs⟩ := @inheritEdge_of_definesClass file tree (file.defIri type) trait hclass
      rw [← hs, ← hasNode_iff]
      refine (closed e (mem_append_right _ (mem_filterMap.mpr ⟨_, ?_, he⟩))).1
      exact mem_pendingInherits.mpr (.inr ⟨type, rfl, himpl⟩)
    · intro h e he
      cases mem_append.mp he with
      | inl he =>
        cases mem_append.mp he with
        | inl he =>
          change e ∈ (walked file tree).edges at he
          rw [walked_eq, ← after] at he
          obtain ⟨-, hs, iri, hc, ht⟩ := mem_after_edges he
          rw [hs, ht]
          change HasNode file (walked file tree).cells _ ∧ HasNode file (walked file tree).cells _
          rw [walked_eq]
          exact ⟨((hasCell_iff _).2 (.inl rfl)).hasNode, hc.hasNode⟩
        | inr he =>
          obtain ⟨call, hcall, he⟩ := mem_filterMap.mp he
          exact callEdge_closed hcall he
      | inr he =>
        obtain ⟨⟨sub, base⟩, hnote, he⟩ := mem_filterMap.mp he
        obtain ⟨hclass, hs, ht⟩ := inheritEdge_some he
        refine ⟨?_, ht⟩
        rw [hs]
        rcases mem_pendingInherits.mp hnote with ⟨v, hv, name, hname, rfl, -⟩ | ⟨type, rfl, himpl⟩
        · change HasNode file (walked file tree).cells _
          rw [walked_eq]
          exact ((hasCell_iff _).2 (.inr (.inl ⟨v, hv, _, .inr (.inl hname), rfl⟩))).hasNode
        · exact hasNode_iff.2 (h type base himpl hclass)
  · rw [skippedEdges, countP_eq_zero]
    refine forall_congr' fun e => forall_congr' fun he => ?_
    simp only [GraphEdge.writable, Bool.not_eq_true', Bool.and_eq_false_iff, decide_eq_false_iff_not,
      mem_written, not_or, not_not]
    rfl

def leaf (kind : String) (field : Option String) (text : String) (row : Nat)
    (children : List SyntaxTree := []) : SyntaxTree :=
  .node ⟨kind, field, text, text.toUTF8.data.toList, row, row⟩ children

def rustFile (path : String) : File where
  language := .rust
  filePath := path
  cellIriToNodeId := cellIriToNodeId sha256
  astHashOf slice := Sha256.hexdigest (Sha256.digest (slice.map UInt8.toNat))

/-- The tree of `trait T {}` and `impl T for Vec<u8> {}`. -/
def foreignImpl : SyntaxTree :=
  leaf "source_file" none "trait T \x7b\x7d\nimpl T for Vec<u8> \x7b\x7d" 0 [
    leaf "trait_item" none "trait T \x7b\x7d" 0 [
      leaf "trait" none "trait" 0,
      leaf "type_identifier" (some "name") "T" 0,
      leaf "declaration_list" (some "body") "\x7b\x7d" 0],
    leaf "impl_item" none "impl T for Vec<u8> \x7b\x7d" 1 [
      leaf "impl" none "impl" 1,
      leaf "type_identifier" (some "trait") "T" 1,
      leaf "for" none "for" 1,
      leaf "generic_type" (some "type") "Vec<u8>" 1 [
        leaf "type_identifier" (some "type") "Vec" 1,
        leaf "type_arguments" (some "type_arguments") "<u8>" 1 [
          leaf "primitive_type" none "u8" 1]],
      leaf "declaration_list" (some "body") "\x7b\x7d" 1]]

set_option maxRecDepth 100000 in
/-- The file has two cells, and an edge from the type that it does not define. -/
theorem foreignImpl_not_closed :
    (parseSource (rustFile "src/lib.rs") foreignImpl).cells.map (·.cellId) =
        ["code://rust/src/lib.rs", "code://rust/src/lib.rs#T"] ∧
      ¬ Closed (rustFile "src/lib.rs") (parseSource (rustFile "src/lib.rs") foreignImpl) := by
  refine ⟨by decide +kernel, ?_⟩
  unfold Closed HasNode
  decide +kernel

end SocioWorkspace.Gbrg
