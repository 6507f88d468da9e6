import SocioWorkspace.SupplyChain.Model

/-!
# Call chains of an estate

Model of the node and path scoring of `gbrg/governance/supply_chain_pipeline.py`: call chains are derived from
the `CALLS` edges by greedy walks from the roots, and the controls of a chain are looked up under its subject
id. The factors of an artifact are an input; clusters, which have ids of their own, are left out.
-/

namespace SocioWorkspace.SupplyChain
open Python List

/-- An edge of a bundle (`kind`, `from`, `to`). -/
structure Edge where
  kind : Option String
  source : Option String
  target : Option String

def callEdges (edges : List Edge) (kinds : List String) : List (String × String) :=
  edges.filterMap fun e =>
    match e.kind, e.source, e.target with
    | some kind, some source, some target =>
      if kind ∈ kinds ∧ source ≠ "" ∧ target ≠ "" then some (source, target) else none
    | _, _, _ => none

section
variable (calls : List (String × String))

/-- Python `adj[n]`, sorted. -/
def successors (n : String) : List String := ((calls.filter (·.1 = n)).map (·.2)).insertionSort (· ≤ ·)

def roots : List String :=
  ((calls.flatMap fun c => [c.1, c.2]).dedup.filter fun n => n ∉ calls.map (·.2)).insertionSort
    (· ≤ ·)

/-- The loop of `walk_from`: the least successor that is not on the path, as long as there is room. -/
def extend : ℕ → List String → String → List String
  | 0, path, _ => path
  | room + 1, path, last =>
    match (successors calls last).find? (· ∉ path) with
    | none => path
    | some next => extend room (path ++ [next]) next

/-- Python `walk_from`. -/
def walkFrom (maxLen : ℕ) (start : String) : List String := extend calls (maxLen - 1) [start] start

/-- Longer chains first, and chains of one length in their order. -/
def Before (p q : List String) : Prop := q.length < p.length ∨ p.length = q.length ∧ p ≤ q

instance : DecidableRel Before := fun p q =>
  inferInstanceAs (Decidable (q.length < p.length ∨ p.length = q.length ∧ p ≤ q))

/-- Python `derive_call_paths`. -/
def deriveCallPaths (edges : List Edge) (kinds : List String := ["CALLS"]) (maxPaths : ℕ := 8)
    (maxLen : ℕ := 12) : List (List String) :=
  let calls := callEdges edges kinds
  let paths := ((roots calls).map (walkFrom calls maxLen)).filter fun chain => 2 ≤ chain.length
  (paths.insertionSort Before).take maxPaths

/-- The evidence index: the controls of a subject, and its metrics (the `__kri__` entries). -/
structure EvidenceIndex where
  controls : SortedMap String (List ControlEvidence)
  kri : SortedMap String (List (String × ℚ))

/-- Python `controls_from_index`. -/
def controlsFromIndex (subjectId : String) (index : EvidenceIndex) : List ControlEvidence :=
  (index.controls.get? subjectId).getD []

/-- Python `_external_kri`. -/
def externalKri (subjectId : String) (index : EvidenceIndex) : List (String × ℚ) :=
  (index.kri.get? subjectId).getD []

/-- Python `cell.split("#")[-1]`. -/
def fragment (cell : String) : String := .ofList ((cell.toList.splitOn '#').getLastD [])

def chainLabel (chain : List String) : String :=
  fragment (chain.headD "") ++ "->" ++ fragment (chain.getLastD "")

def chainId (chain : List String) : String :=
  "path:" ++ chainLabel chain ++ ":" ++ toString chain.length ++ "nodes"

/-- A proof artifact: its cell, and the factors that its signals give. -/
structure Artifact where
  cellId : String
  factors : SortedMap String ℚ

structure Estate where
  nodes : List Assessment
  paths : List Assessment

variable (py : Format) (weights : Weights) (crosswalk : Crosswalk) (crosswalkRefs : List String)
  (tier0 : Bool)

/-- What is known of a subject from the index. -/
def indexed (index : EvidenceIndex) (subjectId : String) : Subject where
  subjectId := subjectId
  controlsEvidence := controlsFromIndex subjectId index
  kriMetrics := externalKri subjectId index
  crosswalkRefs := crosswalkRefs

/-- Python `assess_estate`, without the clusters. -/
def assessEstate (artifacts : List Artifact) (edges : List Edge) (index : EvidenceIndex) :
    Except PyError Estate := do
  let nodes ← artifacts.mapM fun art =>
    assessNode py weights crosswalk (indexed crosswalkRefs index art.cellId) art.factors tier0
  let residualByCell := nodes.map fun a => (a.subjectId, a.residualScore)
  let paths ← (deriveCallPaths edges).mapM fun chain =>
    -- a later artifact of a cell counts, and a cell without one has residual 0
    let residuals := chain.map fun cell => (residualByCell.reverse.lookup cell).getD 0
    assessPath py weights crosswalk (indexed crosswalkRefs index (chainId chain)) residuals
  return ⟨nodes, paths⟩

variable {calls}

lemma mem_successors {n m} : m ∈ successors calls n ↔ (n, m) ∈ calls := by
  simp only [successors, mem_insertionSort, mem_map, mem_filter, decide_eq_true_eq]
  refine ⟨?_, fun h => ⟨(n, m), ⟨h, rfl⟩, rfl⟩⟩
  rintro ⟨⟨a, b⟩, ⟨h, rfl⟩, rfl⟩
  exact h

/-- A simple path along the calls that ends in the given node. -/
structure SimplePath (calls : List (String × String)) (path : List String) (last : String) : Prop where
  chain : path.IsChain fun a b => (a, b) ∈ calls
  nodup : path.Nodup
  ends : path.getLast? = some last

/-- The loop keeps the path simple, keeps what it has so far, and adds one node per round at most. -/
lemma extend_spec (room : ℕ) {path last} (h : SimplePath calls path last) :
    (∃ last', SimplePath calls (extend calls room path last) last') ∧
      path <+: extend calls room path last ∧
      (extend calls room path last).length ≤ path.length + room := by
  induction room generalizing path last with
  | zero => exact ⟨⟨last, h⟩, prefix_rfl, le_rfl⟩
  | succ room ih =>
    unfold extend
    cases hnext : (successors calls last).find? (· ∉ path) with
    | none => exact ⟨⟨last, h⟩, prefix_rfl, Nat.le_add_right _ _⟩
    | some next =>
      have hnew : next ∉ path := by simpa using find?_some hnext
      have hedge : (last, next) ∈ calls := mem_successors.1 (mem_of_find?_eq_some hnext)
      have hstep : SimplePath calls (path ++ [next]) next := by
        refine ⟨?_, ?_, by simp⟩
        · refine isChain_append.2 ⟨h.chain, isChain_singleton _, ?_⟩
          intro a ha b hb
          rw [h.ends] at ha
          cases ha
          cases hb
          exact hedge
        · exact nodup_append.2 ⟨h.nodup, nodup_singleton _, by
            rintro a ha b hb rfl
            exact hnew (mem_singleton.1 hb ▸ ha)⟩
      obtain ⟨hsimple, hprefix, hlen⟩ := ih hstep
      refine ⟨hsimple, (prefix_append path [next]).trans hprefix, hlen.trans ?_⟩
      rw [length_append, length_singleton]
      omega

lemma head?_walkFrom {maxLen start} : (walkFrom calls maxLen start).head? = some start := by
  have hstart : SimplePath calls [start] start := ⟨isChain_singleton _, nodup_singleton _, rfl⟩
  obtain ⟨rest, hrest⟩ := (extend_spec (maxLen - 1) hstart).2.1
  rw [walkFrom, ← hrest]
  rfl

lemma nodup_roots : (roots calls).Nodup := (perm_insertionSort _ _).nodup_iff.2 ((nodup_dedup _).filter _)

variable {edges : List Edge} {kinds : List String} {maxPaths maxLen : ℕ}

lemma mem_deriveCallPaths {chain} (h : chain ∈ deriveCallPaths edges kinds maxPaths maxLen) :
    2 ≤ chain.length ∧ ∃ root ∈ roots (callEdges edges kinds),
      chain = walkFrom (callEdges edges kinds) maxLen root := by
  have hmem := mem_of_mem_take h
  rw [mem_insertionSort, mem_filter, mem_map, decide_eq_true_eq] at hmem
  obtain ⟨⟨root, hroot, rfl⟩, hlen⟩ := hmem
  exact ⟨hlen, root, hroot, rfl⟩

lemma eq_of_head?_eq {c c'} (hc : c ∈ deriveCallPaths edges kinds maxPaths maxLen)
    (hc' : c' ∈ deriveCallPaths edges kinds maxPaths maxLen) (h : c.head? = c'.head?) : c = c' := by
  obtain ⟨-, root, -, rfl⟩ := mem_deriveCallPaths hc
  obtain ⟨-, root', -, rfl⟩ := mem_deriveCallPaths hc'
  rw [head?_walkFrom, head?_walkFrom] at h
  rw [Option.some.inj h]

lemma nodup_deriveCallPaths : (deriveCallPaths edges kinds maxPaths maxLen).Nodup := by
  refine List.Nodup.sublist (take_sublist _ _) ((perm_insertionSort _ _).nodup_iff.2 ?_)
  refine (nodup_roots.map fun r r' h => ?_).filter _
  have hhead := congrArg List.head? h
  rw [head?_walkFrom, head?_walkFrom] at hhead
  exact Option.some.inj hhead

end

/-- A text and a number with a colon between them are told apart, whatever colons the text has. -/
lemma append_colon_toString_inj {a b} {m n : ℕ}
    (h : a ++ ":" ++ toString m = b ++ ":" ++ toString n) : a = b ∧ m = n := by
  have hcolon (k : ℕ) : ':' ∉ Nat.toDigits 10 k := fun hk => absurd (digits_isDigit hk) (by decide)
  have h := congrArg String.toList h
  simp only [String.toList_append, toList_toString, append_assoc] at h
  obtain ⟨ha, hm⟩ := append_cons_inj (hcolon m) (hcolon n) h
  exact ⟨String.toList_inj.1 ha, toDigits_inj hm⟩

/-- An id tells the label and the length of its chain. -/
theorem chainId_inj {c c' : List String} :
    chainId c = chainId c' ↔ chainLabel c = chainLabel c' ∧ c.length = c'.length := by
  refine ⟨?_, fun ⟨hl, hn⟩ => by rw [chainId, chainId, hl, hn]⟩
  intro h
  have h' := String.append_left_inj _ |>.1 h
  rw [String.append_assoc, String.append_assoc, String.append_assoc, String.append_assoc] at h'
  have h'' := String.append_right_inj _ |>.1 h'
  rw [← String.append_assoc, ← String.append_assoc] at h''
  exact append_colon_toString_inj h''

def EvidenceIndex.record (index : EvidenceIndex) (subjectId : String) (ces : List ControlEvidence) :
    EvidenceIndex := { index with controls := index.controls.insert subjectId ces }

lemma controlsFromIndex_record {index subjectId ces subjectId'} (h : subjectId' ≠ subjectId) :
    controlsFromIndex subjectId' (index.record subjectId ces) = controlsFromIndex subjectId' index := by
  unfold controlsFromIndex EvidenceIndex.record
  rw [SortedMap.get?_insert_of_ne h]

section
variable (py : Format) (weights : Weights) (crosswalk : Crosswalk) (crosswalkRefs : List String)
  (tier0 : Bool) (artifacts : List Artifact) (edges : List Edge)

/-- Chains have different ids, and what is recorded for one is not credited to another: the `i`-th
assessment has the controls it had, unless the `i`-th chain is the one. -/
structure NeverShared : Prop where
  ids : ∀ index est, assessEstate py weights crosswalk crosswalkRefs tier0 artifacts edges index =
    .ok est → (est.paths.map (·.subjectId)).Nodup
  controls : ∀ chain ∈ deriveCallPaths edges, ∀ index ces est est',
    assessEstate py weights crosswalk crosswalkRefs tier0 artifacts edges index = .ok est →
    assessEstate py weights crosswalk crosswalkRefs tier0 artifacts edges
      (index.record (chainId chain) ces) = .ok est' →
    ∀ i : ℕ, (deriveCallPaths edges)[i]? ≠ some chain →
      (est'.paths.map (·.controlsEvidence))[i]? = (est.paths.map (·.controlsEvidence))[i]?

variable {py weights crosswalk crosswalkRefs tier0 artifacts edges} {index : EvidenceIndex}

lemma assessEstate_paths {est} (h : assessEstate py weights crosswalk crosswalkRefs tier0 artifacts
    edges index = .ok est) :
    est.paths.map (·.subjectId) = (deriveCallPaths edges).map chainId ∧
    est.paths.map (·.controlsEvidence) =
      (deriveCallPaths edges).map fun chain => controlsFromIndex (chainId chain) index := by
  obtain ⟨nodes, -, h⟩ := bind_eq_ok.1 h
  obtain ⟨paths, hpaths, h⟩ := bind_eq_ok.1 h
  cases h
  have hall := forall₂_of_mapM_eq_ok hpaths
  refine ⟨?_, ?_⟩
  · exact forall₂_eq_eq_eq ▸ (forall₂_map_left_iff.2 (forall₂_map_right_iff.2
      (hall.flip.imp fun a chain ha => (assess_record ha).1)))
  · exact forall₂_eq_eq_eq ▸ (forall₂_map_left_iff.2 (forall₂_map_right_iff.2
      (hall.flip.imp fun a chain ha => (assess_record ha).2)))

lemma assessEstate_returns : ∃ est, assessEstate py weights crosswalk crosswalkRefs tier0 artifacts
    edges ⟨.empty, .empty⟩ = .ok est := by
  have hname : ∀ id, Nameable py crosswalk (indexed crosswalkRefs ⟨.empty, .empty⟩ id) :=
    fun id _ v hv => nomatch hv
  have hnode : ∀ art ∈ artifacts, ∃ a, assessNode py weights crosswalk
      (indexed crosswalkRefs ⟨.empty, .empty⟩ art.cellId) art.factors tier0 = .ok a :=
    fun art _ => assessNode_returns.2 ⟨fun ce hce => (nomatch hce), ⟨[], rfl⟩, hname _⟩
  obtain ⟨nodes, hnodes⟩ := mapM_returns.2 hnode
  have hpath : ∀ chain ∈ deriveCallPaths edges, ∃ a, assessPath py weights crosswalk
      (indexed crosswalkRefs ⟨.empty, .empty⟩ (chainId chain))
      (chain.map fun cell => ((nodes.map fun a => (a.subjectId, a.residualScore)).reverse.lookup
        cell).getD 0) = .ok a :=
    fun chain _ => assess_returns.2 ⟨⟨[], rfl⟩, hname _⟩
  obtain ⟨paths, hpaths⟩ := mapM_returns.2 hpath
  exact ⟨_, bind_eq_ok.2 ⟨nodes, hnodes, bind_eq_ok.2 ⟨paths, hpaths, rfl⟩⟩⟩

/-- Chains never share evidence exactly if those of different heads and one length have different labels. -/
theorem neverShared_iff :
    NeverShared py weights crosswalk crosswalkRefs tier0 artifacts edges ↔
      ∀ c ∈ deriveCallPaths edges, ∀ c' ∈ deriveCallPaths edges, c.head? ≠ c'.head? →
        c.length = c'.length → chainLabel c ≠ chainLabel c' := by
  -- ids are different exactly where labels or lengths are
  have hinj : ((deriveCallPaths edges).map chainId).Nodup ↔
      ∀ c ∈ deriveCallPaths edges, ∀ c' ∈ deriveCallPaths edges, c.head? ≠ c'.head? →
        c.length = c'.length → chainLabel c ≠ chainLabel c' := by
    rw [nodup_map_iff_inj_on nodup_deriveCallPaths]
    refine forall₂_congr fun c hc => forall₂_congr fun c' hc' => ?_
    rw [chainId_inj]
    refine ⟨?_, ?_⟩
    · intro h hhead hlen hlabel
      exact hhead (congrArg List.head? (h ⟨hlabel, hlen⟩))
    · intro h ⟨hlabel, hlen⟩
      by_contra hne
      exact h (fun hhead => hne (eq_of_head?_eq hc hc' hhead)) hlen hlabel
  rw [← hinj]
  refine ⟨?_, ?_⟩
  · intro h
    obtain ⟨est, hest⟩ := assessEstate_returns
    rw [← (assessEstate_paths hest).1]
    exact h.ids _ est hest
  · intro hnodup
    refine ⟨?_, ?_⟩
    · intro index est hest
      rw [(assessEstate_paths hest).1]
      exact hnodup
    · intro chain hchain index ces est est' hest hest' i hi
      rw [(assessEstate_paths hest).2, (assessEstate_paths hest').2, getElem?_map, getElem?_map]
      cases hother : (deriveCallPaths edges)[i]? with
      | none => rfl
      | some other =>
        have hmem : other ∈ deriveCallPaths edges := mem_of_getElem? hother
        have hid : chainId other ≠ chainId chain := by
          intro hid
          rw [hother, inj_on_of_nodup_map hnodup hmem hchain hid] at hi
          exact hi rfl
        rw [Option.map_some, Option.map_some, controlsFromIndex_record hid]

end

/-- Two programs of one workspace, each with a `main` that calls its own `run`. -/
def twoPrograms : List Edge :=
  [⟨some "CALLS", some "code://rust/a/main.rs#main", some "code://rust/a/main.rs#run"⟩,
    ⟨some "CALLS", some "code://rust/b/main.rs#main", some "code://rust/b/main.rs#run"⟩]

def oneRecord : EvidenceIndex where
  controls := SortedMap.empty.insert "path:main->run:2nodes"
    [⟨some (.str "Governance"), some 1, some (.str "ev://owner-register#a")⟩]
  kri := .empty

/-- The two chains have one id, and both verify by the control recorded under it. -/
theorem same_named_chains_share_evidence :
    deriveCallPaths twoPrograms =
      [["code://rust/a/main.rs#main", "code://rust/a/main.rs#run"],
        ["code://rust/b/main.rs#main", "code://rust/b/main.rs#run"]] ∧
    (assessEstate .decimal loadWeights ⟨[], [], []⟩ [] true [] twoPrograms oneRecord).toOption.map
        (fun est => est.paths.map fun a => (a.subjectId, a.verdict, a.controlsEvidence.length)) =
      some [("path:main->run:2nodes", .verifies, 1), ("path:main->run:2nodes", .verifies, 1)] := by
  refine ⟨?_, ?_⟩
  · decide +kernel
  · decide +kernel

end SocioWorkspace.SupplyChain
