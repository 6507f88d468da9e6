import SocioWorkspace.Lib.Basic
import SocioWorkspace.Regis.Replay

/-!
# Resolution of source records

Model of `resolve` of `gbrg/crates/regis-core/src/lib.rs`: records are grouped by their blocking key, and each
group of at least two yields a decision, which is a veto if its topics contain a forbidden mixture. `replay`
joins merges wherever they share a record id.

`resolve_exact` says which groups give which decision. `recorded_components` describes the clusters of `replay`,
so that `resolve_veto_iff` can say when they contain a mixture that the policy forbids, and `tellsApart_iff`
when two decisions have two ids.
-/

namespace SocioWorkspace.Regis
open Relation List SortedMap

/-- Rust `SourceRecord`. -/
structure SourceRecord where
  recordId : String
  source : String
  blockingKey : String
  topics : List String
deriving DecidableEq

inductive EpistemicLevel where
  | proved
  | bounded
  | empirical
  | synthetic
  | speculative
  | rejected
deriving DecidableEq

/-- Rust `Decision`. -/
inductive Decision where
  | merge
  | possibleMatch
  | blocked
  | unrelated
deriving DecidableEq

/-- Rust `FeatureContribution`. -/
structure FeatureContribution where
  feature : String
  contribution : Float

/-- Rust `PolicyVerdict`. -/
structure PolicyVerdict where
  verdict : String
  forbiddenMixture : Option (List String)

/-- Rust `Confidence`. -/
structure Confidence where
  score : Float
  uncertainty : Float

/-- Rust `ResolutionDecision`. -/
structure ResolutionDecision where
  schemaVersion : String
  decisionId : String
  operation : String
  decision : Decision
  subjects : List String
  explanation : List FeatureContribution
  policyVerdict : PolicyVerdict
  confidence : Confidence
  reversible : Bool
  epistemicLevel : EpistemicLevel
  declaredBy : String

def DECLARED_BY : String := "agent-registry://regis-resolver"
def SCHEMA_VERSION : String := "regis.resolution-decision.v1"

/-- Rust `Policy`. -/
structure Policy where
  forbiddenMixtures : List (List String)

/-- Rust `forbidden_hit`: the first mixture all of whose topics are active. -/
def Policy.forbiddenHit (policy : Policy) (active : List String) : Option (List String) :=
  (policy.forbiddenMixtures.find? fun m => m.all fun t => active.any fun a => a = t).map sort

/-- The groups of Rust `resolve`: a `BTreeMap` from blocking keys. -/
def groups (records : List SourceRecord) : SortedMap String (List SourceRecord) :=
  records.foldl (fun g r => g.insert r.blockingKey ((g.get? r.blockingKey).getD [] ++ [r])) .empty

def addTopic (topics : List String) (t : String) : List String := if t ∈ topics then topics else topics ++ [t]

def combinedTopics (members : List SourceRecord) : List String :=
  members.foldl (fun topics m => m.topics.foldl addTopic topics) []

section
variable (sha256Hex : List Char → String)

/-- Rust `decision_id_for`. -/
def decisionIdFor (subjects : List String) : String :=
  "rd_" ++ .ofList ((sha256Hex ("|".intercalate (sort subjects)).toList).toList.take 12)

def resolveGroup (policy : Policy) (key : String) (members : List SourceRecord) :
    ResolutionDecision :=
  let subjects := sort (members.map (·.recordId))
  match policy.forbiddenHit (combinedTopics members) with
  | some fset => {
      schemaVersion := SCHEMA_VERSION
      decisionId := decisionIdFor sha256Hex subjects
      operation := "resolve"
      decision := .blocked
      subjects := subjects
      explanation := [⟨"shared_blocking_key:" ++ key, 1.0⟩]
      policyVerdict := ⟨"vetoed", some fset⟩
      confidence := ⟨0.0, 1.0⟩
      reversible := false
      epistemicLevel := .rejected
      declaredBy := DECLARED_BY }
  | none =>
    let n := members.length.toFloat
    let score := 1.0 - 1.0 / n
    { schemaVersion := SCHEMA_VERSION
      decisionId := decisionIdFor sha256Hex subjects
      operation := "resolve"
      decision := .merge
      subjects := subjects
      explanation := [⟨"shared_blocking_key:" ++ key, score⟩]
      policyVerdict := ⟨"allowed", none⟩
      confidence := ⟨score, 1.0 - score⟩
      reversible := true
      epistemicLevel := if n ≥ 3.0 then .bounded else .empirical
      declaredBy := DECLARED_BY }

section
variable (records : List SourceRecord) (policy : Policy)

/-- Rust `resolve`. -/
def resolve : List ResolutionDecision :=
  (groups records).members.filterMap fun (key, members) =>
    if members.length < 2 then none else some (resolveGroup sha256Hex policy key members)

def merges : List ResolutionDecision := (resolve sha256Hex records policy).filter (·.decision = .merge)

end

end

def recordMerges (digest : Preimage → String) :
    DecisionLedger → List (ResolutionDecision × String) → DecisionLedger
  | l, [] => l
  | l, (d, createdAt) :: rest =>
    recordMerges digest (l.merge digest d.decisionId d.subjects createdAt).1 rest

def group (records : List SourceRecord) (key : String) : List SourceRecord :=
  records.filter (·.blockingKey = key)

lemma groups_getD (records : List SourceRecord) (key) :
    ((groups records).get? key).getD [] = group records key := by
  induction records using List.reverseRecOn with
  | nil => rfl
  | append_singleton records r ih =>
    unfold groups group at ih ⊢
    rw [foldl_append, foldl_cons, foldl_nil, get?_insert, filter_append, ← ih]
    by_cases e : key = r.blockingKey
    · rw [if_pos e, Option.getD_some, filter_cons_of_pos (by simp [e]), filter_nil, e]
    · rw [if_neg e, filter_cons_of_neg (by simpa using Ne.symm e), filter_nil, append_nil]

variable {records : List SourceRecord}

lemma groups_ne_nil {key ms} (h : (groups records).get? key = some ms) : ms ≠ [] := by
  induction records using List.reverseRecOn generalizing key ms with
  | nil => cases h
  | append_singleton records r ih =>
    unfold groups at ih h
    rw [foldl_append, foldl_cons, foldl_nil, get?_insert] at h
    by_cases e : key = r.blockingKey
    · rw [if_pos e] at h
      cases h
      simp
    · rw [if_neg e] at h
      exact ih h

lemma mem_groups {key ms} : (key, ms) ∈ (groups records).members ↔ ms = group records key ∧ ms ≠ [] := by
  rw [← lookup_eq_some (groups records).keys_nodup]
  show (groups records).get? key = some ms ↔ _
  rw [← groups_getD]
  refine ⟨fun h => ⟨by rw [h, Option.getD_some], groups_ne_nil h⟩, fun h => ?_⟩
  obtain ⟨e, ne⟩ := h
  cases hg : (groups records).get? key with
  | none =>
    rw [hg] at e
    exact absurd e ne
  | some ms' => rw [e, hg, Option.getD_some]

lemma mem_addTopics {topics new : List String} {t} :
    t ∈ new.foldl addTopic topics ↔ t ∈ topics ∨ t ∈ new := by
  induction new generalizing topics with
  | nil => simp
  | cons u new ih =>
    rw [foldl_cons, ih, mem_cons]
    unfold addTopic
    by_cases hu : u ∈ topics
    · have seen : t = u → t ∈ topics := fun e => e ▸ hu
      rw [if_pos hu]
      tauto
    · rw [if_neg hu, mem_append, mem_singleton, or_assoc]

variable {members : List SourceRecord}

lemma mem_combinedTopics {t} : t ∈ combinedTopics members ↔ ∃ r ∈ members, t ∈ r.topics := by
  have key : ∀ topics, t ∈ members.foldl (fun topics m => m.topics.foldl addTopic topics) topics ↔
      t ∈ topics ∨ ∃ r ∈ members, t ∈ r.topics := by
    induction members with
    | nil => simp
    | cons m members ih =>
      intro topics
      rw [foldl_cons, ih, mem_addTopics, exists_mem_cons_iff, or_assoc]
  rw [combinedTopics, key]
  simp

/-- A group that is merged: it has at least two records and is not vetoed. -/
def MergedGroup (policy : Policy) (members : List SourceRecord) : Prop :=
  2 ≤ members.length ∧ policy.forbiddenHit (combinedTopics members) = none

lemma resolveGroup_merge {sha256Hex policy key members} :
    (resolveGroup sha256Hex policy key members).decision = .merge ↔
      policy.forbiddenHit (combinedTopics members) = none := by
  unfold resolveGroup
  cases policy.forbiddenHit (combinedTopics members) with
  | none => exact iff_of_true rfl rfl
  | some fset => exact iff_of_false (fun e => nomatch e) (fun e => nomatch e)

lemma resolveGroup_subjects {sha256Hex policy key members} :
    (resolveGroup sha256Hex policy key members).subjects = sort (members.map (·.recordId)) := by
  unfold resolveGroup
  cases policy.forbiddenHit (combinedTopics members) with
  | none => rfl
  | some fset => rfl

lemma mem_merges {sha256Hex records policy d} : d ∈ merges sha256Hex records policy ↔
    ∃ key, MergedGroup policy (group records key) ∧
      d = resolveGroup sha256Hex policy key (group records key) := by
  unfold merges resolve
  rw [mem_filter, mem_filterMap]
  refine ⟨?_, ?_⟩
  · intro ⟨⟨⟨key, ms⟩, hm, hd⟩, hmerge⟩
    obtain ⟨rfl, -⟩ := mem_groups.mp hm
    dsimp only at hd
    by_cases hl : (group records key).length < 2
    · rw [if_pos hl] at hd
      cases hd
    · rw [if_neg hl] at hd
      obtain rfl := Option.some.inj hd
      refine ⟨key, ⟨not_lt.mp hl, resolveGroup_merge.mp (of_decide_eq_true hmerge)⟩, rfl⟩
  · intro ⟨key, ⟨hl, hf⟩, e⟩
    refine ⟨⟨(key, group records key), mem_groups.mpr ⟨rfl, fun e => ?_⟩, ?_⟩, ?_⟩
    · rw [e] at hl
      cases hl
    · dsimp only
      rw [if_neg (not_lt.mpr hl), e]
    · rw [e]
      exact decide_eq_true (resolveGroup_merge.mpr hf)

def Vetoed (policy : Policy) (members : List SourceRecord) : Prop :=
  ∃ m ∈ policy.forbiddenMixtures, ∀ t ∈ m, ∃ r ∈ members, t ∈ r.topics

/-- The decision on the records with one blocking key. -/
structure DecisionOn (policy : Policy) (records : List SourceRecord) (key : String)
    (d : ResolutionDecision) : Prop where
  feature : d.explanation.map (·.feature) = ["shared_blocking_key:" ++ key]
  subjects : d.subjects.Perm ((group records key).map (·.recordId))
  sorted : d.subjects.Pairwise (· ≤ ·)
  blocked : d.decision = .blocked ↔ Vetoed policy (group records key)
  merge : d.decision = .merge ↔ ¬Vetoed policy (group records key)

lemma decisionOn_resolveGroup {sha256Hex policy records key} :
    DecisionOn policy records key
      (resolveGroup sha256Hex policy key (group records key)) := by
  have merge : (resolveGroup sha256Hex policy key (group records key)).decision = .merge ↔
      ¬Vetoed policy (group records key) := by
    rw [resolveGroup_merge, Vetoed]
    push Not
    simp [Policy.forbiddenHit, mem_combinedTopics]
  refine ⟨?_, ?_, ?_, ?_, merge⟩
  · unfold resolveGroup
    cases policy.forbiddenHit (combinedTopics (group records key)) with
    | none => rfl
    | some fset => rfl
  · rw [resolveGroup_subjects]
    exact sort_perm _
  · rw [resolveGroup_subjects]
    exact pairwise_insertionSort _ _
  · rw [← not_iff_not, ← merge]
    unfold resolveGroup
    cases policy.forbiddenHit (combinedTopics (group records key)) with
    | none => exact iff_of_true (fun e => nomatch e) rfl
    | some fset => exact iff_of_false (fun h => h rfl) (fun e => nomatch e)

def repeatedKeys (records : List SourceRecord) : List String :=
  (groups records).keys.filter fun key => 2 ≤ (group records key).length

lemma resolve_eq (sha256Hex) (records : List SourceRecord) (policy : Policy) :
    resolve sha256Hex records policy = (repeatedKeys records).map fun key =>
      resolveGroup sha256Hex policy key (group records key) := by
  have own : ∀ m ∈ (groups records).members, m.2 = group records m.1 := fun m hm => (mem_groups.mp hm).1
  unfold resolve repeatedKeys SortedMap.keys
  generalize (groups records).members = members at own ⊢
  induction members with
  | nil => rfl
  | cons m members ih =>
    obtain ⟨key, ms⟩ := m
    obtain rfl : ms = group records key := own _ mem_cons_self
    have ih := ih fun m' hm' => own m' (mem_cons_of_mem _ hm')
    rw [filterMap_cons, map_cons, filter_cons, ih]
    dsimp only
    by_cases hl : 2 ≤ (group records key).length
    · rw [if_neg (not_lt.mpr hl), if_pos (decide_eq_true hl), map_cons]
    · rw [if_pos (not_le.mp hl), if_neg (by simpa using hl)]

lemma mem_repeatedKeys {key} : key ∈ repeatedKeys records ↔ 2 ≤ (group records key).length := by
  rw [repeatedKeys, mem_filter, decide_eq_true_eq, and_iff_right_iff_imp]
  intro hl
  refine mem_map.mpr ⟨(key, group records key), mem_groups.mpr ⟨rfl, fun e => ?_⟩, rfl⟩
  rw [e] at hl
  cases hl

lemma repeatedKeys_sorted (records : List SourceRecord) : (repeatedKeys records).Pairwise (· < ·) :=
  (groups records).sorted.filter _

lemma repeatedKeys_perm {records records'} (perm : records'.Perm records) :
    repeatedKeys records' = repeatedKeys records := by
  refine List.Perm.eq_of_pairwise (fun _ _ _ _ h h' => absurd (h.trans h') (lt_irrefl _))
    (repeatedKeys_sorted _) (repeatedKeys_sorted _) ?_
  refine (perm_ext_iff_of_nodup (repeatedKeys_sorted _).nodup (repeatedKeys_sorted _).nodup).mpr fun key => ?_
  rw [mem_repeatedKeys, mem_repeatedKeys, group, (perm.filter _).length_eq, group]

/-- The subjects are sorted, and the mixtures are looked for in the set of topics. -/
lemma resolveGroup_perm {sha256Hex policy key members members'} (perm : members'.Perm members) :
    resolveGroup sha256Hex policy key members' = resolveGroup sha256Hex policy key members := by
  have subjects : sort (members'.map (·.recordId)) = sort (members.map (·.recordId)) := by
    refine List.Perm.eq_of_pairwise (fun _ _ _ _ => le_antisymm) (pairwise_insertionSort _ _)
      (pairwise_insertionSort _ _) ?_
    exact (sort_perm _).trans ((perm.map _).trans (sort_perm _).symm)
  have topics : ∀ t, t ∈ combinedTopics members' ↔ t ∈ combinedTopics members := by
    intro t
    simp only [mem_combinedTopics, perm.mem_iff]
  have hit : policy.forbiddenHit (combinedTopics members') =
      policy.forbiddenHit (combinedTopics members) := by
    unfold Policy.forbiddenHit
    congr 2
    funext m
    refine Bool.eq_iff_iff.mpr ?_
    simp only [all_eq_true, any_eq_true, decide_eq_true_eq, exists_eq_right, topics]
  unfold resolveGroup
  rw [subjects, hit, perm.length_eq]

/-- `resolve` returns, in any order of the records, one decision for each key that two records carry: a veto
exactly if their topics contain a forbidden mixture, and a merge otherwise. -/
theorem resolve_exact (sha256Hex : List Char → String) (records : List SourceRecord)
    (policy : Policy) :
    (∃ keys : List String, keys.Nodup ∧
      (∀ key, key ∈ keys ↔ 2 ≤ records.countP (·.blockingKey = key)) ∧
      List.Forall₂ (DecisionOn policy records) keys (resolve sha256Hex records policy)) ∧
    ∀ records' : List SourceRecord, records'.Perm records →
      resolve sha256Hex records' policy = resolve sha256Hex records policy := by
  refine ⟨⟨repeatedKeys records, (repeatedKeys_sorted records).nodup, ?_, ?_⟩, ?_⟩
  · intro key
    rw [mem_repeatedKeys, group, countP_eq_length_filter]
  · rw [resolve_eq, forall₂_map_right_iff]
    exact forall₂_same.mpr fun key _ => decisionOn_resolveGroup
  · intro records' perm
    rw [resolve_eq, resolve_eq, repeatedKeys_perm perm]
    exact map_congr_left fun key _ => resolveGroup_perm (perm.filter _)

structure RecordOf (e : DecisionLedgerEntry) (d : ResolutionDecision × String) : Prop where
  op : e.op = .merge
  reverses : e.reversesEntryRef = none
  subjects : e.subjects = d.1.subjects

lemma recordMerges_entries (digest) (l : DecisionLedger) (recorded) :
    ∃ es, (recordMerges digest l recorded).entries = l.entries ++ es ∧
      List.Forall₂ RecordOf es recorded := by
  induction recorded generalizing l with
  | nil => exact ⟨[], by simp [recordMerges], .nil⟩
  | cons d recorded ih =>
    obtain ⟨new, en, hn⟩ : ∃ new, (l.merge digest d.1.decisionId d.1.subjects d.2).1.entries =
        l.entries ++ [new] ∧ RecordOf new d := ⟨_, rfl, rfl, rfl, rfl⟩
    obtain ⟨es, e, h⟩ := ih (l.merge digest d.1.decisionId d.1.subjects d.2).1
    refine ⟨new :: es, ?_, .cons hn h⟩
    rw [recordMerges, e, en, append_assoc, singleton_append]

section
variable (records : List SourceRecord) (policy : Policy)

def Joined (x y : String) : Prop :=
  ∃ key, MergedGroup policy (group records key) ∧
    x ∈ (group records key).map (·.recordId) ∧ y ∈ (group records key).map (·.recordId)

def Mixed (ids : String → Prop) : Prop :=
  ∃ m ∈ policy.forbiddenMixtures, ∀ t ∈ m, ∃ r ∈ records, ids r.recordId ∧ t ∈ r.topics

end

section
variable {sha256Hex : List Char → String}
  {records : List SourceRecord} {policy : Policy}

lemma joined_iff (sha256Hex) {x y} : Joined records policy x y ↔
    ∃ d ∈ merges sha256Hex records policy, x ∈ d.subjects ∧ y ∈ d.subjects := by
  simp only [mem_merges, Joined]
  refine ⟨?_, ?_⟩
  · intro ⟨key, hk, hx, hy⟩
    refine ⟨_, ⟨key, hk, rfl⟩, ?_⟩
    rw [resolveGroup_subjects, (sort_perm _).mem_iff, (sort_perm _).mem_iff]
    exact ⟨hx, hy⟩
  · rintro ⟨_, ⟨key, hk, rfl⟩, h⟩
    rw [resolveGroup_subjects, (sort_perm _).mem_iff, (sort_perm _).mem_iff] at h
    exact ⟨key, hk, h⟩

/-- Replay of the merges of a resolution, in any order, returns the components of the ids under `Joined`. -/
lemma recorded_components (digest) {recorded}
    (perm : (recorded.map Prod.fst).Perm (merges sha256Hex records policy)) (keyOrder) :
    ∃ clusters, (recordMerges digest .new recorded).replay keyOrder = .ok clusters ∧
      Components (fun x => Joined records policy x x) (Joined records policy) clusters := by
  obtain ⟨es, e, h⟩ := recordMerges_entries digest .new recorded
  have e' : (recordMerges digest .new recorded).entries = es := e
  have none_reversed : reversed es = [] := by
    rw [reversed, Lists.filterMap_eq h fun _ _ hab => hab.reverses]
    simp
  have kept : ∀ a d, RecordOf a d → ∀ x y,
      (Kept [] a ∧ x ∈ a.subjects ∧ y ∈ a.subjects ↔ x ∈ d.1.subjects ∧ y ∈ d.1.subjects) := by
    intro a d hab x y
    rw [hab.subjects]
    exact and_iff_right ⟨hab.op, not_mem_nil⟩
  have pair : KeptPair [] es = Joined records policy := by
    funext x y
    refine propext ((Lists.exists_mem_iff h fun a d hab => kept a d hab x y).trans ?_)
    rw [joined_iff sha256Hex]
    simp only [← perm.mem_iff, mem_map, exists_exists_and_eq_and]
  have subject : KeptSubject [] es = fun x => Joined records policy x x := by
    funext x
    rw [← pair]
    simp only [KeptSubject, KeptPair, and_self]
  obtain ⟨clusters, er, hc⟩ := replay_components (recordMerges digest .new recorded) keyOrder
  rw [e', none_reversed, pair, subject] at hc
  exact ⟨clusters, er, hc⟩

lemma Joined.nodes {x y} (h : Joined records policy x y) :
    Joined records policy x x ∧ Joined records policy y y := by
  obtain ⟨key, hk, hx, hy⟩ := h
  exact ⟨⟨key, hk, hx, hx⟩, ⟨key, hk, hy, hy⟩⟩

lemma eqvGen_joined_iff {x y} (h : EqvGen (Joined records policy) x y) :
    Joined records policy x x ↔ Joined records policy y y := by
  induction h with
  | rel x y h => exact iff_of_true h.nodes.1 h.nodes.2
  | refl => exact Iff.rfl
  | symm _ _ _ ih => exact ih.symm
  | trans _ _ _ _ _ ih ih' => exact ih.trans ih'

lemma Mixed.mono {ids ids' : String → Prop} (h : Mixed records policy ids)
    (sub : ∀ x, ids x → ids' x) : Mixed records policy ids' := by
  obtain ⟨m, hm, h⟩ := h
  refine ⟨m, hm, fun t ht => ?_⟩
  obtain ⟨r, hr, hi, hrt⟩ := h t ht
  exact ⟨r, hr, sub _ hi, hrt⟩

/-- No cluster of the recorded merges mixes forbidden topics exactly if the records that chains of merged
groups link never do. -/
theorem resolve_veto_iff (sha256Hex : List Char → String) (digest : Preimage → String)
    (records : List SourceRecord) (policy : Policy) :
    (∀ recorded : List (ResolutionDecision × String),
      (recorded.map Prod.fst).Perm (merges sha256Hex records policy) →
      ∀ keyOrder, ∃ clusters, (recordMerges digest .new recorded).replay keyOrder = .ok clusters ∧
        ∀ k c, clusters.get? k = some c → ¬Mixed records policy (· ∈ c)) ↔
    ∀ x, Joined records policy x x →
      ¬Mixed records policy (EqvGen (Joined records policy) x) := by
  refine ⟨fun h x hx => ?_, fun h recorded perm keyOrder => ?_⟩
  · have perm : (((merges sha256Hex records policy).map (·, "")).map Prod.fst).Perm
        (merges sha256Hex records policy) := by
      rw [List.map_map]
      exact (List.map_id _).symm ▸ .refl _
    obtain ⟨clusters, e, hm⟩ := h _ perm .ascending
    obtain ⟨clusters', e', hc⟩ := recorded_components digest perm .ascending
    obtain rfl := Except.ok.inj (e.symm.trans e')
    obtain ⟨k, c, hk, hxc⟩ := (hc.covers x).mp hx
    refine fun hmix => hm k c hk (hmix.mono fun y hy => ?_)
    exact (hc.linked k c x y hk hxc).mpr ⟨(eqvGen_joined_iff hy).mp hx, hy⟩
  · obtain ⟨clusters, e, hc⟩ := recorded_components digest perm keyOrder
    refine ⟨clusters, e, fun k c hk hmix => ?_⟩
    have hkc := hc.keyed k c hk
    refine h k ((hc.covers k).mpr ⟨k, c, hk, hkc⟩) (hmix.mono fun y hy => ?_)
    exact ((hc.linked k c k y hk hkc).mp hy).2

end

def sharedRecord : List SourceRecord :=
  [⟨"sr_a", "test", "k1", ["patient"]⟩, ⟨"sr_x", "test", "k1", []⟩,
    ⟨"sr_x", "test", "k2", []⟩, ⟨"sr_b", "test", "k2", ["ad_tech"]⟩]

/-- Neither group is vetoed, and their cluster has both topics. -/
theorem sharedRecord_bypasses_veto :
    ((recordMerges (codeDigest sha256) .new ((merges sha256 sharedRecord
        ⟨[["patient", "ad_tech"]]⟩).map (·, "2026-08-01T00:00:00Z"))).replay
          .ascending).toOption.map (·.members) = some [("sr_x", ["sr_a", "sr_b", "sr_x"])] ∧
      Mixed sharedRecord ⟨[["patient", "ad_tech"]]⟩ (· ∈ ["sr_a", "sr_b", "sr_x"]) := by
  refine ⟨by decide +kernel, ["patient", "ad_tech"], by simp, ?_⟩
  simp [sharedRecord]

/-- A text over an alphabet, the empty one only if `blank` allows it. -/
def IdText (alphabet : Set Char) (blank : Prop) (s : String) : Prop :=
  (∀ c ∈ s.toList, c ∈ alphabet) ∧ (s = "" → blank)

structure Preimage.Over (Id : String → Prop) (t : Preimage) : Prop where
  prevHash : ∀ s ∈ t.prevHash, Id s
  decisionRef : Id t.decisionRef
  subjects : ∀ s ∈ t.subjects, Id s
  reverses : ∀ s ∈ t.reverses, Id s

/-- The texts that are hashed tell apart the fields of an entry and the subjects of a decision. -/
structure TellsApart (Id : String → Prop) : Prop where
  entries : ∀ t t' : Preimage, t.Over Id → t'.Over Id →
    (preimage t.prevHash t.op t.decisionRef t.subjects t.reverses).text =
      (preimage t'.prevHash t'.op t'.decisionRef t'.subjects t'.reverses).text →
    t.prevHash = t'.prevHash ∧ t.op = t'.op ∧ t.decisionRef = t'.decisionRef ∧
      (∀ x, x ∈ t.subjects ↔ x ∈ t'.subjects) ∧ t.reverses = t'.reverses
  decisions : ∀ as bs : List String, (∀ s ∈ as, Id s) → (∀ s ∈ bs, Id s) →
    "|".intercalate (sort as) = "|".intercalate (sort bs) → ∀ x, x ∈ as ↔ x ∈ bs

lemma text_preimage (p op ref subjects r) : (preimage p op ref subjects r).text =
    ['|'].intercalate [(p.getD "").toList, op.debug.toList, ref.toList,
      [','].intercalate ((sort subjects).map String.toList), (r.getD "").toList] := by
  simp [preimage, Preimage.text, intercalate]

lemma not_mem_intercalate {x y : Char} {ls : List (List Char)} (hxy : x ≠ y) (h : ∀ l ∈ ls, x ∉ l) :
    x ∉ [y].intercalate ls := by
  induction ls with
  | nil => exact not_mem_nil
  | cons l ls ih =>
    obtain ⟨hl, hls⟩ := forall_mem_cons.mp h
    cases ls with
    | nil => simpa using hl
    | cons l' ls =>
      rw [intercalate_cons_cons, mem_append, mem_append, mem_singleton]
      exact not_or_intro (not_or_intro hl hxy) (ih hls)

/-- Texts that are not empty and do not have the separator can be read back. -/
lemma read_join {x : Char} {as : List String} (has : ∀ s ∈ as, x ∉ s.toList ∧ s ≠ "") :
    (splitOn x ([x].intercalate (as.map String.toList))).filter (· ≠ []) = as.map String.toList := by
  by_cases hne : as = []
  · simp [hne]
  · rw [splitOn_intercalate x (forall_mem_map.mpr fun s hs => (has s hs).1)
      (mt map_eq_nil_iff.mp hne), filter_eq_self, forall_mem_map]
    exact fun s hs => by simpa using (has s hs).2

lemma join_inj {x : Char} {as bs : List String} (has : ∀ s ∈ as, x ∉ s.toList ∧ s ≠ "")
    (hbs : ∀ s ∈ bs, x ∉ s.toList ∧ s ≠ "")
    (h : [x].intercalate (as.map String.toList) = [x].intercalate (bs.map String.toList)) : as = bs := by
  have hread := read_join has
  rw [h, read_join hbs] at hread
  exact (map_injective_iff.mpr fun _ _ => String.toList_injective) hread.symm

lemma getD_inj {p p' : Option String} (hp : ∀ s ∈ p, s ≠ "") (hp' : ∀ s ∈ p', s ≠ "")
    (h : p.getD "" = p'.getD "") : p = p' := by
  cases p with
  | none =>
    cases p' with
    | none => rfl
    | some s => exact absurd h.symm (hp' s rfl)
  | some s =>
    cases p' with
    | none => exact absurd h (hp s rfl)
    | some s' => exact congrArg some h

lemma tellsApart_of_plain {Id : String → Prop}
    (hid : ∀ s, Id s → '|' ∉ s.toList ∧ ',' ∉ s.toList ∧ s ≠ "") : TellsApart Id := by
  have hsort {as bs : List String} (h : sort as = sort bs) (x) : x ∈ as ↔ x ∈ bs := by
    rw [← (sort_perm as).mem_iff, h, (sort_perm bs).mem_iff]
  have hsorted {as : List String} (h : ∀ s ∈ as, Id s) (s) (hs : s ∈ sort as) :=
    hid s (h s ((sort_perm as).mem_iff.mp hs))
  refine ⟨fun t t' ht ht' h => ?_, fun as bs has hbs h => ?_⟩
  · have hoption {p : Option String} (hp : ∀ s ∈ p, Id s) : '|' ∉ (p.getD "").toList := by
      cases p with
      | none => exact not_mem_nil
      | some s => exact (hid s (hp s rfl)).1
    have hparts {t : Preimage} (ht : t.Over Id) : ∀ l ∈ [(t.prevHash.getD "").toList,
        t.op.debug.toList, t.decisionRef.toList, [','].intercalate ((sort t.subjects).map String.toList),
        (t.reverses.getD "").toList], '|' ∉ l := by
      have hop : '|' ∉ t.op.debug.toList := by cases t.op <;> decide
      have hsubjects := not_mem_intercalate (y := ',') (by decide)
        (forall_mem_map.mpr fun s hs => (hsorted ht.subjects s hs).1)
      simp only [forall_mem_cons, not_mem_nil, false_imp_iff, implies_true, and_true]
      exact ⟨hoption ht.prevHash, hop, (hid _ ht.decisionRef).1, hsubjects, hoption ht.reverses⟩
    rw [text_preimage, text_preimage] at h
    have hsplit := congrArg (splitOn '|') h
    rw [splitOn_intercalate _ (hparts ht) (cons_ne_nil _ _),
      splitOn_intercalate _ (hparts ht') (cons_ne_nil _ _)] at hsplit
    simp only [cons.injEq, String.toList_inj, and_true] at hsplit
    obtain ⟨hprev, hop, href, hsubjects, hreverses⟩ := hsplit
    have hblank {p : Option String} (hp : ∀ s ∈ p, Id s) (s) (hs : s ∈ p) := (hid s (hp s hs)).2.2
    refine ⟨getD_inj (hblank ht.prevHash) (hblank ht'.prevHash) hprev, ?_, href, hsort ?_,
      getD_inj (hblank ht.reverses) (hblank ht'.reverses) hreverses⟩
    · cases ho : t.op <;> cases ho' : t'.op <;> simp [ho, ho', LedgerOp.debug] at hop ⊢
    · exact join_inj (fun s hs => (hsorted ht.subjects s hs).2)
        (fun s hs => (hsorted ht'.subjects s hs).2) hsubjects
  · rw [← String.toList_inj, String.toList_intercalate, String.toList_intercalate] at h
    exact hsort (join_inj (fun s hs => ⟨(hsorted has s hs).1, (hsorted has s hs).2.2⟩)
      (fun s hs => ⟨(hsorted hbs s hs).1, (hsorted hbs s hs).2.2⟩) h)

/-- The texts tell everything apart exactly if the ids are not empty and have no comma and no bar. -/
theorem tellsApart_iff (alphabet : Set Char) (blank : Prop) :
    TellsApart (IdText alphabet blank) ↔ ',' ∉ alphabet ∧ '|' ∉ alphabet ∧ ¬blank := by
  constructor
  · have hid {x s} (hx : x ∈ alphabet) (hs : s ≠ "" ∧ ∀ c ∈ s.toList, c = x) : IdText alphabet blank s :=
      ⟨fun c hc => hs.2 c hc ▸ hx, fun e => absurd e hs.1⟩
    refine fun h => ⟨fun hc => ?_, fun hc => ?_, fun hb => ?_⟩
    · have hone := hid (s := ",") hc (by simp)
      obtain ⟨-, -, -, hsame, -⟩ := h.entries ⟨none, .merge, ",", [",", ","], none⟩
        ⟨none, .merge, ",", [",,,"], none⟩ ⟨nofun, hone, by simpa using hone, nofun⟩
        ⟨nofun, hone, by simpa using hid hc (by simp), nofun⟩ (by decide)
      exact absurd ((hsame ",").mp mem_cons_self) (by decide)
    · have hsame := h.decisions ["|", "|"] ["|||"] (by simpa using hid hc (by simp))
        (by simpa using hid hc (by simp)) (by decide)
      exact absurd ((hsame "|").mp mem_cons_self) (by decide)
    · have hsame := h.decisions [""] [] (by simpa [IdText] using hb) nofun (by decide)
      exact absurd ((hsame "").mp mem_cons_self) not_mem_nil
  · rintro ⟨hcomma, hbar, hblank⟩
    exact tellsApart_of_plain fun s hs =>
      ⟨fun hc => hbar (hs.1 _ hc), fun hc => hcomma (hs.1 _ hc), mt hs.2 hblank⟩

/-- A subject with a comma reads as two subjects. -/
theorem joined_subjects_collide : ¬TellsApart fun _ => True := by
  intro h
  obtain ⟨-, -, -, hsame, -⟩ := h.entries ⟨none, .merge, "rd_1", ["a,b"], none⟩
    ⟨none, .merge, "rd_1", ["a", "b"], none⟩ (by constructor <;> simp) (by constructor <;> simp) (by decide)
  exact absurd ((hsame "a").mpr mem_cons_self) (by decide)

end SocioWorkspace.Regis
