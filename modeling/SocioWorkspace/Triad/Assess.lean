import SocioWorkspace.Lib.OrderedDict
import SocioWorkspace.Triad.Receipt

/-!
# The macro-triad quorum

Model of `automation/macro_triad.py`: `assess_triad` sorts the receipts of the masters into sick ones and votes
for a state root (`count`), picks the root with most votes and, if it reaches the quorum, names everyone else
sick. Votes are counted for each receipt, and the winner of a tie is the least root. The trail `reasons` is left
out.
-/

namespace SocioWorkspace.Triad
open List OrderedDict

/-- Python `SickCluster`. The cluster of a malformed receipt can be any value. -/
structure SickCluster where
  cluster : Value
  reason : String
  headCommit : Option String
  koeId : Option String
deriving DecidableEq

/-- Python `TriadAssessment`. -/
structure TriadAssessment where
  quorumOk : Bool
  canonicalStateRoot : Option String
  canonicalCommit : Option String
  healthyClusters : List String
  sickClusters : List SickCluster
deriving DecidableEq

/-- Python `TriadAssessment.needs_failback`. -/
def TriadAssessment.needsFailback (a : TriadAssessment) : Bool := a.quorumOk && !a.sickClusters.isEmpty

/-- Python `s[:n]`. -/
def firstChars (n : ℕ) (s : String) : String := .ofList (s.toList.take n)

inductive Ballot where
  | sick (s : SickCluster)
  | vote (receipt : ClusterReceipt)

section Assess
variable (py : Builtins)

/-- The name that a malformed receipt gives, if it gives one. -/
def rawCluster (raw : Value) : Option Value :=
  ((raw.asDict.bind (·.get? "cluster")).filter (·.truthy))

def ballot (idx : ℕ) (raw : Value) : Ballot :=
  match lintReceipt py raw with
  | .error errors => .sick {
      cluster := (rawCluster raw).getD (.str ("<receipt[" ++ toString idx ++ "]>"))
      reason := "malformed receipt: " ++ "; ".intercalate errors
      headCommit := none
      koeId := none }
  | .ok receipt =>
    match receipt.koeId with
    | some koe => .sick {
        cluster := .str receipt.cluster
        reason := "quarantined by Lazerus koe_id"
        headCommit := some receipt.commit
        koeId := some koe }
    | none => .vote receipt

structure Count where
  sick : List SickCluster
  byState : List (String × List ClusterReceipt)

def Count.add (c : Count) : Ballot → Count
  | .sick s => { c with sick := c.sick ++ [s] }
  | .vote receipt => { c with byState := OrderedDict.push ClusterReceipt.stateRoot c.byState receipt }

def count (receipts : List Value) : Count :=
  receipts.zipIdx.foldl (fun c m => c.add (ballot py m.2 m.1)) ⟨[], []⟩

def unreconciled (root : String) (receipt : ClusterReceipt) : SickCluster where
  cluster := .str receipt.cluster
  reason := "unreconciled: no quorum, committed to " ++ firstChars 19 root ++ "…"
  headCommit := some receipt.commit
  koeId := none

def diverged (root : String) (receipt : ClusterReceipt) : SickCluster where
  cluster := .str receipt.cluster
  reason := "diverged: committed to " ++ firstChars 19 root ++ "… not the canonical state"
  headCommit := some receipt.commit
  koeId := none

/-- Python `assess_triad`. -/
def assessTriad (receipts : List Value) (quorum : ℤ) : TriadAssessment :=
  let c := count py receipts
  match (OrderedDict.largest List.length c.byState).filter fun m => quorum ≤ m.2.length with
  | none => {
      quorumOk := false
      canonicalStateRoot := none
      canonicalCommit := none
      healthyClusters := []
      sickClusters := c.sick ++ (c.byState.insertionSort fun m m' => m.1 ≤ m'.1).flatMap fun m =>
        m.2.map (unreconciled m.1) }
  | some (winner, canonical) => {
      quorumOk := true
      canonicalStateRoot := some winner
      canonicalCommit := canonical.head?.map (·.commit)
      healthyClusters := canonical.map (·.cluster)
      sickClusters := c.sick ++ (c.byState.filter (·.1 ≠ winner)).flatMap fun m =>
        m.2.map (diverged m.1) }

def vote (raw : Value) : Option ClusterReceipt :=
  match lintReceipt py raw with
  | .error _ => none
  | .ok receipt => if receipt.koeId = none then some receipt else none

def votes (receipts : List Value) (root : String) : List ClusterReceipt :=
  (receipts.filterMap (vote py)).filter (·.stateRoot = root)

def rejected (receipts : List Value) : List SickCluster :=
  receipts.zipIdx.filterMap fun m =>
    match ballot py m.2 m.1 with
    | .sick s => some s
    | .vote _ => none

end Assess

variable {py : Builtins} {receipts : List Value} {quorum : ℤ} {root : String}

lemma ballot_eq_vote {idx raw receipt} : ballot py idx raw = .vote receipt ↔ vote py raw = some receipt := by
  unfold ballot vote
  cases lintReceipt py raw with
  | error errors => simp
  | ok receipt' =>
    cases hkoe : receipt'.koeId with
    | none | some koe => simp [hkoe]

lemma foldl_add (ballots : List Ballot) (c : Count) :
    ballots.foldl Count.add c =
      { sick := c.sick ++ ballots.filterMap fun | .sick s => some s | .vote _ => none
        byState := (ballots.filterMap fun | .sick _ => none | .vote receipt => some receipt).foldl
          (push ClusterReceipt.stateRoot) c.byState } := by
  induction ballots generalizing c with
  | nil => simp
  | cons b ballots ih =>
    rw [foldl_cons, ih]
    cases b with
    | sick s | vote receipt => simp [Count.add]

lemma count_eq : count py receipts =
    ⟨rejected py receipts, group (·.stateRoot) (receipts.filterMap (vote py))⟩ := by
  have hvotes : (receipts.zipIdx.map fun m => ballot py m.2 m.1).filterMap
      (fun | .sick _ => none | .vote receipt => some receipt) = receipts.filterMap (vote py) := by
    have hfst : receipts.filterMap (vote py) = (receipts.zipIdx.map Prod.fst).filterMap (vote py) := by
      rw [zipIdx_map_fst]
    rw [hfst, filterMap_map, filterMap_map]
    refine filterMap_congr fun m _ => Option.ext fun receipt => ?_
    show _ ↔ vote py m.1 = some receipt
    rw [← @ballot_eq_vote py m.2, Function.comp_apply]
    cases ballot py m.2 m.1 <;> simp
  rw [count, ← foldl_map (f := fun m : Value × ℕ => ballot py m.2 m.1) (g := Count.add), foldl_add,
    hvotes, filterMap_map]
  rfl

lemma mem_byState {m} :
    m ∈ (count py receipts).byState ↔
      m.2 = votes py receipts m.1 ∧ votes py receipts m.1 ≠ [] := by
  obtain ⟨r, l⟩ := m
  rw [count_eq]
  refine mem_group.trans (and_congr_right fun _ => ?_)
  simp only [votes, ne_eq, filter_eq_nil_iff, decide_eq_true_eq, not_forall, not_not, exists_prop]

lemma nodup_byState : ((count py receipts).byState.map Prod.fst).Nodup := by
  rw [count_eq]
  exact nodup_group ..

/-- The root has most votes, or is the least of those with most, and reaches the quorum. -/
structure Elected (py : Builtins) (receipts : List Value) (quorum : ℤ) (root : String) : Prop where
  voted : votes py receipts root ≠ []
  quorum : quorum ≤ (votes py receipts root).length
  first : ∀ r, votes py receipts r ≠ [] →
    (votes py receipts r).length < (votes py receipts root).length ∨
      (votes py receipts r).length = (votes py receipts root).length ∧ root ≤ r

lemma elected_iff {l} :
    (largest List.length (count py receipts).byState).filter
        (fun m => quorum ≤ m.2.length) = some (root, l) ↔
      Elected py receipts quorum root ∧ l = votes py receipts root := by
  rw [Option.filter_eq_some_iff, largest_eq_some nodup_byState, mem_byState, decide_eq_true_eq]
  constructor
  · rintro ⟨⟨⟨hl, hvoted⟩, hfirst⟩, hquorum⟩
    have hl : l = votes py receipts root := hl
    subst hl
    exact ⟨⟨hvoted, hquorum, fun r hr => hfirst (r, _) (mem_byState.2 ⟨rfl, hr⟩)⟩, rfl⟩
  · rintro ⟨h, rfl⟩
    refine ⟨⟨⟨rfl, h.voted⟩, fun m hm => ?_⟩, h.quorum⟩
    obtain ⟨hvotes, hvoted⟩ := mem_byState.1 hm
    rw [hvotes]
    exact h.first m.1 hvoted

lemma exists_byState_iff {p : String → Prop} {f : String → ClusterReceipt → SickCluster} {s} :
    (∃ m ∈ (count py receipts).byState, p m.1 ∧ s ∈ m.2.map (f m.1)) ↔
      ∃ receipt ∈ receipts.filterMap (vote py), p receipt.stateRoot ∧
        s = f receipt.stateRoot receipt := by
  constructor
  · rintro ⟨m, hm, hp, hs⟩
    rw [(mem_byState.1 hm).1] at hs
    obtain ⟨receipt, hreceipt, rfl⟩ := mem_map.1 hs
    obtain ⟨hreceipt, hroot⟩ := mem_filter.1 hreceipt
    have hroot : receipt.stateRoot = m.1 := of_decide_eq_true hroot
    exact ⟨receipt, hreceipt, hroot ▸ hp, hroot ▸ rfl⟩
  · rintro ⟨receipt, hreceipt, hp, rfl⟩
    have hmem : receipt ∈ votes py receipts receipt.stateRoot := mem_filter.2 ⟨hreceipt, decide_eq_true rfl⟩
    exact ⟨(receipt.stateRoot, votes py receipts receipt.stateRoot),
      mem_byState.2 ⟨rfl, ne_nil_of_mem hmem⟩, hp, mem_map_of_mem hmem⟩

section
variable (py : Builtins) (receipts : List Value)

/-- What is assessed when a root wins. -/
structure Canonical (root : String)
    (a : TriadAssessment) : Prop where
  quorumOk : a.quorumOk = true
  stateRoot : a.canonicalStateRoot = some root
  commit : a.canonicalCommit = (votes py receipts root).head?.map (·.commit)
  healthy : a.healthyClusters = (votes py receipts root).map (·.cluster)
  sick : ∀ s, s ∈ a.sickClusters ↔ s ∈ rejected py receipts ∨
    ∃ receipt ∈ receipts.filterMap (vote py), receipt.stateRoot ≠ root ∧
      s = diverged receipt.stateRoot receipt

/-- What is assessed when no root wins. -/
structure Split (a : TriadAssessment) : Prop where
  quorumOk : a.quorumOk = false
  stateRoot : a.canonicalStateRoot = none
  commit : a.canonicalCommit = none
  healthy : a.healthyClusters = []
  sick : ∀ s, s ∈ a.sickClusters ↔ s ∈ rejected py receipts ∨
    ∃ receipt ∈ receipts.filterMap (vote py), s = unreconciled receipt.stateRoot receipt

end

theorem assessTriad_of_elected (h : Elected py receipts quorum root) :
    Canonical py receipts root (assessTriad py receipts quorum) := by
  rw [assessTriad, elected_iff.2 ⟨h, rfl⟩]
  refine ⟨rfl, rfl, rfl, rfl, fun s => ?_⟩
  have hsick := @exists_byState_iff py receipts (· ≠ root) diverged s
  rw [← hsick, mem_append, congrArg Count.sick count_eq, mem_flatMap]
  simp [and_assoc]

theorem assessTriad_of_split (h : ∀ root, ¬Elected py receipts quorum root) :
    Split py receipts (assessTriad py receipts quorum) := by
  have hnone : (largest List.length (count py receipts).byState).filter
      (fun m => quorum ≤ m.2.length) = none :=
    Option.eq_none_iff_forall_ne_some.2 fun m hm => h m.1 (elected_iff.1 hm).1
  rw [assessTriad, hnone]
  refine ⟨rfl, rfl, rfl, rfl, fun s => ?_⟩
  have hsick := @exists_byState_iff py receipts (fun _ => True) unreconciled s
  simp only [true_and] at hsick
  rw [← hsick, mem_append, congrArg Count.sick count_eq, mem_flatMap]
  simp

lemma assessTriad_cases (py : Builtins) (receipts : List Value) (quorum : ℤ) :
    (∃ root, Elected py receipts quorum root ∧ Canonical py receipts root (assessTriad py receipts quorum)) ∨
    (∀ root, ¬Elected py receipts quorum root) ∧ Split py receipts (assessTriad py receipts quorum) := by
  by_cases h : ∃ root, Elected py receipts quorum root
  · obtain ⟨root, helected⟩ := h
    exact .inl ⟨root, helected, assessTriad_of_elected helected⟩
  · have hnone := not_exists.1 h
    exact .inr ⟨hnone, assessTriad_of_split hnone⟩

lemma quorumOk_iff : (assessTriad py receipts quorum).quorumOk = true ↔
    ∃ root, Elected py receipts quorum root := by
  obtain ⟨root, helected, hcanonical⟩ | ⟨hnone, hsplit⟩ := assessTriad_cases py receipts quorum
  · exact iff_of_true hcanonical.quorumOk ⟨root, helected⟩
  · rw [hsplit.quorumOk]
    exact iff_of_false Bool.false_ne_true fun ⟨root, helected⟩ => hnone root helected

lemma rawCluster_of_ok {raw receipt}
    (h : lintReceipt py raw = .ok receipt) : rawCluster raw = some (.str receipt.cluster) := by
  obtain ⟨d, hd, hreads⟩ := lintReceipt_ok_iff.1 h
  have htruthy : (Value.str receipt.cluster).truthy = true := by
    refine decide_eq_true fun hempty => ?_
    have hbegin := cluster_begins h
    rw [hempty] at hbegin
    exact absurd (prefix_nil.1 hbegin) (by decide)
  rw [rawCluster, hd, Option.bind_some, hreads.cluster.1, Option.filter_some, if_pos htruthy]

lemma vote_eq_some {raw receipt} :
    vote py raw = some receipt ↔ lintReceipt py raw = .ok receipt ∧ receipt.koeId = none := by
  unfold vote
  cases lintReceipt py raw with
  | error errors => simp
  | ok receipt' =>
    rw [Option.ite_none_right_eq_some, Option.some.injEq, Except.ok.injEq]
    constructor
    · rintro ⟨hkoe, rfl⟩
      exact ⟨rfl, hkoe⟩
    · rintro ⟨rfl, hkoe⟩
      exact ⟨hkoe, rfl⟩

def nameAt (idx : ℕ) (raw : Value) : Value :=
  (rawCluster raw).getD (.str ("<receipt[" ++ toString idx ++ "]>"))

lemma name_of_ballot_sick {idx raw s} (h : ballot py idx raw = .sick s) : s.cluster = nameAt idx raw := by
  unfold nameAt
  unfold ballot at h
  split at h
  · cases h
    rfl
  · rename_i receipt hok
    split at h
    · cases h
      rw [rawCluster_of_ok hok]
      rfl
    · cases h

lemma mem_rejected {s} : s ∈ rejected py receipts ↔
    ∃ idx raw, receipts[idx]? = some raw ∧ ballot py idx raw = .sick s := by
  rw [rejected, mem_filterMap]
  constructor
  · rintro ⟨⟨raw, idx⟩, hmem, hballot⟩
    refine ⟨idx, raw, mem_zipIdx_iff_getElem?.1 hmem, ?_⟩
    split at hballot
    · rename_i hsick
      cases hballot
      exact hsick
    · cases hballot
  · rintro ⟨idx, raw, hget, hballot⟩
    refine ⟨(raw, idx), mem_zipIdx_iff_getElem?.2 hget, ?_⟩
    rw [hballot]

def headCommit (py : Builtins) (raw : Value) : Option String := (lintReceipt py raw).toOption.map (·.commit)

/-- The receipt is a vote for the canonical root. -/
def Backs (py : Builtins) (a : TriadAssessment) (raw : Value) : Prop :=
  ∃ receipt, vote py raw = some receipt ∧ a.canonicalStateRoot = some receipt.stateRoot

/-- The votes that are named sick are those for another root than the canonical one, if there is one. -/
lemma exists_mem_sick_iff (py : Builtins) (receipts : List Value) (quorum : ℤ) :
    let a := assessTriad py receipts quorum
    ∃ f : ClusterReceipt → SickCluster,
      (∀ receipt, (f receipt).cluster = .str receipt.cluster ∧ (f receipt).headCommit = some receipt.commit) ∧
      ∀ s, s ∈ a.sickClusters ↔ s ∈ rejected py receipts ∨
        ∃ receipt ∈ receipts.filterMap (vote py), a.canonicalStateRoot ≠ some receipt.stateRoot ∧
          s = f receipt := by
  intro a
  obtain ⟨root, -, hcanonical⟩ | ⟨-, hsplit⟩ := assessTriad_cases py receipts quorum
  · refine ⟨fun receipt => diverged receipt.stateRoot receipt, fun _ => ⟨rfl, rfl⟩, fun s => ?_⟩
    simp only [a, hcanonical.sick s, hcanonical.stateRoot, ne_eq, Option.some.injEq, eq_comm]
  · refine ⟨fun receipt => unreconciled receipt.stateRoot receipt, fun _ => ⟨rfl, rfl⟩, fun s => ?_⟩
    simp only [a, hsplit.sick s, hsplit.stateRoot, ne_eq, reduceCtorEq, not_false_eq_true, true_and]

variable {raw : Value}

lemma headCommit_of_ballot_sick {idx s}
    (h : ballot py idx raw = .sick s) : s.headCommit = headCommit py raw := by
  unfold ballot at h
  unfold headCommit
  split at h
  · rename_i hlint
    cases h
    rw [hlint]
    rfl
  · rename_i hlint
    split at h
    · cases h
      rw [hlint]
      rfl
    · cases h

variable {receipt : ClusterReceipt}

lemma nameAt_of_ok {idx} (h : lintReceipt py raw = .ok receipt) : nameAt idx raw = .str receipt.cluster := by
  rw [nameAt, rawCluster_of_ok h]
  rfl

lemma headCommit_of_ok (h : lintReceipt py raw = .ok receipt) : headCommit py raw = some receipt.commit := by
  rw [headCommit, h]
  rfl

variable {v : Value}

/-- Sick are the receipts that do not back the canonical root. -/
theorem exists_sick_iff {head} :
    let a := assessTriad py receipts quorum
    (∃ s ∈ a.sickClusters, s.cluster = v ∧ s.headCommit = head) ↔
      ∃ idx raw, receipts[idx]? = some raw ∧ ¬Backs py a raw ∧ nameAt idx raw = v ∧
        headCommit py raw = head := by
  intro a
  obtain ⟨f, hf, hsick⟩ := exists_mem_sick_iff py receipts quorum
  constructor
  · rintro ⟨s, hs, rfl, rfl⟩
    rcases (hsick s).1 hs with hs | ⟨receipt, hmem, hroot, rfl⟩
    · obtain ⟨idx, raw, hget, hballot⟩ := mem_rejected.1 hs
      refine ⟨idx, raw, hget, ?_, (name_of_ballot_sick hballot).symm,
        (headCommit_of_ballot_sick hballot).symm⟩
      rintro ⟨receipt, hvote, -⟩
      rw [ballot_eq_vote.2 hvote] at hballot
      cases hballot
    · obtain ⟨raw, hraw, hvote⟩ := mem_filterMap.1 hmem
      obtain ⟨idx, hget⟩ := mem_iff_getElem?.1 hraw
      have hlint := (vote_eq_some.1 hvote).1
      refine ⟨idx, raw, hget, ?_, (nameAt_of_ok hlint).trans (hf receipt).1.symm,
        (headCommit_of_ok hlint).trans (hf receipt).2.symm⟩
      rintro ⟨receipt', hvote', hroot'⟩
      rw [hvote] at hvote'
      exact hroot (Option.some.inj hvote' ▸ hroot')
  · rintro ⟨idx, raw, hget, hnot, rfl, rfl⟩
    cases hballot : ballot py idx raw with
    | sick s =>
      exact ⟨s, (hsick s).2 (.inl (mem_rejected.2 ⟨idx, raw, hget, hballot⟩)),
        name_of_ballot_sick hballot, headCommit_of_ballot_sick hballot⟩
    | vote receipt =>
      have hvote := ballot_eq_vote.1 hballot
      have hlint := (vote_eq_some.1 hvote).1
      have hmem : receipt ∈ receipts.filterMap (vote py) := mem_filterMap.2 ⟨raw, mem_of_getElem? hget, hvote⟩
      refine ⟨f receipt, (hsick _).2 (.inr ⟨receipt, hmem, fun hroot => ?_, rfl⟩), ?_, ?_⟩
      · exact hnot ⟨receipt, hvote, hroot⟩
      · exact (hf receipt).1.trans (nameAt_of_ok hlint).symm
      · exact (hf receipt).2.trans (headCommit_of_ok hlint).symm

lemma place_ne_cluster {raw receipt} (h : lintReceipt py raw = .ok receipt) (idx : ℕ) :
    "<receipt[" ++ toString idx ++ "]>" ≠ receipt.cluster := by
  intro he
  have hbegin := cluster_begins h
  rw [← he, String.toList_append, String.toList_append] at hbegin
  obtain ⟨rest, hrest⟩ := hbegin
  cases hrest

section
variable (py : Builtins) (receipts : List Value)

/-- The masters with a well-formed receipt for the root that is not quarantined. -/
def backers (root : String) : Finset String := ((votes py receipts root).map (·.cluster)).toFinset

/-- A quorum is one of distinct masters, none of them is sick as well, and no other root has as many. -/
def DistinctMasters (quorum : ℤ) : Prop :=
  let a := assessTriad py receipts quorum
  a.quorumOk = true → ∃ root, a.canonicalStateRoot = some root ∧
    quorum ≤ (backers py receipts root).card ∧
    (∀ c ∈ a.healthyClusters, ∀ s ∈ a.sickClusters, s.cluster ≠ .str c) ∧
    ∀ r, r ≠ root → (backers py receipts r).card < (backers py receipts root).card

/-- No two roots have most votes, where these reach the quorum. -/
def Untied (quorum : ℤ) : Prop :=
  ∀ root r, r ≠ root → votes py receipts root ≠ [] → quorum ≤ (votes py receipts root).length →
    (∀ r', (votes py receipts r').length ≤ (votes py receipts root).length) →
    (votes py receipts r).length < (votes py receipts root).length

end

variable {c : String}

lemma mem_backers : c ∈ backers py receipts root ↔
    ∃ receipt ∈ receipts.filterMap (vote py), receipt.stateRoot = root ∧ receipt.cluster = c := by
  simp [backers, votes, and_assoc]

lemma lint_of_mem_backers (h : c ∈ backers py receipts root) :
    ∃ raw receipt, lintReceipt py raw = .ok receipt ∧ receipt.cluster = c := by
  obtain ⟨receipt, hreceipt, -, hcluster⟩ := mem_backers.1 h
  obtain ⟨raw, -, hvote⟩ := mem_filterMap.1 hreceipt
  exact ⟨raw, receipt, (vote_eq_some.1 hvote).1, hcluster⟩

/-- A master behind the canonical root is sick in no receipt exactly if all its receipts vote for the
root. -/
lemma healthy_iff (h : Canonical py receipts root (assessTriad py receipts quorum))
    (hc : c ∈ backers py receipts root) :
    (∀ s ∈ (assessTriad py receipts quorum).sickClusters, s.cluster ≠ .str c) ↔
      ∀ raw ∈ receipts, rawCluster raw = some (.str c) →
        ∃ receipt, vote py raw = some receipt ∧ receipt.stateRoot = root := by
  have hbacks {raw} : Backs py (assessTriad py receipts quorum) raw ↔
      ∃ receipt, vote py raw = some receipt ∧ receipt.stateRoot = root := by
    simp only [Backs, h.stateRoot, Option.some.injEq, eq_comm]
  constructor
  · intro hsick raw hraw hname
    obtain ⟨idx, hget⟩ := mem_iff_getElem?.1 hraw
    by_contra hnot
    obtain ⟨s, hs, he, -⟩ := exists_sick_iff.2 ⟨idx, raw, hget, mt hbacks.1 hnot, rfl, rfl⟩
    exact hsick s hs (by rw [he, nameAt, hname, Option.getD_some])
  · intro hvotes s hs he
    obtain ⟨idx, raw, hget, hnot, hname, -⟩ := exists_sick_iff.1 ⟨s, hs, he, rfl⟩
    refine hnot (hbacks.2 (hvotes raw (mem_of_getElem? hget) ?_))
    cases hraw : rawCluster raw with
    | none =>
      -- the place of a nameless receipt is not the name of a master
      rw [nameAt, hraw] at hname
      obtain ⟨raw', receipt, hlint, rfl⟩ := lint_of_mem_backers hc
      exact absurd (Value.str_inj hname) (place_ne_cluster hlint idx)
    | some v =>
      rw [nameAt, hraw] at hname
      exact congrArg some hname

lemma exists_elected (hvoted : votes py receipts root ≠ []) (hquorum : quorum ≤ (votes py receipts root).length) :
    ∃ root', Elected py receipts quorum root' := by
  have hmem : (root, votes py receipts root) ∈ (count py receipts).byState := mem_byState.2 ⟨rfl, hvoted⟩
  cases hlargest : largest List.length (count py receipts).byState with
  | none =>
    rw [largest, argmax_eq_none] at hlargest
    rw [← (perm_insertionSort (fun m m' => m.1 ≤ m'.1) _).mem_iff, hlargest] at hmem
    cases hmem
  | some m =>
    have hmost := ((largest_eq_some nodup_byState).1 hlargest).2 _ hmem
    have hm : quorum ≤ m.2.length := by
      dsimp only at hmost
      omega
    refine ⟨m.1, (elected_iff (l := m.2).1 ?_).1⟩
    rw [hlargest, Option.filter_some, if_pos (decide_eq_true hm)]

section
variable (h : (receipts.filterMap rawCluster).Nodup)
include h

lemma card_backers (root) : (backers py receipts root).card = (votes py receipts root).length := by
  have hvotes : (receipts.filterMap (vote py)).Pairwise (·.cluster ≠ ·.cluster) := by
    refine pairwise_filterMap.2 ((pairwise_filterMap.1 h).imp fun hne r hr r' hr' he => ?_)
    refine hne _ (rawCluster_of_ok (vote_eq_some.1 hr).1) _ (rawCluster_of_ok (vote_eq_some.1 hr').1) ?_
    rw [he]
  rw [backers, toFinset_card_of_nodup, length_map]
  exact pairwise_map.2 (hvotes.sublist filter_sublist)

lemma eq_of_rawCluster {raw raw' name} (hraw : raw ∈ receipts) (hraw' : raw' ∈ receipts)
    (hname : rawCluster raw = some name) (hname' : rawCluster raw' = some name) : raw = raw' := by
  by_contra hne
  have hsymm : Std.Symm fun a a' => ∀ b, rawCluster a = some b → ∀ b', rawCluster a' = some b' → b ≠ b' :=
    ⟨fun _ _ hab b hb b' hb' he => hab b' hb' b hb he.symm⟩
  exact (pairwise_filterMap.1 h).forall hraw hraw' hne name hname name hname' rfl

/-- Where no two receipts name one master, the receipts are the masters. -/
lemma distinctMasters_iff_of_nodup : DistinctMasters py receipts quorum ↔
    ∀ root, Elected py receipts quorum root →
      ∀ r, r ≠ root → (votes py receipts r).length < (votes py receipts root).length := by
  constructor
  · intro hdistinct root helected r hr
    have hcanonical := assessTriad_of_elected helected
    obtain ⟨root', hroot, -, -, hmost⟩ := hdistinct hcanonical.quorumOk
    cases hcanonical.stateRoot.symm.trans hroot
    simpa only [card_backers h] using hmost r hr
  · intro hmost hok
    obtain ⟨root, helected⟩ := quorumOk_iff.1 hok
    have hcanonical := assessTriad_of_elected helected
    refine ⟨root, hcanonical.stateRoot, ?_, fun m hm => ?_, fun r hr => ?_⟩
    · rw [card_backers h]
      exact helected.quorum
    · rw [hcanonical.healthy, ← mem_toFinset] at hm
      refine (healthy_iff hcanonical hm).2 fun raw hraw hname => ?_
      obtain ⟨receipt, hmem, hroot, rfl⟩ := mem_backers.1 hm
      obtain ⟨raw', hraw', hvote⟩ := mem_filterMap.1 hmem
      rw [eq_of_rawCluster h hraw hraw' hname (rawCluster_of_ok (vote_eq_some.1 hvote).1)]
      exact ⟨receipt, hvote, hroot⟩
    · rw [card_backers h, card_backers h]
      exact hmost root helected r hr

/-- Python `assess_triad`: where no two receipts name one master, a quorum is one of distinct masters exactly if
no two roots tie for most votes. -/
theorem distinct_masters_iff : DistinctMasters py receipts quorum ↔ Untied py receipts quorum := by
  rw [distinctMasters_iff_of_nodup h]
  constructor
  · intro hfair root r hr hvoted hquorum hmost
    obtain ⟨root', helected⟩ := exists_elected hvoted hquorum
    by_cases he : root = root'
    · exact he ▸ hfair root' helected r (he ▸ hr)
    · exact absurd (hfair root' helected root he) (hmost root').not_gt
  · intro huntied root helected r hr
    refine huntied root r hr helected.voted helected.quorum fun r' => ?_
    by_cases hvoted : votes py receipts r' = []
    · rw [hvoted]
      exact Nat.zero_le _
    · rcases helected.first r' hvoted with hlt | ⟨heq, -⟩
      · exact hlt.le
      · exact heq.le
end

def asciiText : Builtins where
  repr v := .ofList v.json.print
  str v := v.asStr.getD (.ofList v.json.print)
  decimal := Char.isDigit
  str_str _ := rfl
  decimal_digit _ h := h

def soundReceipt (cluster : String) (root : Char) (commit : String) : Value :=
  .dict (.ofList [
    ("cluster", .str cluster),
    ("receipt_id", .str "urn:lz:rie:000001"),
    ("issued_at", .str "2026-01-01T00:00:00Z"),
    ("state_root", .str (.ofList ("sha256:".toList ++ List.replicate 64 root))),
    ("commit", .str commit),
    ("writer_principal", .str "did:key:writer"),
    ("replica_principal", .str "did:key:replica"),
    ("quorum_sigs", .list [.str (.ofList ("bls:".toList ++ List.replicate 96 '0'))])])

/-- Two masters for one root and one for another. -/
theorem distinct_masters_iff_three :
    let receipts := [soundReceipt "did:key:a" '0' "0000000", soundReceipt "did:key:b" '1' "1111111",
      soundReceipt "did:key:c" '0' "0000000"]
    DistinctMasters asciiText receipts 2 ↔ Untied asciiText receipts 2 :=
  distinct_masters_iff (by decide)

/-- One master makes a quorum of two with the same receipt twice. -/
theorem not_distinct_masters_repeated :
    let receipts := List.replicate 2 (soundReceipt "did:key:a" '0' "0000000")
    (assessTriad asciiText receipts 2).quorumOk = true ∧ ¬DistinctMasters asciiText receipts 2 := by
  intro receipts
  have hok : (assessTriad asciiText receipts 2).quorumOk = true := by decide +kernel
  have hone : ∀ root ∈ (assessTriad asciiText receipts 2).canonicalStateRoot,
      (backers asciiText receipts root).card = 1 := by decide +kernel
  refine ⟨hok, fun hdistinct => ?_⟩
  obtain ⟨root, hroot, henough, -⟩ := hdistinct hok
  rw [hone root hroot] at henough
  exact absurd henough (by decide)

end SocioWorkspace.Triad
