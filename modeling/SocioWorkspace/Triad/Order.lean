import SocioWorkspace.Triad.Failback

/-!
# The order of the receipts

What `assess_triad` and `propose_state_failback` return for the same receipts in another order. Two things
depend on it: the canonical commit is that of the first vote, and a malformed receipt without a name goes by its
place.
-/

namespace SocioWorkspace.Triad
open List Option String

variable {py : Builtins} {receipts receipts' : List Value} {quorum : ℤ} {root : String}

variable {raw : Value} {receipt : ClusterReceipt} {v : Value}

lemma votes_perm (h : receipts'.Perm receipts) (root : String) :
    (votes py receipts' root).Perm (votes py receipts root) := (h.filterMap _).filter _

lemma Elected.perm (h : receipts'.Perm receipts) (helected : Elected py receipts quorum root) :
    Elected py receipts' quorum root := by
  have hlength {r} : (votes py receipts' r).length = (votes py receipts r).length :=
    (votes_perm h r).length_eq
  have hnil {r} : votes py receipts' r ≠ [] ↔ votes py receipts r ≠ [] := by
    rw [← length_pos_iff, ← length_pos_iff, hlength]
  refine ⟨hnil.2 helected.voted, ?_, fun r hr => ?_⟩
  · rw [hlength]
    exact helected.quorum
  · rw [hlength, hlength]
    exact helected.first r (hnil.1 hr)

lemma perm_cases (quorum : ℤ) (h : receipts'.Perm receipts) :
    (∃ root, Elected py receipts quorum root ∧
      Canonical py receipts root (assessTriad py receipts quorum) ∧
      Canonical py receipts' root (assessTriad py receipts' quorum)) ∨
    Split py receipts (assessTriad py receipts quorum) ∧
      Split py receipts' (assessTriad py receipts' quorum) := by
  obtain ⟨root, helected, hcanonical⟩ | ⟨hnone, hsplit⟩ := assessTriad_cases py receipts quorum
  · exact .inl ⟨root, helected, hcanonical, assessTriad_of_elected (helected.perm h)⟩
  · refine .inr ⟨hsplit, assessTriad_of_split fun root helected => ?_⟩
    exact hnone root (helected.perm h.symm)

lemma winner_perm (h : receipts'.Perm receipts) :
    (assessTriad py receipts' quorum).quorumOk = (assessTriad py receipts quorum).quorumOk ∧
      (assessTriad py receipts' quorum).canonicalStateRoot =
        (assessTriad py receipts quorum).canonicalStateRoot := by
  obtain ⟨root, -, hc, hc'⟩ | ⟨hs, hs'⟩ := perm_cases quorum h
  · exact ⟨hc'.quorumOk.trans hc.quorumOk.symm, hc'.stateRoot.trans hc.stateRoot.symm⟩
  · exact ⟨hs'.quorumOk.trans hs.quorumOk.symm, hs'.stateRoot.trans hs.stateRoot.symm⟩

lemma healthy_perm (h : receipts'.Perm receipts) (c : String) :
    c ∈ (assessTriad py receipts' quorum).healthyClusters ↔
      c ∈ (assessTriad py receipts quorum).healthyClusters := by
  obtain ⟨root, -, hc, hc'⟩ | ⟨hs, hs'⟩ := perm_cases quorum h
  · rw [hc.healthy, hc'.healthy]
    exact ((votes_perm h root).map _).mem_iff
  · rw [hs.healthy, hs'.healthy]

lemma backs_perm (h : receipts'.Perm receipts) :
    Backs py (assessTriad py receipts' quorum) raw ↔ Backs py (assessTriad py receipts quorum) raw := by
  rw [Backs, Backs, (winner_perm h).2]

lemma exists_head_iff {head} :
    (∃ s ∈ (assessTriad py receipts quorum).sickClusters, s.headCommit = some head) ↔
      ∃ raw ∈ receipts, ¬Backs py (assessTriad py receipts quorum) raw ∧
        headCommit py raw = some head := by
  constructor
  · rintro ⟨s, hs, hhead⟩
    obtain ⟨idx, raw, hget, hnot, -, hhead⟩ := exists_sick_iff.1 ⟨s, hs, rfl, hhead⟩
    exact ⟨raw, mem_of_getElem? hget, hnot, hhead⟩
  · rintro ⟨raw, hraw, hnot, hhead⟩
    obtain ⟨idx, hget⟩ := mem_iff_getElem?.1 hraw
    obtain ⟨s, hs, -, hhead⟩ := exists_sick_iff.2 ⟨idx, raw, hget, hnot, rfl, hhead⟩
    exact ⟨s, hs, hhead⟩

lemma exists_name_iff :
    (∃ s ∈ (assessTriad py receipts quorum).sickClusters, s.cluster = v) ↔
      ∃ idx raw, receipts[idx]? = some raw ∧ ¬Backs py (assessTriad py receipts quorum) raw ∧
        nameAt idx raw = v := by
  constructor
  · rintro ⟨s, hs, hname⟩
    obtain ⟨idx, raw, hget, hnot, hname, -⟩ := exists_sick_iff.1 ⟨s, hs, hname, rfl⟩
    exact ⟨idx, raw, hget, hnot, hname⟩
  · rintro ⟨idx, raw, hget, hnot, hname⟩
    obtain ⟨s, hs, hname, -⟩ := exists_sick_iff.2 ⟨idx, raw, hget, hnot, hname, rfl⟩
    exact ⟨s, hs, hname⟩

lemma not_backs_of_nameless {a} (h : rawCluster raw = none) : ¬Backs py a raw := by
  rintro ⟨receipt, hvote, -⟩
  rw [rawCluster_of_ok (vote_eq_some.1 hvote).1] at h
  cases h

lemma name_perm_of_named (h : receipts'.Perm receipts) (hnamed : ∀ raw ∈ receipts, rawCluster raw ≠ none) :
    (∃ s ∈ (assessTriad py receipts' quorum).sickClusters, s.cluster = v) →
      ∃ s ∈ (assessTriad py receipts quorum).sickClusters, s.cluster = v := by
  rw [exists_name_iff, exists_name_iff]
  rintro ⟨idx', raw, hget', hnot, hname⟩
  have hraw := h.mem_iff.1 (mem_of_getElem? hget')
  obtain ⟨idx, hget⟩ := mem_iff_getElem?.1 hraw
  obtain ⟨w, hw⟩ := ne_none_iff_exists'.1 (hnamed raw hraw)
  refine ⟨idx, raw, hget, (not_congr (backs_perm h)).1 hnot, ?_⟩
  rw [nameAt, hw] at hname ⊢
  exact hname

lemma name_perm_of_nameless (h : receipts'.Perm receipts)
    (hnameless : ∀ raw ∈ receipts, rawCluster raw = none) :
    (∃ s ∈ (assessTriad py receipts' quorum).sickClusters, s.cluster = v) →
      ∃ s ∈ (assessTriad py receipts quorum).sickClusters, s.cluster = v := by
  rw [exists_name_iff, exists_name_iff]
  rintro ⟨idx, raw', hget', -, hname⟩
  have hlt : idx < receipts.length := by
    rw [← h.length_eq]
    exact (List.getElem?_eq_some_iff.1 hget').1
  have hraw' := hnameless raw' (h.mem_iff.1 (mem_of_getElem? hget'))
  have hraw := hnameless _ (getElem_mem hlt)
  refine ⟨idx, receipts[idx], getElem?_eq_getElem hlt, not_backs_of_nameless hraw, ?_⟩
  rw [nameAt, hraw'] at hname
  rw [nameAt, hraw]
  exact hname

lemma place_injective : Function.Injective fun idx : ℕ =>
    Value.str ("<receipt[" ++ toString idx ++ "]>") := by
  intro i j h
  have htext := congrArg String.toList (Value.str_inj h)
  rw [toList_append, toList_append, toList_append, toList_append] at htext
  have hdigits := append_cancel_left (append_cancel_right htext)
  exact Python.toString_injective (toList_injective hdigits)

lemma exists_perm_getElem? {α : Type} [DecidableEq α] {l x} (hx : x ∈ l) {i}
    (hi : i < l.length) : ∃ l' : List α, l'.Perm l ∧ l'[i]? = some x := by
  refine ⟨(l.erase x).take i ++ x :: (l.erase x).drop i, ?_, ?_⟩
  · calc
      ((l.erase x).take i ++ x :: (l.erase x).drop i).Perm
          (x :: ((l.erase x).take i ++ (l.erase x).drop i)) := perm_middle
      _ = x :: l.erase x := by rw [take_append_drop]
      List.Perm _ l := (perm_cons_erase hx).symm
  · have hlength : ((l.erase x).take i).length = i := by
      rw [length_take, length_erase_of_mem hx]
      omega
    rw [getElem?_append_right hlength.le, hlength, Nat.sub_self]
    rfl

/-- Some place is not a name that a receipt gives, if one of them gives none. -/
lemma exists_free_place (h : ∃ raw ∈ receipts, rawCluster raw = none) :
    ∃ idx < receipts.length, ∀ raw ∈ receipts,
      rawCluster raw ≠ some (.str ("<receipt[" ++ toString idx ++ "]>")) := by
  have hcard : (receipts.filterMap rawCluster).toFinset.card <
      ((Finset.range receipts.length).image fun idx =>
        Value.str ("<receipt[" ++ toString idx ++ "]>")).card := by
    rw [Finset.card_image_of_injective _ place_injective, Finset.card_range]
    exact (toFinset_card_le _).trans_lt (length_filterMap_lt_length_iff_exists.2 (by simpa using h))
  obtain ⟨v, hv, hfree⟩ := Finset.exists_mem_notMem_of_card_lt_card hcard
  obtain ⟨idx, hidx, rfl⟩ := Finset.mem_image.1 hv
  refine ⟨idx, Finset.mem_range.1 hidx, fun raw hraw hname => hfree ?_⟩
  exact mem_toFinset.2 (mem_filterMap.2 ⟨raw, hraw, hname⟩)

structure SameOutcome (a a' : TriadAssessment) : Prop where
  quorumOk : a'.quorumOk = a.quorumOk
  stateRoot : a'.canonicalStateRoot = a.canonicalStateRoot
  commit : a'.canonicalCommit = a.canonicalCommit
  healthy : ∀ c, c ∈ a'.healthyClusters ↔ c ∈ a.healthyClusters
  sick : ∀ v, (∃ s ∈ a'.sickClusters, s.cluster = v) ↔ ∃ s ∈ a.sickClusters, s.cluster = v

def reverts (beacons : List Dict) : Set Value := {v | ∃ beacon ∈ beacons, revertOf beacon = some v}

section Independence
variable {repo kindClass base now : String}

lemma mem_reverts {v} :
    v ∈ reverts (proposeStateFailback py repo quorum kindClass base now receipts) ↔
      let a := assessTriad py receipts quorum
      a.quorumOk = true ∧ ∃ head, (∃ s ∈ a.sickClusters, s.headCommit = some head) ∧ head ≠ "" ∧
        a.canonicalCommit ≠ some head ∧ v = .str (a.canonicalCommit.getD "None" ++ ".." ++ head) := by
  constructor
  · rintro ⟨beacon, hbeacon, hrevert⟩
    obtain ⟨hok, s, hs, head, hhead, hempty, hother, rfl⟩ := mem_proposeStateFailback.1 hbeacon
    rw [revertOf_failbackBeacon] at hrevert
    exact ⟨hok, head, ⟨s, hs, hhead⟩, hempty, hother, (some.inj hrevert).symm⟩
  · rintro ⟨hok, head, ⟨s, hs, hhead⟩, hempty, hother, rfl⟩
    exact ⟨_, mem_proposeStateFailback.2 ⟨hok, s, hs, head, hhead, hempty, hother, rfl⟩,
      revertOf_failbackBeacon⟩

lemma reverts_perm (h : receipts'.Perm receipts)
    (hcommit : (assessTriad py receipts' quorum).canonicalCommit =
      (assessTriad py receipts quorum).canonicalCommit) :
    reverts (proposeStateFailback py repo quorum kindClass base now receipts') =
      reverts (proposeStateFailback py repo quorum kindClass base now receipts) := by
  ext v
  simp only [mem_reverts, (winner_perm h).1, hcommit, exists_head_iff, h.mem_iff, backs_perm h]

/-- If the votes of the winner agree on the commit, then it does not matter which comes first. -/
lemma commit_perm (h : receipts'.Perm receipts)
    (hagree : ∀ root, Elected py receipts quorum root → ∀ r ∈ votes py receipts root,
      ∀ r' ∈ votes py receipts root, r.commit = r'.commit) :
    (assessTriad py receipts' quorum).canonicalCommit =
      (assessTriad py receipts quorum).canonicalCommit := by
  obtain ⟨root, helected, hc, hc'⟩ | ⟨hs, hs'⟩ := perm_cases quorum h
  · rw [hc.commit, hc'.commit]
    obtain ⟨r, hr⟩ := isSome_iff_exists.1 (isSome_head?.2 helected.voted)
    obtain ⟨r', hr'⟩ := isSome_iff_exists.1 (isSome_head?.2 (helected.perm h).voted)
    rw [hr, hr']
    refine congrArg some (hagree root helected r' ?_ r (mem_of_mem_head? hr))
    exact (votes_perm h root).mem_iff.1 (mem_of_mem_head? hr')
  · rw [hs.commit, hs'.commit]

lemma exists_perm_commit (helected : Elected py receipts quorum root) {receipt}
    (h : receipt ∈ votes py receipts root) :
    ∃ receipts', receipts'.Perm receipts ∧
      (assessTriad py receipts' quorum).canonicalCommit = some receipt.commit := by
  obtain ⟨hmem, hroot⟩ := mem_filter.1 h
  obtain ⟨raw, hraw, hvote⟩ := mem_filterMap.1 hmem
  have hperm : (raw :: receipts.erase raw).Perm receipts := (perm_cons_erase hraw).symm
  refine ⟨raw :: receipts.erase raw, hperm, ?_⟩
  rw [(assessTriad_of_elected (helected.perm hperm)).commit, votes, filterMap_cons_some hvote,
    filter_cons, if_pos hroot]
  rfl

/-- A place is a sick name exactly if the receipt there is nameless, when no receipt has it as its name. -/
lemma place_iff {idx : ℕ} {raw} (hget : receipts[idx]? = some raw)
    (hfree : ∀ raw ∈ receipts, rawCluster raw ≠ some (.str ("<receipt[" ++ toString idx ++ "]>"))) :
    (∃ s ∈ (assessTriad py receipts quorum).sickClusters,
        s.cluster = .str ("<receipt[" ++ toString idx ++ "]>")) ↔ rawCluster raw = none := by
  rw [exists_name_iff]
  constructor
  · rintro ⟨idx', raw', hget', -, hname⟩
    cases hraw' : rawCluster raw' with
    | none =>
      rw [nameAt, hraw'] at hname
      cases place_injective hname
      cases hget.symm.trans hget'
      exact hraw'
    | some w =>
      rw [nameAt, hraw'] at hname
      exact absurd (hraw'.trans (congrArg some hname)) (hfree raw' (mem_of_getElem? hget'))
  · intro hnameless
    refine ⟨idx, raw, hget, not_backs_of_nameless hnameless, ?_⟩
    rw [nameAt, hnameless]
    rfl

lemma all_named_or_nameless
    (h : ∀ receipts', receipts'.Perm receipts → ∀ v,
      (∃ s ∈ (assessTriad py receipts' quorum).sickClusters, s.cluster = v) ↔
        ∃ s ∈ (assessTriad py receipts quorum).sickClusters, s.cluster = v) :
    (∀ raw ∈ receipts, rawCluster raw ≠ none) ∨ ∀ raw ∈ receipts, rawCluster raw = none := by
  by_contra hnot
  push Not at hnot
  obtain ⟨⟨nameless, hmem, hnameless⟩, named, hmem', hnamed⟩ := hnot
  obtain ⟨idx, hlt, hfree⟩ := exists_free_place ⟨nameless, hmem, hnameless⟩
  -- one order puts the nameless receipt at the free place, the other one the named receipt
  obtain ⟨l, hl, hget⟩ := exists_perm_getElem? hmem hlt
  obtain ⟨l', hl', hget'⟩ := exists_perm_getElem? hmem' hlt
  have hplace := @place_iff py l quorum idx nameless hget fun raw hraw =>
    hfree raw (hl.mem_iff.1 hraw)
  have hplace' := @place_iff py l' quorum idx named hget' fun raw hraw =>
    hfree raw (hl'.mem_iff.1 hraw)
  exact hnamed (hplace'.1 ((h l' hl' _).2 ((h l hl _).1 (hplace.2 hnameless))))

end Independence

/-- The failback does not depend on the order exactly if all or none of the receipts name a cluster, and the
votes of the winner agree on the commit. -/
theorem order_independent_iff (py : Builtins) (repo : String) (quorum : ℤ) (kindClass base now : String)
    (receipts : List Value) :
    (∀ receipts', receipts'.Perm receipts →
      SameOutcome (assessTriad py receipts quorum) (assessTriad py receipts' quorum) ∧
      reverts (proposeStateFailback py repo quorum kindClass base now receipts') =
        reverts (proposeStateFailback py repo quorum kindClass base now receipts)) ↔
      ((∀ raw ∈ receipts, rawCluster raw ≠ none) ∨ ∀ raw ∈ receipts, rawCluster raw = none) ∧
        ∀ root, Elected py receipts quorum root → ∀ r ∈ votes py receipts root,
          ∀ r' ∈ votes py receipts root, r.commit = r'.commit := by
  constructor
  · intro h
    refine ⟨all_named_or_nameless fun receipts' hperm => (h receipts' hperm).1.sick, ?_⟩
    intro root helected r hr r' hr'
    obtain ⟨l, hl, hcommit⟩ := exists_perm_commit helected hr
    obtain ⟨l', hl', hcommit'⟩ := exists_perm_commit helected hr'
    have hsame := (h l hl).1.commit.trans (h l' hl').1.commit.symm
    exact some.inj (hcommit.symm.trans (hsame.trans hcommit'))
  · rintro ⟨hnames, hagree⟩ receipts' hperm
    have hcommit := commit_perm hperm hagree
    refine ⟨⟨(winner_perm hperm).1, (winner_perm hperm).2, hcommit, healthy_perm hperm, fun v => ?_⟩,
      reverts_perm hperm hcommit⟩
    rcases hnames with hnamed | hnameless
    · refine ⟨name_perm_of_named hperm hnamed, name_perm_of_named hperm.symm fun raw hraw => ?_⟩
      exact hnamed raw (hperm.mem_iff.1 hraw)
    · refine ⟨name_perm_of_nameless hperm hnameless, name_perm_of_nameless hperm.symm fun raw hraw => ?_⟩
      exact hnameless raw (hperm.mem_iff.1 hraw)

/-- Two masters with one state and two commits: the first of them is the target. -/
theorem target_depends_on_order :
    let a := soundReceipt "did:key:a" '0' "0000000"
    let b := soundReceipt "did:key:b" '0' "1111111"
    [b, a].Perm [a, b] ∧
      ¬SameOutcome (assessTriad asciiText [a, b] 2) (assessTriad asciiText [b, a] 2) := by
  refine ⟨.swap .., fun h => ?_⟩
  exact absurd h.commit (by decide +kernel)

end SocioWorkspace.Triad
