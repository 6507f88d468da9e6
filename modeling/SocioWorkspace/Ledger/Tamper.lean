import SocioWorkspace.Lib.Sha256
import SocioWorkspace.Ledger.Writers

/-!
# Tamper evidence of ledger files

What `verify_ledger` and `verify_head` of `gbrg/governance/ledger.py` rule out when the digest is
ideal, for files of chained events, of decisions, or of both.

`verifyLedger_rearranged_iff_isPrefix` is about events taken from a verified file, `verifyHead_pins_events`
about files that end in the same hash, and `altered_decision_eq_iff` about a decision with the same receipt.
-/

namespace SocioWorkspace.Ledger
open HashChain List String Option Value

section
variable {hexdigest : List Char → String}

lemma verified_events_iff {g records} (h : ∀ r ∈ records, chained r = true) :
    Verified hexdigest g records ↔ Chain (link hexdigest) (some (.str g)) records := by
  unfold Verified
  rw [filter_eq_self.mpr h]
  refine ⟨fun hv => hv.1, fun hc => ⟨hc, fun r hr hn => ?_⟩⟩
  rw [h r hr] at hn
  cases hn

/-- Deleting, reordering or duplicating events is detected unless an initial part remains. -/
theorem verifyLedger_rearranged_iff_isPrefix (ideal : IdealDigest hexdigest)
    {records rearranged : List Dict} (events : ∀ r ∈ records, chained r = true)
    (ok : passes (verifyLedger hexdigest records) = true) (taken : ∀ r ∈ rearranged, r ∈ records) :
    passes (verifyLedger hexdigest rearranged) = true ↔ rearranged <+: records := by
  rw [verifyLedger_passes_iff, verified_events_iff fun r hr => events r (taken r hr)]
  rw [verifyLedger_passes_iff, verified_events_iff events] at ok
  exact ok.iff_isPrefix (link_binding ideal.injective) (link_fresh ideal) taken

def firstAssessment : Dict :=
  artifactEvent String.ofList "SupplyChainRiskAssessment" "2026-01-01T00:00:00Z"
    (.str (GENESIS String.ofList)) .empty

def secondAssessment : Dict :=
  artifactEvent String.ofList "SupplyChainRiskAssessment" "2026-01-01T00:00:01Z"
    (.str (recomputeEventHash String.ofList firstAssessment)) .empty

lemma verified_twoAssessments : Verified ofList (GENESIS ofList) [firstAssessment, secondAssessment] := by
  have h1 : EventAfter ofList (.str (GENESIS ofList)) firstAssessment := artifactEvent_after
  have h2 : EventAfter ofList (.str (recomputeEventHash ofList firstAssessment))
      secondAssessment := artifactEvent_after
  refine (verified_cons_chained h1.chained).mpr ⟨h1.prev_hash, h1.intact, ?_⟩
  refine (verified_cons_chained h2.chained).mpr ⟨h2.prev_hash, h2.intact, ?_⟩
  exact verified_nil _

lemma chained_twoAssessments : ∀ r ∈ [firstAssessment, secondAssessment], chained r = true := by
  intro r hr
  cases mem_cons.mp hr with
  | inl e => exact e ▸ (artifactEvent_after).chained
  | inr hr => exact mem_singleton.mp hr ▸ (artifactEvent_after).chained

/-- The first assessment alone is an initial part and verifies. -/
theorem firstAssessment_alone_verifies : passes (verifyLedger String.ofList [firstAssessment]) = true :=
  (verifyLedger_rearranged_iff_isPrefix idealDigest_ofList chained_twoAssessments
    (verifyLedger_passes_iff.mpr verified_twoAssessments) (by simp)).mpr ⟨[secondAssessment], rfl⟩

def sealedCore (record : Dict) : Except RecordError Dict := do
  (← Decision.ofRecord record).core

lemma sealedDecision_core {record} (h : SealedDecision hexdigest record) :
    ∃ c, sealedCore record = .ok c ∧
      record.get? "receipt" = some (.str (sha hexdigest (.dict c))) := by
  obtain ⟨s, hs, hr⟩ := h
  obtain ⟨d, c, hd, hc, rfl⟩ := recomputeReceipt_eq_ok.mp hs
  exact ⟨c, bind_eq_ok.mpr ⟨d, hd, hc⟩, hr⟩

/-- A verified file ends with a sealed decision or with the chain head. -/
lemma verified_last {rs last} (h : Verified hexdigest (GENESIS hexdigest) (rs ++ [last])) :
    chained last = true ∧ sealOf last = chainHead hexdigest (rs ++ [last]) ∨
      chained last = false ∧ SealedDecision hexdigest last ∧ sealOf last = last.get? "receipt" := by
  cases hc : chained last with
  | true =>
    refine .inl ⟨rfl, ?_⟩
    unfold chainHead
    rw [sealOf, if_pos hc, filter_append, filter_cons_of_pos hc, filter_nil, tip_snoc]
    rfl
  | false =>
    refine .inr ⟨rfl, ((verified_snoc_decision hc).mp h).2, ?_⟩
    rw [sealOf, hc]
    rfl

/-- Two files with the same head end with a chained event after the same chained events, or with decisions
that agree on their sealed core. -/
theorem verifyHead_pins_events (ideal : IdealDigest hexdigest) {a b : List Dict} {head}
    (ha : passes (verifyHead hexdigest a head) = true)
    (hb : passes (verifyHead hexdigest b head) = true) :
    (∃ x ∈ a.getLast?, ∃ y ∈ b.getLast?, chained x = true ∧ chained y = true) ∧
        a.filter chained = b.filter chained ∨
      ∃ x ∈ a.getLast?, ∃ y ∈ b.getLast?, chained x = false ∧ chained y = false ∧
        ∃ c, sealedCore x = .ok c ∧ sealedCore y = .ok c := by
  obtain ⟨va, ea⟩ := verifyHead_passes_iff.mp ha
  obtain ⟨vb, eb⟩ := verifyHead_passes_iff.mp hb
  cases a using List.reverseRecOn with
  | nil => cases ea
  | append_singleton as x =>
    cases b using List.reverseRecOn with
    | nil => cases eb
    | append_singleton bs y =>
      rw [getLast?_concat] at ea eb
      have es : sealOf x = sealOf y := ea.trans eb.symm
      simp only [getLast?_concat, mem_some_iff, exists_eq_left']
      cases verified_last va with
      | inl hx =>
        cases verified_last vb with
        | inl hy =>
          refine .inl ⟨⟨hx.1, hy.1⟩, ?_⟩
          exact va.1.eq_of_tip (link_binding ideal.injective) (link_fresh ideal) vb.1
            (hx.2.symm.trans (es.trans hy.2))
        | inr hy =>
          have e := hy.2.2.symm.trans (es.symm.trans hx.2)
          exact absurd e (receipt_ne_chainHead ideal va hy.2.1)
      | inr hx =>
        cases verified_last vb with
        | inl hy =>
          have e := hx.2.2.symm.trans (es.trans hy.2)
          exact absurd e (receipt_ne_chainHead ideal vb hx.2.1)
        | inr hy =>
          obtain ⟨c, hc, rc⟩ := sealedDecision_core hx.2.1
          obtain ⟨c', hc', rc'⟩ := sealedDecision_core hy.2.1
          have e := hx.2.2.symm.trans (es.trans hy.2.2)
          rw [rc, rc'] at e
          obtain rfl := dict_inj (ideal.injective (str_inj (some.inj e)))
          exact .inr ⟨hx.1, hy.1, c, hc, hc'⟩

def plainText : PyText where
  str v := match v.json with
    | .str s => s
    | .null => "None"
    | j => .ofList j.print
  repr v := match v.json with
    | .str s => "'" ++ s ++ "'"
    | .null => "None"
    | j => .ofList j.print

def sampleClaim : Dict := .ofList [("epistemicLevel", .str "empirical")]

def deniedRequest (cellId : String) : InclusionRequest where
  proofArtifact := .ofList [("cell_id", .str cellId), ("proofId", .str "proof-1"),
    ("claim", .dict sampleClaim)]
  agentRef := "agent-registry://gbrg/scorer"
  proposal := ⟨.include, "normal", "blast_radius=0.300 at/above inclusion floor 0.2"⟩
  authorityVerdict := .deny
  authorityRaw := .ofList [("verdict", .str "deny"), ("reason_code", .str "agent_suspended"),
    ("receipt_hash", .str "sha256:00")]
  decidedAt := "2026-01-01T00:00:00Z"

lemma deniedRequest_decided (hexdigest) (cellId : String) :
    ∃ d, gateInclusion hexdigest plainText (deniedRequest cellId) = .ok d ∧
      d.authority = .dict (deniedRequest cellId).authorityRaw := by
  have h : (deniedRequest cellId).proofArtifact.get? "claim" = some (.dict sampleClaim) := by
    refine (SortedMap.get?_ofList_eq_some ?_).mpr (by simp)
    show ["cell_id", "proofId", "claim"].Nodup
    decide
  have hc : (claimOf (deniedRequest cellId).proofArtifact).asDict = some sampleClaim := by
    unfold claimOf
    rw [h]
    show (if (dict sampleClaim).truthy then _ else _ : Value).asDict = _
    rw [if_pos (by decide), asDict_dict]
  exact gateInclusion_total hexdigest plainText hc

/-- A file that ends with a sealed decision has its receipt as the head, whatever comes before it. -/
lemma verifyHead_decisions {hexdigest} {ds : List Decision}
    (h : ∀ d ∈ ds, ∃ d₀ : Decision, d₀.sealed hexdigest = .ok d) {d} (hd : ds.getLast? = some d) :
    passes (verifyHead hexdigest (ds.map Decision.toDict) d.receipt) = true := by
  refine verifyHead_passes_iff.mpr ⟨?_, ?_⟩
  · clear hd
    induction ds with
    | nil => exact verified_nil _
    | cons d ds ih =>
      obtain ⟨d₀, hd⟩ := h d (mem_cons_self ..)
      refine (verified_cons_decision (chained_toDict d)).mpr ⟨sealedDecision_toDict hd, ih ?_⟩
      exact fun d' hd' => h d' (mem_cons_of_mem _ hd')
  · rw [getLast?_map, hd, map_some, bind_some, sealOf, chained_toDict,
      if_neg Bool.false_ne_true, get?_toDict_receipt]

lemma removed_decision_verifies : ∃ a b head, passes (verifyHead String.ofList a head) = true ∧
    passes (verifyHead String.ofList b head) = true ∧ a ≠ b := by
  obtain ⟨d, hd, -⟩ := deniedRequest_decided ofList "cell-1"
  obtain ⟨d', hd', -⟩ := deniedRequest_decided ofList "cell-2"
  have h' := gateInclusion_eq_ok hd'
  refine ⟨[d, d'].map Decision.toDict, [d'].map Decision.toDict, d'.receipt,
    verifyHead_decisions ?_ rfl, verifyHead_decisions ?_ rfl, by simp⟩
  · intro e he
    cases mem_cons.mp he with
    | inl e => exact e ▸ gateInclusion_eq_ok hd
    | inr he => exact mem_singleton.mp he ▸ h'
  · exact fun e he => mem_singleton.mp he ▸ h'

/-- A pinned head does not rule out that an earlier decision was removed. -/
theorem verifyHead_misses_removed_decision : IdealDigest String.ofList ∧
    ∃ a b head, passes (verifyHead String.ofList a head) = true ∧
      passes (verifyHead String.ofList b head) = true ∧ a ≠ b :=
  ⟨idealDigest_ofList, removed_decision_verifies⟩

/-- Two different files with one head: what is the same in them. -/
theorem verifyHead_pins_events_removed : ∃ a b : List Dict, a ≠ b ∧
    ((∃ x ∈ a.getLast?, ∃ y ∈ b.getLast?, chained x = true ∧ chained y = true) ∧
        a.filter chained = b.filter chained ∨
      ∃ x ∈ a.getLast?, ∃ y ∈ b.getLast?, chained x = false ∧ chained y = false ∧
        ∃ c, sealedCore x = .ok c ∧ sealedCore y = .ok c) := by
  obtain ⟨a, b, head, ha, hb, hne⟩ := removed_decision_verifies
  exact ⟨a, b, hne, verifyHead_pins_events idealDigest_ofList ha hb⟩

lemma verified_singleton {record} : Verified hexdigest (GENESIS hexdigest) [record] ↔
    chained record = true ∧ record.get? "prev_hash" = some (.str (GENESIS hexdigest)) ∧
        (link hexdigest).Intact record ∨
      chained record = false ∧ SealedDecision hexdigest record := by
  cases hc : chained record with
  | true =>
    rw [verified_cons_chained hc]
    simp [verified_nil]
  | false =>
    rw [verified_cons_decision hc]
    simp [verified_nil]

/-- A record that keeps the receipt of a sealed decision and is accepted keeps its fields. -/
lemma get?_of_receipt (inj : Function.Injective (sha hexdigest)) {d₀ d : Decision}
    (sealed : d₀.sealed hexdigest = .ok d) {record}
    (receipt : record.get? "receipt" = some (.str d.receipt))
    (accepted : SealedDecision hexdigest record) {m} (hm : m ∈ d.fields) : record.get? m.1 = some m.2 := by
  obtain ⟨c, hc, rfl⟩ := Decision.sealed_eq_ok.mp sealed
  obtain ⟨s, hs, hr⟩ := accepted
  obtain ⟨d', c', hd', hc', rfl⟩ := recomputeReceipt_eq_ok.mp hs
  rw [receipt] at hr
  obtain rfl := dict_inj (inj (str_inj (some.inj hr)))
  have hm' := Decision.mem_fields_of_core hc hc' hm
  exact (Decision.ofRecord_eq_ok.mp hd').1 m hm'

/-- A record with the receipt of a decision is that decision exactly if it has no other fields and the same
authority record. -/
theorem altered_decision_eq_iff (inj : Function.Injective (sha hexdigest)) {py q d}
    (decided : gateInclusion hexdigest py q = .ok d) {altered : Dict}
    (receipt : altered.get? "receipt" = d.toDict.get? "receipt")
    (accepted : passes (verifyLedger hexdigest [altered]) = true) :
    altered = d.toDict ↔ (∀ k ∈ altered.keys, k ∈ Decision.keys) ∧
      altered.get? "authority" = d.toDict.get? "authority" := by
  obtain ⟨d₀, sealed⟩ := gateInclusion_eq_ok decided
  refine ⟨?_, ?_⟩
  · intro e
    refine ⟨fun k hk => ?_, by rw [e]⟩
    rw [e] at hk
    exact Decision.mem_keys_toDict hk
  · intro ⟨keys, authority⟩
    have absent : ∀ k, k ∉ Decision.keys → altered.get? k = none := by
      intro k hk
      by_contra hn
      obtain ⟨v, hv⟩ := ne_none_iff_exists'.mp hn
      exact hk (keys k (SortedMap.mem_keys_iff.mpr ⟨v, hv⟩))
    have unchained : chained altered = false := by
      rw [chained, absent "hash" (by decide)]
      rfl
    have hs : SealedDecision hexdigest altered := by
      cases verified_singleton.mp (verifyLedger_passes_iff.mp accepted) with
      | inl h => rw [unchained] at h; cases h.1
      | inr h => exact h.2
    apply SortedMap.ext_get
    intro k
    by_cases hk : k ∈ Decision.keys
    · obtain ⟨v, hv⟩ := Decision.exists_get?_toDict d hk
      rw [hv]
      rcases Decision.get?_toDict_eq_some.mp hv with hm | ⟨rfl, -⟩ | ⟨rfl, -⟩
      · exact get?_of_receipt inj sealed (receipt.trans (get?_toDict_receipt d)) hs hm
      · exact authority.trans hv
      · exact receipt.trans hv
    · rw [absent k hk, Decision.get?_toDict_eq_none hk]
/-- Of the authority record only the receipt hash is sealed. -/
lemma sealedDecision_authority {d₀ d : Decision} (sealed : d₀.sealed hexdigest = .ok d)
    {raw raw'} (hraw : d.authority = .dict raw) (hr : raw'.get? "receipt_hash" = raw.get? "receipt_hash") :
    SealedDecision hexdigest { d with authority := .dict raw' }.toDict := by
  obtain ⟨c, hc, rfl⟩ := Decision.sealed_eq_ok.mp sealed
  obtain ⟨raw₀, e₀, rfl⟩ := Decision.core_eq_ok.mp hc
  have e : raw₀ = raw := by
    have hraw' : d₀.authority = .dict raw := hraw
    rw [hraw', asDict_dict] at e₀
    exact (some.inj e₀).symm
  have sealed' : { d₀ with authority := .dict raw' }.sealed hexdigest = .ok _ :=
    Decision.sealed_eq_ok.mpr ⟨_, Decision.core_eq_ok.mpr ⟨raw', asDict_dict raw', rfl⟩, rfl⟩
  rw [hr, ← e] at sealed'
  exact sealedDecision_toDict sealed'

lemma passes_decision {d : Decision} (h : SealedDecision hexdigest d.toDict) :
    passes (verifyLedger hexdigest [d.toDict]) = true :=
  verifyLedger_passes_iff.mpr (verified_singleton.mpr (.inr ⟨chained_toDict d, h⟩))
end

/-- An authority record that allows what `deniedRequest` was denied, under the same receipt hash. -/
def forgedAuthority : Dict :=
  .ofList [("verdict", .str "allow"), ("reason_code", .str "ok"),
    ("receipt_hash", .str "sha256:00")]

lemma forgedAuthority_receipt (cellId) : forgedAuthority.get? "receipt_hash" =
    (deniedRequest cellId).authorityRaw.get? "receipt_hash" := by
  show forgedAuthority.get? "receipt_hash" = (deniedRequest "").authorityRaw.get? "receipt_hash"
  decide +kernel

lemma forgedAuthority_ne (cellId) : forgedAuthority ≠ (deniedRequest cellId).authorityRaw := by
  show forgedAuthority ≠ (deniedRequest "").authorityRaw
  decide +kernel

theorem altered_decision_eq_iff_denied :
    ∃ d, gateInclusion String.ofList plainText (deniedRequest "cell-1") = .ok d ∧
      ({ d with authority := .dict forgedAuthority }.toDict = d.toDict ↔
        (∀ k ∈ { d with authority := .dict forgedAuthority }.toDict.keys, k ∈ Decision.keys) ∧
          { d with authority := .dict forgedAuthority }.toDict.get? "authority" =
            d.toDict.get? "authority") := by
  obtain ⟨d, hd, ha⟩ := deniedRequest_decided ofList "cell-1"
  obtain ⟨d₀, sealed⟩ := gateInclusion_eq_ok hd
  refine ⟨d, hd, altered_decision_eq_iff idealDigest_ofList.injective hd ?_ ?_⟩
  · rw [get?_toDict_receipt, get?_toDict_receipt]
  · exact passes_decision (sealedDecision_authority sealed ha (forgedAuthority_receipt _))

/-- The authority record of a persisted denial can be replaced without being detected. -/
theorem altered_authority_accepted :
    ∃ d, gateInclusion sha256 plainText (deniedRequest "cell-1") = .ok d ∧
      ∃ altered : Dict, altered.get? "receipt" = d.toDict.get? "receipt" ∧
        passes (verifyLedger sha256 [altered]) = true ∧
        altered.get? "authority" ≠ d.toDict.get? "authority" := by
  obtain ⟨d, hd, ha⟩ := deniedRequest_decided sha256 "cell-1"
  obtain ⟨d₀, sealed⟩ := gateInclusion_eq_ok hd
  refine ⟨d, hd, { d with authority := .dict forgedAuthority }.toDict, ?_, ?_, ?_⟩
  · rw [get?_toDict_receipt, get?_toDict_receipt]
  · exact passes_decision (sealedDecision_authority sealed ha (forgedAuthority_receipt _))
  · have get?_authority : ∀ e : Decision, e.toDict.get? "authority" = some e.authority :=
      fun e => Decision.get?_toDict_eq_some.mpr (.inr (.inl ⟨rfl, rfl⟩))
    rw [get?_authority, get?_authority, ha]
    exact fun e => forgedAuthority_ne _ (dict_inj (some.inj e))

end SocioWorkspace.Ledger
