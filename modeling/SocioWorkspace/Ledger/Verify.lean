import SocioWorkspace.Lib.HashChain
import SocioWorkspace.Ledger.Decision

/-!
# The verified ledger

Model of `gbrg/governance/ledger.py`: a ledger file is the list of the JSON objects on its lines, and
`verify_ledger` walks it, recomputing every seal and following the `prev_hash` chain through the
records that have one. Decisions carry a receipt and are not part of the chain.

`verifyLoop_passes_iff` is the induction over the lines, and `verifyLedger_passes_iff` and
`verifyHead_passes_iff` give the meaning of a pass: every record is `Verified` after the one before it.
-/

namespace SocioWorkspace.Ledger
open HashChain List Value Option String

/-- Why verification failed, with the data that the text of the reason shows. -/
inductive Reason where
  | brokenChainLink (index : Nat) (prevHash : Value) (expected : String)
  | badEventHash (index : Nat) (recomputed : String) (stored : Value)
  | undecodableDecision (index : Nat) (key : String)
  | badDecisionReceipt (index : Nat) (recomputed : String) (stored : Value)
  | unknownRecordType (index : Nat)
  | headAnchorMismatch (head : Option String) (expected : String)

/-- Python `VerifyResult`. -/
structure VerifyResult where
  ok : Bool
  records : Nat
  head : Option String
  brokenIndex : Option Nat
  reason : Option Reason

def VerifyResult.passed (records : Nat) (head : Option String) : VerifyResult :=
  ⟨true, records, head, none, none⟩

def VerifyResult.broken (records index : Nat) (reason : Reason) : VerifyResult :=
  ⟨false, records, none, some index, some reason⟩

section
variable (hexdigest : List Char → String)

/-- Python `GENESIS`. -/
def GENESIS : String := "sha256:" ++ hexdigest "gbrg-mcp-ledger-genesis".toList

/-- The hash of a chained event over everything but the hash (Python `_recompute_event_hash`). -/
def recomputeEventHash (record : Dict) : String := sha hexdigest (.dict (record.erase "hash"))

/-- The loop of `verify_ledger` from index `i` on. -/
def verifyLoop (total : Nat) (i : Nat) (chainHead : String) (lastSeal : Option String) :
    List Dict → Except RecordError VerifyResult
  | [] => .ok (.passed total lastSeal)
  | record :: rest =>
    match record.get? "hash", record.get? "prev_hash" with
    | some hash, some prevHash =>
      let recomputed := recomputeEventHash hexdigest record
      if prevHash.isStr chainHead = false then
        .ok (.broken total i (.brokenChainLink i prevHash chainHead))
      else if hash.isStr recomputed = false then
        .ok (.broken total i (.badEventHash i recomputed hash))
      else verifyLoop total (i + 1) recomputed (some recomputed) rest
    | _, _ =>
      match record.get? "receipt" with
      | some receipt =>
        match recomputeReceipt hexdigest record with
        | .error (.keyError key) => .ok (.broken total i (.undecodableDecision i key))
        -- only `KeyError` and `TypeError` are caught
        | .error e => .error e
        | .ok recomputed =>
          if receipt.isStr recomputed = false then
            .ok (.broken total i (.badDecisionReceipt i recomputed receipt))
          else verifyLoop total (i + 1) chainHead (some recomputed) rest
      | none => .ok (.broken total i (.unknownRecordType i))

/-- Verify a whole ledger file (Python `verify_ledger`). -/
def verifyLedger (records : List Dict) : Except RecordError VerifyResult :=
  verifyLoop hexdigest records.length 0 (GENESIS hexdigest) none records

/-- Verify a ledger file against a head pinned elsewhere (Python `verify_head`). -/
def verifyHead (records : List Dict) (expectedHead : String) : Except RecordError VerifyResult := do
  let result ← verifyLedger hexdigest records
  if result.ok = false then return result
  if result.head ≠ some expectedHead then
    return ⟨false, result.records, none, none, some (.headAnchorMismatch result.head expectedHead)⟩
  return result

inductive LedgerError where
  | ledgerTamperError (brokenIndex : Option Nat) (reason : Option Reason)
  | record (e : RecordError)

/-- All records of a file that verifies (Python `read_verified`, and `read_all` by default). -/
def readVerified (records : List Dict) : Except LedgerError (List Dict) :=
  match verifyLedger hexdigest records with
  | .error e => .error (.record e)
  | .ok result =>
    if result.ok = false then .error (.ledgerTamperError result.brokenIndex result.reason)
    else .ok records

def passes : Except RecordError VerifyResult → Bool
  | .ok result => result.ok
  | .error _ => false

/-- The record is a chained event (Python `"hash" in rec and "prev_hash" in rec`). -/
def chained (record : Dict) : Bool :=
  (record.get? "hash").isSome && (record.get? "prev_hash").isSome

def link : Link Dict (Option Value) where
  prev record := record.get? "prev_hash"
  hash record := record.get? "hash"
  Intact record := record.get? "hash" = some (.str (recomputeEventHash hexdigest record))

/-- The record carries the receipt of its decision core. -/
def SealedDecision (record : Dict) : Prop :=
  ∃ s, recomputeReceipt hexdigest record = .ok s ∧ record.get? "receipt" = some (.str s)

/-- The chained events form a chain from `g`, the other records are sealed decisions. -/
def Verified (g : String) (records : List Dict) : Prop :=
  Chain (link hexdigest) (some (.str g)) (records.filter chained) ∧
    ∀ record ∈ records, chained record = false → SealedDecision hexdigest record

def sealOf (record : Dict) : Option Value :=
  if chained record then record.get? "hash" else record.get? "receipt"

variable {hexdigest}

lemma verified_cons_chained {g record records} (h : chained record = true) :
    Verified hexdigest g (record :: records) ↔
      record.get? "prev_hash" = some (.str g) ∧ (link hexdigest).Intact record ∧
        Verified hexdigest (recomputeEventHash hexdigest record) records := by
  unfold Verified
  rw [filter_cons_of_pos h]
  refine ⟨?_, ?_⟩
  · intro ⟨⟨hp, hi, hc⟩, hd⟩
    have hi' : (link hexdigest).hash record = _ := hi
    rw [hi'] at hc
    exact ⟨hp, hi, hc, fun r hr => hd r (mem_cons_of_mem _ hr)⟩
  · intro ⟨hp, hi, hc, hd⟩
    have hi' : (link hexdigest).hash record = _ := hi
    refine ⟨⟨hp, hi, hi'.symm ▸ hc⟩, fun r hr hn => ?_⟩
    cases mem_cons.mp hr with
    | inl e => rw [e, h] at hn; cases hn
    | inr hr => exact hd r hr hn

lemma verified_cons_decision {g record records} (h : chained record = false) :
    Verified hexdigest g (record :: records) ↔
      SealedDecision hexdigest record ∧ Verified hexdigest g records := by
  unfold Verified
  rw [filter_cons_of_neg (by rw [h]; exact Bool.false_ne_true)]
  refine ⟨?_, ?_⟩
  · intro ⟨hc, hd⟩
    exact ⟨hd _ (mem_cons_self ..) h, hc, fun r hr => hd r (mem_cons_of_mem _ hr)⟩
  · intro ⟨hs, hc, hd⟩
    refine ⟨hc, fun r hr hn => ?_⟩
    cases mem_cons.mp hr with
    | inl e => exact e ▸ hs
    | inr hr => exact hd r hr hn

lemma chained_iff {record} : chained record = true ↔
    ∃ hash prevHash, record.get? "hash" = some hash ∧ record.get? "prev_hash" = some prevHash := by
  simp [chained, isSome_iff_exists]

lemma verifyLoop_chained {total i g last record records hash prevHash}
    (hh : record.get? "hash" = some hash) (hp : record.get? "prev_hash" = some prevHash) :
    passes (verifyLoop hexdigest total i g last (record :: records)) = true ↔
      prevHash = .str g ∧ hash = .str (recomputeEventHash hexdigest record) ∧
        passes (verifyLoop hexdigest total (i + 1) (recomputeEventHash hexdigest record)
          (some (recomputeEventHash hexdigest record)) records) = true := by
  rw [verifyLoop, hh, hp, ← isStr_iff, ← isStr_iff]
  simp only
  cases prevHash.isStr g with
  | false => simp [passes, VerifyResult.broken]
  | true =>
    cases hash.isStr (recomputeEventHash hexdigest record) with
    | false => simp [passes, VerifyResult.broken]
    | true => simp

lemma verifyLoop_decision {total i g last record records} (h : chained record = false) :
    passes (verifyLoop hexdigest total i g last (record :: records)) = true ↔
      ∃ s, recomputeReceipt hexdigest record = .ok s ∧ record.get? "receipt" = some (.str s) ∧
        passes (verifyLoop hexdigest total (i + 1) g (some s) records) = true := by
  have hno : ∀ hash prevHash, record.get? "hash" = some hash →
      record.get? "prev_hash" = some prevHash → False := by
    intro hash prevHash hh hp
    rw [chained_iff.mpr ⟨_, _, hh, hp⟩] at h
    cases h
  rw [verifyLoop]
  split
  · rename_i hh hp
    exact (hno _ _ hh hp).elim
  · cases hr : record.get? "receipt" with
    | none => simp [passes, VerifyResult.broken]
    | some receipt =>
      cases hc : recomputeReceipt hexdigest record with
      | error e =>
        cases e with
        | keyError key => simp [passes, VerifyResult.broken]
        | attributeError v => simp [passes]
      | ok s =>
        simp only [some.injEq, ← isStr_iff, Except.ok.injEq, exists_eq_left']
        cases receipt.isStr s with
        | false => simp [passes, VerifyResult.broken]
        | true => simp

lemma verified_nil (g) : Verified hexdigest g [] := ⟨trivial, fun _ h => nomatch h⟩

lemma verifyLoop_passes_iff {total i g last records} :
    passes (verifyLoop hexdigest total i g last records) = true ↔
      Verified hexdigest g records := by
  induction records generalizing i g last with
  | nil => exact iff_of_true rfl (verified_nil _)
  | cons record records ih =>
    cases h : chained record with
    | true =>
      obtain ⟨hash, prevHash, hh, hp⟩ := chained_iff.mp h
      rw [verifyLoop_chained hh hp, verified_cons_chained h, ih, hp, some.injEq]
      show _ ↔ _ ∧ record.get? "hash" = some _ ∧ _
      rw [hh, some.injEq]
    | false =>
      rw [verifyLoop_decision h, verified_cons_decision h]
      refine ⟨?_, ?_⟩
      · intro ⟨s, hc, hr, hl⟩
        exact ⟨⟨s, hc, hr⟩, ih.mp hl⟩
      · intro ⟨⟨s, hc, hr⟩, hv⟩
        exact ⟨s, hc, hr, ih.mpr hv⟩

/-- Verification passes on chains of events with sealed decisions in between, and on nothing else. -/
theorem verifyLedger_passes_iff {records} : passes (verifyLedger hexdigest records) = true ↔
    Verified hexdigest (GENESIS hexdigest) records :=
  verifyLoop_passes_iff

lemma verifyLoop_eq (total i : Nat) {g} (last : Option String) {records}
    (h : Verified hexdigest g records) :
    ∃ head, verifyLoop hexdigest total i g last records = .ok (.passed total head) ∧
      head.map str = records.getLast?.elim (last.map str) sealOf := by
  induction records generalizing i g last with
  | nil => exact ⟨last, rfl, rfl⟩
  | cons record records ih =>
    -- the seal the loop goes on with is that of `record`, which the rest may replace
    have elim_cons : ∀ o : Option Value, o = sealOf record →
        records.getLast?.elim o sealOf =
          (record :: records).getLast?.elim (last.map .str) sealOf := by
      intro o e
      rw [getLast?_cons, e]
      cases records.getLast? <;> rfl
    cases hc : chained record with
    | true =>
      obtain ⟨hp, hi, hv⟩ := (verified_cons_chained hc).mp h
      have hi' : record.get? "hash" = some (.str (recomputeEventHash hexdigest record)) := hi
      obtain ⟨head, e, eh⟩ := ih (i + 1) (some (recomputeEventHash hexdigest record)) hv
      refine ⟨head, ?_, eh.trans (elim_cons _ ?_)⟩
      · rw [verifyLoop, hi', hp]
        simpa [isStr_iff.mpr] using e
      · rw [sealOf, if_pos hc, hi']
        rfl
    | false =>
      obtain ⟨⟨s, hs, hr⟩, hv⟩ := (verified_cons_decision hc).mp h
      obtain ⟨head, e, eh⟩ := ih (i + 1) (some s) hv
      refine ⟨head, ?_, eh.trans (elim_cons _ ?_)⟩
      · rw [verifyLoop]
        split
        · rename_i hh hp
          rw [chained_iff.mpr ⟨_, _, hh, hp⟩] at hc
          cases hc
        · rw [hr, hs]
          simpa [isStr_iff.mpr] using e
      · rw [sealOf, hc, hr]
        rfl

theorem verifyHead_passes_iff {records expectedHead} :
    passes (verifyHead hexdigest records expectedHead) = true ↔
      Verified hexdigest (GENESIS hexdigest) records ∧
        records.getLast?.bind sealOf = some (.str expectedHead) := by
  by_cases hv : Verified hexdigest (GENESIS hexdigest) records
  · obtain ⟨head, e, eh⟩ := verifyLoop_eq records.length 0 none hv
    have e' : verifyLedger hexdigest records = .ok (.passed records.length head) := e
    have eh' : records.getLast?.bind sealOf = head.map str := by
      rw [eh]
      cases records.getLast? <;> rfl
    have eq_iff : head.map str = some (.str expectedHead) ↔ head = some expectedHead := by
      cases head with
      | none => simp
      | some s =>
        rw [map_some, some.injEq, some.injEq]
        exact ⟨str_inj, congrArg str⟩
    rw [eh', eq_iff, and_iff_right hv]
    unfold verifyHead
    rw [e']
    by_cases hh : head = some expectedHead
    · simp [bind, Except.bind, pure, Except.pure, passes, VerifyResult.passed, hh]
    · simp [bind, Except.bind, pure, Except.pure, passes, VerifyResult.passed, hh]
  · refine iff_of_false ?_ (fun h => hv h.1)
    rw [← verifyLedger_passes_iff, Bool.not_eq_true] at hv
    unfold verifyHead
    cases hl : verifyLedger hexdigest records with
    | error e => simp [bind, Except.bind, passes]
    | ok result =>
      rw [hl] at hv
      have hok : result.ok = false := hv
      simp [bind, Except.bind, pure, Except.pure, passes, hok]

def chainHead (hexdigest : List Char → String) (records : List Dict) : Option Value :=
  tip (link hexdigest) (some (.str (GENESIS hexdigest))) (records.filter chained)

lemma verified_append {g records ss} : Verified hexdigest g (records ++ ss) ↔
    Chain (link hexdigest) (some (.str g)) ((records ++ ss).filter chained) ∧
      (∀ r ∈ records, chained r = false → SealedDecision hexdigest r) ∧
        ∀ r ∈ ss, chained r = false → SealedDecision hexdigest r := by
  unfold Verified
  rw [forall_mem_append]

lemma verified_snoc_chained {records event} (h : chained event = true) :
    Verified hexdigest (GENESIS hexdigest) (records ++ [event]) ↔
      Verified hexdigest (GENESIS hexdigest) records ∧
        event.get? "prev_hash" = chainHead hexdigest records ∧ (link hexdigest).Intact event := by
  rw [verified_append, filter_append, filter_cons_of_pos h, filter_nil, chain_snoc]
  refine ⟨?_, ?_⟩
  · intro ⟨⟨hc, hp, hi⟩, hd, _⟩
    exact ⟨⟨hc, hd⟩, hp, hi⟩
  · intro ⟨⟨hc, hd⟩, hp, hi⟩
    refine ⟨⟨hc, hp, hi⟩, hd, fun r hr hn => ?_⟩
    rw [mem_singleton.mp hr, h] at hn
    cases hn

lemma verified_snoc_decision {records decision} (h : chained decision = false) :
    Verified hexdigest (GENESIS hexdigest) (records ++ [decision]) ↔
      Verified hexdigest (GENESIS hexdigest) records ∧ SealedDecision hexdigest decision := by
  rw [verified_append, filter_append, filter_cons_of_neg (by simp [h]), filter_nil, append_nil]
  refine ⟨?_, ?_⟩
  · intro ⟨hc, hd, hs⟩
    exact ⟨⟨hc, hd⟩, hs _ (mem_singleton_self _) h⟩
  · intro ⟨⟨hc, hd⟩, hs⟩
    refine ⟨hc, hd, fun r hr _ => ?_⟩
    rw [mem_singleton.mp hr]
    exact hs

lemma readVerified_eq_ok {records rs} : readVerified hexdigest records = .ok rs ↔
    Verified hexdigest (GENESIS hexdigest) records ∧ rs = records := by
  rw [← verifyLedger_passes_iff]
  unfold readVerified
  cases verifyLedger hexdigest records with
  | error e => simp [passes]
  | ok result =>
    cases hok : result.ok <;> simp [passes, hok, eq_comm]

/-- The digest is injective on canonical JSON and never the genesis anchor. -/
structure IdealDigest (hexdigest : List Char → String) : Prop where
  injective : Function.Injective (sha hexdigest)
  fresh : ∀ v, sha hexdigest v ≠ GENESIS hexdigest

lemma link_binding (h : Function.Injective (sha hexdigest)) : Binding (link hexdigest) := by
  intro r s ir is e
  have hr : r.get? "hash" = some (.str (recomputeEventHash hexdigest r)) := ir
  have hs : s.get? "hash" = some (.str (recomputeEventHash hexdigest s)) := is
  have e' : r.get? "hash" = s.get? "hash" := e
  rw [hr, hs] at e'
  have ed := dict_inj (h (str_inj (some.inj e')))
  apply SortedMap.ext_get
  intro k
  by_cases hk : k = "hash"
  · rw [hk]
    exact e
  · have ek := congrArg (SortedMap.get? · k) ed
    simpa [hk] using ek

lemma link_fresh (h : IdealDigest hexdigest) : Fresh (link hexdigest) (some (.str (GENESIS hexdigest))) := by
  intro r ir e
  have hr : r.get? "hash" = some (.str (recomputeEventHash hexdigest r)) := ir
  have e' : r.get? "hash" = some (.str (GENESIS hexdigest)) := e
  rw [hr] at e'
  exact h.fresh _ (str_inj (some.inj e'))

lemma chainHead_cases {records} (h : Verified hexdigest (GENESIS hexdigest) records) :
    chainHead hexdigest records = some (.str (GENESIS hexdigest)) ∨
      ∃ event ∈ records, chained event = true ∧ (link hexdigest).Intact event ∧
        chainHead hexdigest records = event.get? "hash" := by
  have hc := h.1
  unfold chainHead
  have sub : ∀ r ∈ records.filter chained, r ∈ records ∧ chained r = true := fun r hr => mem_filter.mp hr
  generalize records.filter chained = es at hc sub
  cases es using List.reverseRecOn with
  | nil => exact .inl rfl
  | append_singleton es e =>
    obtain ⟨-, -, hi⟩ := chain_snoc.mp hc
    obtain ⟨hm, he⟩ := sub e (by simp)
    exact .inr ⟨e, hm, he, hi, tip_snoc⟩

/-- The receipt of a decision is never what the next chained event has to name. -/
lemma receipt_ne_chainHead (ideal : IdealDigest hexdigest) {records decision}
    (h : Verified hexdigest (GENESIS hexdigest) records) (hd : SealedDecision hexdigest decision) :
    decision.get? "receipt" ≠ chainHead hexdigest records := by
  obtain ⟨s, hs, hr⟩ := hd
  obtain ⟨d, c, -, hc, rfl⟩ := recomputeReceipt_eq_ok.mp hs
  rw [hr]
  intro e
  cases chainHead_cases h with
  | inl hg =>
    rw [hg] at e
    exact ideal.fresh _ (str_inj (some.inj e))
  | inr he =>
    obtain ⟨event, -, hch, hi, eh⟩ := he
    have hi' : event.get? "hash" = some (.str (recomputeEventHash hexdigest event)) := hi
    rw [eh, hi'] at e
    -- the two cores would be one, but only that of the event names a predecessor
    have ec := dict_inj (ideal.injective (str_inj (some.inj e)))
    obtain ⟨-, prev, -, hp⟩ := chained_iff.mp hch
    have hn := Decision.get?_core_prev hc
    rw [ec, SortedMap.get?_erase, if_neg (by decide), hp] at hn
    cases hn

lemma get?_toDict_hash (d : Decision) : d.toDict.get? "hash" = none :=
  Decision.get?_toDict_eq_none (by decide)

lemma chained_toDict (d : Decision) : chained d.toDict = false := by
  rw [chained, get?_toDict_hash]
  rfl

lemma get?_toDict_receipt (d : Decision) : d.toDict.get? "receipt" = some (.str d.receipt) :=
  Decision.get?_toDict_eq_some.mpr (.inr (.inr ⟨rfl, rfl⟩))

lemma sealedDecision_toDict {d d' : Decision} (h : d.sealed hexdigest = .ok d') :
    SealedDecision hexdigest d'.toDict :=
  ⟨_, recomputeReceipt_toDict h, get?_toDict_receipt d'⟩

lemma idealDigest_ofList : IdealDigest ofList := by
  refine ⟨?_, ?_⟩
  · intro a b h
    have h' := congrArg String.toList h
    simp only [sha, toList_append, toList_ofList, append_cancel_left_eq] at h'
    exact Value.ext (Json.print_injective h')
  · intro v h
    have h' := congrArg String.toList h
    simp only [sha, GENESIS, toList_append, toList_ofList, append_cancel_left_eq] at h'
    exact v.json.print_ne_cons (by decide) (by decide) h'
end

end SocioWorkspace.Ledger
