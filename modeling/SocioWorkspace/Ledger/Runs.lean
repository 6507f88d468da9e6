import SocioWorkspace.Lib.Run
import SocioWorkspace.Ledger.Tamper

/-!
# Runs of the ledger writers

The producers of ledger records, one call after another. A call that raises writes nothing. The writers take
the seal of the last record as the predecessor of a chained event, while `verify_ledger` follows the chained
events only. `_ledger_exists` of the verdict writers takes a path left out for an absent file.
-/

namespace SocioWorkspace.Ledger
open HashChain Run List

section
variable {hexdigest : List Char → String}

def EndsWithEvent (records : List Dict) : Prop := ∀ last ∈ records.getLast?, chained last = true

def PlainDecisions (records : List Dict) : Prop :=
  ∀ r ∈ records, chained r = false → r.get? "hash" = none

lemma PlainDecisions.snoc {records r} (h : PlainDecisions records)
    (hr : chained r = false → r.get? "hash" = none) : PlainDecisions (records ++ [r]) := by
  intro s hs
  cases mem_append.mp hs with
  | inl hs => exact h s hs
  | inr hs => exact mem_singleton.mp hs ▸ hr

/-- An event after the last seal continues a verified file exactly if that seal is an event's. -/
lemma verified_snoc_lastSeal (ideal : IdealDigest hexdigest) {records event}
    (h : Verified hexdigest (GENESIS hexdigest) records) (plain : PlainDecisions records)
    (he : EventAfter hexdigest (lastSealOrGenesis hexdigest records) event) :
    Verified hexdigest (GENESIS hexdigest) (records ++ [event]) ↔ EndsWithEvent records := by
  rw [verified_snoc_chained he.chained, he.prev_hash]
  refine ⟨fun hv last hl => ?_, fun hl => ⟨h, lastSeal_of_event h hl, he.intact⟩⟩
  by_contra hc
  rw [Bool.not_eq_true] at hc
  have hm : last ∈ records := mem_of_getLast? hl
  obtain ⟨s, hs, hr⟩ := h.2 last hm hc
  have e := hv.2.1
  rw [lastSeal_of_decision hl (plain last hm hc) hr, ← hr] at e
  exact receipt_ne_chainHead ideal h ⟨s, hs, hr⟩ e

inductive Write where
  | decision (q : InclusionRequest)
  | event (q : EmitRequest)
  | assessment (ts : String) (artifact : Dict)
  | verdict (ts : String) (artifact : Dict)

variable (hexdigest) (py : PyText) (path : Path)

def Write.call (disk : Disk) : Write → Except WriteError (Dict × Disk)
  | .decision q => gateInclusionPersist hexdigest py q (some path) true disk
  | .event q => emitEvent hexdigest q path disk
  | .assessment ts artifact => sealAndPersistScr hexdigest ts artifact (some path) true disk
  | .verdict ts artifact => sealAndPersistOmni hexdigest ts artifact (some path) true disk

def diskAfter (disk : Disk) : Except WriteError (Dict × Disk) → Disk
  | .ok (_, disk') => disk'
  | .error _ => disk

def Write.step (disk : Disk) (w : Write) : Disk := diskAfter disk (w.call hexdigest py path disk)

def fileVerifies (disk : Disk) : Prop := passes (verifyLedger hexdigest (readRaw disk (some path))) = true

/-- The call seals a chained event: only `emit_event` may fail before that, on its registry. -/
def Write.Chains : Write → Prop
  | .decision _ => False
  | .event q => ∃ target, toolTarget q.tool q.registry = .ok target
  | .assessment .. => True
  | .verdict .. => True

def Write.NoEventAfterDecision (disk : Disk) (w : Write) : Prop :=
  w.Chains → EndsWithEvent (readRaw disk (some path))

variable {hexdigest py path} {w : Write}

lemma Write.call_chains (py) {disk} (hw : w.Chains)
    (h : Verified hexdigest (GENESIS hexdigest) (readRaw disk (some path))) :
    ∃ event, w.call hexdigest py path disk = .ok (event, append disk event (some path)) ∧
      EventAfter hexdigest (lastSealOrGenesis hexdigest (readRaw disk (some path))) event := by
  cases w with
  | decision q => cases hw
  | event q =>
    obtain ⟨target, ht⟩ := hw
    obtain ⟨policy, hp⟩ : ∃ policy, policyHash hexdigest q.registry = .ok policy := by
      cases hq : q.registry with
      | none => rw [hq] at ht; cases ht
      | some doc => exact ⟨_, rfl⟩
    have hr : emitRead hexdigest q (readRaw disk (some path)) = .ok (policy, _) :=
      emitRead_eq_ok.mpr ⟨hp, h, rfl⟩
    obtain ⟨event, hs⟩ := exists_emitSeal_iff.mpr ⟨target, ht⟩
    exact ⟨event, emitEvent_eq_ok.mpr ⟨⟨_, hr, hs⟩, rfl⟩, emitSeal_after hs⟩
  | assessment ts artifact =>
    exact ⟨_, sealAndPersistScr_eq_ok.mpr ⟨h, rfl, rfl⟩, artifactEvent_after⟩
  | verdict ts artifact =>
    exact ⟨_, sealAndPersistVerdict_explicit.mpr ⟨h, rfl, rfl⟩, artifactEvent_after⟩

lemma Write.call_eq_ok {disk record disk'} (h : w.call hexdigest py path disk = .ok (record, disk')) :
    disk' = append disk record (some path) ∧
      (w.Chains ∧ Verified hexdigest (GENESIS hexdigest) (readRaw disk (some path)) ∧ chained record = true ∨
        ¬w.Chains ∧ ∃ d₀ d : Decision, d₀.sealed hexdigest = .ok d ∧ record = d.toDict) := by
  cases w with
  | decision q =>
    obtain ⟨d, hd, rfl, e⟩ := gateInclusionPersist_eq_ok.mp h
    obtain ⟨d₀, hs⟩ := gateInclusion_eq_ok hd
    exact ⟨e, .inr ⟨id, d₀, d, hs, rfl⟩⟩
  | event q =>
    obtain ⟨⟨read, hr, hs⟩, e⟩ := emitEvent_eq_ok.mp h
    exact ⟨e, .inl ⟨exists_emitSeal_iff.mp ⟨_, hs⟩, (emitRead_eq_ok.mp hr).2.1, (emitSeal_after hs).chained⟩⟩
  | assessment ts artifact =>
    obtain ⟨hv, rfl, e⟩ := sealAndPersistScr_eq_ok.mp h
    exact ⟨e, .inl ⟨trivial, hv, artifactEvent_after.chained⟩⟩
  | verdict ts artifact =>
    obtain ⟨hv, rfl, e⟩ := sealAndPersistVerdict_explicit.mp h
    exact ⟨e, .inl ⟨trivial, hv, artifactEvent_after.chained⟩⟩

lemma Write.step_plain {disk} (h : PlainDecisions (readRaw disk (some path))) :
    PlainDecisions (readRaw (w.step hexdigest py path disk) (some path)) := by
  unfold Write.step
  cases hc : w.call hexdigest py path disk with
  | error e => exact h
  | ok res =>
    obtain ⟨record, disk'⟩ := res
    obtain ⟨rfl, hr⟩ := Write.call_eq_ok hc
    show PlainDecisions (readRaw (append disk record (some path)) (some path))
    rw [readRaw_append]
    apply h.snoc
    intro hn
    cases hr with
    | inl hr => rw [hr.2.2] at hn; cases hn
    | inr hr =>
      obtain ⟨-, _, d, -, rfl⟩ := hr
      exact get?_toDict_hash d

lemma Write.step_verifies_iff (ideal : IdealDigest hexdigest) {disk}
    (plain : PlainDecisions (readRaw disk (some path))) (h : fileVerifies hexdigest path disk) :
    fileVerifies hexdigest path (w.step hexdigest py path disk) ↔
      w.NoEventAfterDecision path disk := by
  have hv := verifyLedger_passes_iff.mp h
  unfold fileVerifies Write.NoEventAfterDecision
  rw [verifyLedger_passes_iff]
  by_cases hw : w.Chains
  · obtain ⟨event, hc, he⟩ := Write.call_chains py hw hv
    have hs : readRaw (w.step hexdigest py path disk) (some path) =
        readRaw disk (some path) ++ [event] := by
      rw [Write.step, hc, diskAfter, readRaw_append]
    rw [hs, verified_snoc_lastSeal ideal hv plain he]
    exact ⟨fun h _ => h, fun h => h hw⟩
  · refine iff_of_true ?_ (fun h => absurd h hw)
    unfold Write.step
    cases hc : w.call hexdigest py path disk with
    | error e => exact hv
    | ok res =>
      obtain ⟨record, disk'⟩ := res
      obtain ⟨rfl, hr⟩ := Write.call_eq_ok hc
      rw [diskAfter, readRaw_append]
      cases hr with
      | inl hr => exact absurd hr.1 hw
      | inr hr =>
        obtain ⟨-, d₀, d, hd, rfl⟩ := hr
        exact (verified_snoc_decision (chained_toDict d)).mpr ⟨hv, sealedDecision_toDict hd⟩

/-- A file of all producers stays verified exactly without a chained event after a decision. -/
theorem mixedWrites_verified_iff (ideal : IdealDigest hexdigest) {disk : Disk}
    (empty : readRaw disk (some path) = []) (writes : List Write) :
    Always (Write.step hexdigest py path) (fileVerifies hexdigest path) disk writes ↔
      Along (Write.step hexdigest py path) (Write.NoEventAfterDecision path) disk writes := by
  refine always_iff_along (I := fun disk => PlainDecisions (readRaw disk (some path))) ?_ ?_ ?_ ?_
  · exact fun disk w => Write.step_plain
  · exact fun disk w plain h => Write.step_verifies_iff ideal plain h
  · rw [empty]
    exact fun _ h => absurd h not_mem_nil
  · unfold fileVerifies
    rw [empty]
    rfl

def noFiles : Disk := fun _ => none

/-- An assessment followed by a decision keeps the file verified. -/
theorem mixedWrites_assessment_decision :
    Always (Write.step String.ofList plainText "ledger.jsonl")
      (fileVerifies String.ofList "ledger.jsonl") noFiles
      [.assessment "2026-01-01T00:00:00Z" .empty, .decision (deniedRequest "cell-1")] :=
  (mixedWrites_verified_iff idealDigest_ofList rfl _).mpr
    ⟨fun _ _ h => absurd h (Option.not_mem_none _), fun h => False.elim h, trivial⟩

/-- An event right after the first decision breaks the file, unless its receipt is the anchor. -/
lemma event_after_decision {hexdigest py path q d w}
    (hd : gateInclusion hexdigest py q = .ok d) (hw : w.Chains) (ne : d.receipt ≠ GENESIS hexdigest) :
    ¬Always (Write.step hexdigest py path) (fileVerifies hexdigest path) noFiles
      [.decision q, w] := by
  intro ⟨_, h1, h2⟩
  have hs : readRaw (Write.step hexdigest py path noFiles (.decision q)) (some path) =
      [d.toDict] := by
    have hc : (Write.decision q).call hexdigest py path noFiles = .ok (d.toDict, _) :=
      gateInclusionPersist_eq_ok.mpr ⟨d, hd, rfl, rfl⟩
    rw [Write.step, hc, diskAfter, readRaw_append]
    rfl
  generalize Write.step hexdigest py path noFiles (.decision q) = disk at h1 h2 hs
  have hv := verifyLedger_passes_iff.mp h1
  obtain ⟨event, hc, he⟩ := Write.call_chains py hw hv
  have h2' : fileVerifies hexdigest path (w.step hexdigest py path disk) := h2
  unfold fileVerifies at h2'
  rw [Write.step, hc, diskAfter, readRaw_append, verifyLedger_passes_iff,
    verified_snoc_chained he.chained, he.prev_hash, hs] at h2'
  have e := h2'.2.1
  rw [lastSeal_of_decision rfl (get?_toDict_hash d) (get?_toDict_receipt d)] at e
  have hg : chainHead hexdigest [d.toDict] = some (.str (GENESIS hexdigest)) := by
    unfold chainHead
    rw [filter_cons_of_neg (by rw [chained_toDict]; exact Bool.false_ne_true)]
    rfl
  rw [hg] at e
  exact ne (Value.str_inj (Option.some.inj e))

def noiseRequest : InclusionRequest where
  proofArtifact := .ofList [("cell_id", .str "cell-1")]
  agentRef := "agent-registry://gbrg/scorer"
  proposal := ⟨.exclude, "n/a", "low blast_radius=0.100 below inclusion floor 0.2 — not review-worthy"⟩
  authorityVerdict := .allow
  authorityRaw := .ofList [("verdict", .str "allow")]
  decidedAt := "2026-01-01T00:00:00Z"

def sampleRegistry : Value :=
  .dict (.ofList [("servers", ⟨.arr [.obj [("tools", .arr [.obj [
    ("capability_digest", .str "sha256:11"), ("capability_ref", .str "capd://gbrg/mcp/graph_status"),
    ("name", .str "graph_status")]])]], by decide⟩)])

def sampleCall (eventId : String) : EmitRequest where
  eventType := "MCP_CALL"
  tool := "graph_status"
  payload := .empty
  allow := true
  reason := "authorize verdict=allow (ok)"
  registry := some sampleRegistry
  eventId := eventId
  ts := "2026-01-01T00:00:00Z"

lemma sampleCall_target (eventId) :
    ∃ target, toolTarget (sampleCall eventId).tool (sampleCall eventId).registry = .ok target := by
  have h : (toolTarget "graph_status" (some sampleRegistry)).isOk = true := by decide +kernel
  show ∃ target, toolTarget "graph_status" (some sampleRegistry) = .ok target
  cases ht : toolTarget "graph_status" (some sampleRegistry) with
  | error e => rw [ht] at h; cases h
  | ok target => exact ⟨target, rfl⟩

set_option maxRecDepth 100000 in
lemma noiseRequest_receipt : ∃ d, gateInclusion sha256 plainText noiseRequest = .ok d ∧
    d.receipt ≠ GENESIS sha256 := by
  have h : ((gateInclusion sha256 plainText noiseRequest).map Decision.receipt).toOption.any
      (· ≠ GENESIS sha256) = true := by decide +kernel
  cases hd : gateInclusion sha256 plainText noiseRequest with
  | error e => rw [hd] at h; cases h
  | ok d =>
    rw [hd] at h
    exact ⟨d, rfl, of_decide_eq_true h⟩

/-- An MCP call after a decision breaks the file. -/
theorem mixedWrites_decision_event_breaks :
    ¬Always (Write.step sha256 plainText "ledger.jsonl") (fileVerifies sha256 "ledger.jsonl")
      noFiles [.decision noiseRequest, .event (sampleCall "evt_1")] := by
  obtain ⟨d, hd, ne⟩ := noiseRequest_receipt
  exact event_after_decision hd (sampleCall_target "evt_1") ne

/-- A persisted call of `evaluate_tree` or `evaluate_binding`, by the verdict it seals. -/
inductive Verdict where
  | tree (ts : String) (artifact : Dict) (ledgerPath : Option Path)
  | binding (ts : String) (artifact : Dict) (ledgerPath : Option Path)

def Verdict.ledgerPath : Verdict → Option Path
  | .tree _ _ ledgerPath => ledgerPath
  | .binding _ _ ledgerPath => ledgerPath

variable (hexdigest)

def Verdict.call (disk : Disk) : Verdict → Except WriteError (Dict × Disk)
  | .tree ts artifact ledgerPath => sealAndPersistOmni hexdigest ts artifact ledgerPath true disk
  | .binding ts artifact ledgerPath =>
    sealAndPersistBinding hexdigest ts artifact ledgerPath true disk

def Verdict.step (disk : Disk) (v : Verdict) : Disk := diskAfter disk (v.call hexdigest disk)

def allVerify (disk : Disk) : Prop :=
  ∀ path, passes (verifyLedger hexdigest (readRaw disk (some path))) = true

def Verdict.DefaultEmpty (disk : Disk) (v : Verdict) : Prop := v.ledgerPath = none → readRaw disk none = []

def AllEvents (disk : Disk) : Prop := ∀ path, ∀ r ∈ readRaw disk (some path), chained r = true

variable {hexdigest}

/-- Both verdict writers are one function of the type of their events. -/
lemma Verdict.call_eq (hexdigest) (v : Verdict) : ∃ type ts artifact, ∀ disk, v.call hexdigest disk =
    sealAndPersistVerdict hexdigest type ts artifact v.ledgerPath true disk := by
  cases v with
  | tree ts artifact path | binding ts artifact path => exact ⟨_, ts, artifact, fun disk => rfl⟩

lemma readRaw_append_ne {disk record path path'} (h : path' ≠ resolvePath path) :
    readRaw (append disk record path) (some path') = readRaw disk (some path') := by
  have h' : resolvePath (some path') ≠ resolvePath path := h
  unfold append readRaw
  rw [Function.update_of_ne h']

variable {v : Verdict}

lemma Verdict.step_explicit (disk) {path} (hp : v.ledgerPath = some path) :
    ¬Verified hexdigest (GENESIS hexdigest) (readRaw disk (some path)) ∧ v.step hexdigest disk = disk ∨
      ∃ event, EventAfter hexdigest (lastSealOrGenesis hexdigest (readRaw disk (some path))) event ∧
        v.step hexdigest disk = append disk event (some path) := by
  obtain ⟨type, ts, artifact, hc⟩ := v.call_eq hexdigest
  unfold Verdict.step
  rw [hc, hp]
  by_cases hv : Verified hexdigest (GENESIS hexdigest) (readRaw disk (some path))
  · refine .inr ⟨artifactEvent hexdigest type ts _ artifact, artifactEvent_after, ?_⟩
    rw [sealAndPersistVerdict_explicit.mpr ⟨hv, rfl, rfl⟩]
    rfl
  · refine .inl ⟨hv, ?_⟩
    cases hs : sealAndPersistVerdict hexdigest type ts artifact (some path) true disk with
    | error e => rfl
    | ok res => exact absurd (sealAndPersistVerdict_explicit.mp hs).1 hv

/-- Without one, an event after the anchor is appended to the default ledger. -/
lemma Verdict.step_default (disk) (hp : v.ledgerPath = none) :
    ∃ event, EventAfter hexdigest (.str (GENESIS hexdigest)) event ∧
      v.step hexdigest disk = append disk event none := by
  obtain ⟨type, ts, artifact, hc⟩ := v.call_eq hexdigest
  refine ⟨artifactEvent hexdigest type ts _ artifact, artifactEvent_after, ?_⟩
  unfold Verdict.step
  rw [hc, hp]
  rfl

lemma AllEvents.append {disk event path} (h : AllEvents disk) (he : chained event = true) :
    AllEvents (append disk event path) := by
  intro path' r hr
  by_cases hp : path' = resolvePath path
  · have e : readRaw (Ledger.append disk event path) (some path') =
        readRaw disk path ++ [event] := by
      rw [hp]
      exact readRaw_append
    rw [e] at hr
    cases mem_append.mp hr with
    | inl hr => exact h (resolvePath path) r hr
    | inr hr => exact mem_singleton.mp hr ▸ he
  · rw [readRaw_append_ne hp] at hr
    exact h path' r hr

lemma Verdict.step_allEvents {disk} (h : AllEvents disk) : AllEvents (v.step hexdigest disk) := by
  cases hp : v.ledgerPath with
  | none =>
    obtain ⟨event, he, e⟩ := Verdict.step_default disk hp
    rw [e]
    exact h.append he.chained
  | some path =>
    cases Verdict.step_explicit disk hp with
    | inl hs => rw [hs.2]; exact h
    | inr hs =>
      obtain ⟨event, he, e⟩ := hs
      rw [e]
      exact h.append he.chained

lemma allVerify_append {disk event path} (h : allVerify hexdigest disk) :
    allVerify hexdigest (append disk event path) ↔
      Verified hexdigest (GENESIS hexdigest) (readRaw disk path ++ [event]) := by
  have e : readRaw (append disk event path) (some (resolvePath path)) =
      readRaw disk path ++ [event] := readRaw_append
  refine ⟨fun ha => ?_, fun hv path' => ?_⟩
  · have ha' := ha (resolvePath path)
    rw [e] at ha'
    exact verifyLedger_passes_iff.mp ha'
  · by_cases hp : path' = resolvePath path
    · rw [hp, e]
      exact verifyLedger_passes_iff.mpr hv
    · rw [readRaw_append_ne hp]
      exact h path'

lemma chainHead_eq_genesis (ideal : IdealDigest hexdigest) {records}
    (events : ∀ r ∈ records, chained r = true) (h : Verified hexdigest (GENESIS hexdigest) records) :
    some (.str (GENESIS hexdigest)) = chainHead hexdigest records ↔ records = [] := by
  refine ⟨fun e => ?_, fun e => by rw [e]; rfl⟩
  unfold chainHead at e
  rw [filter_eq_self.mpr events] at e
  rw [verified_events_iff events] at h
  have hnil : Chain (link hexdigest) (some (.str (GENESIS hexdigest))) [] := trivial
  exact h.eq_of_tip (link_binding ideal.injective) (link_fresh ideal) hnil e.symm

lemma Verdict.step_verify_iff (ideal : IdealDigest hexdigest) {disk}
    (events : AllEvents disk) (h : allVerify hexdigest disk) :
    allVerify hexdigest (v.step hexdigest disk) ↔ v.DefaultEmpty disk := by
  unfold Verdict.DefaultEmpty
  cases hp : v.ledgerPath with
  | none =>
    have hv : Verified hexdigest (GENESIS hexdigest) (readRaw disk none) :=
      verifyLedger_passes_iff.mp (h DEFAULT_LEDGER)
    have hev : ∀ r ∈ readRaw disk none, chained r = true := events DEFAULT_LEDGER
    obtain ⟨event, he, e⟩ := Verdict.step_default disk hp
    rw [e, allVerify_append h, verified_snoc_chained he.chained, he.prev_hash,
      chainHead_eq_genesis ideal hev hv]
    exact ⟨fun h _ => h.2.1, fun h => ⟨hv, h rfl, he.intact⟩⟩
  | some path =>
    refine iff_of_true ?_ (fun e => nomatch e)
    have hv := verifyLedger_passes_iff.mp (h path)
    cases Verdict.step_explicit disk hp with
    | inl hs => exact absurd hv hs.1
    | inr hs =>
      obtain ⟨event, he, e⟩ := hs
      rw [e, allVerify_append h, verified_snoc_chained he.chained, he.prev_hash]
      have hl : EndsWithEvent (readRaw disk (some path)) := fun last hl =>
        events path last (mem_of_getLast? hl)
      exact ⟨hv, lastSeal_of_event hv hl, he.intact⟩

/-- The ledgers stay verified exactly if the calls without a path find the default ledger empty. -/
theorem verdictRuns_verified_iff (ideal : IdealDigest hexdigest) {disk : Disk}
    (events : AllEvents disk) (verified : allVerify hexdigest disk) (calls : List Verdict) :
    Always (Verdict.step hexdigest) (allVerify hexdigest) disk calls ↔
      Along (Verdict.step hexdigest) Verdict.DefaultEmpty disk calls := by
  refine always_iff_along (I := AllEvents) ?_ ?_ events verified
  · exact fun disk v => Verdict.step_allEvents
  · exact fun disk v events h => Verdict.step_verify_iff ideal events h
end

lemma allEvents_noFiles : AllEvents noFiles := fun _ _ h => absurd h not_mem_nil

lemma allVerify_noFiles (hexdigest) : allVerify hexdigest noFiles := fun _ => rfl

/-- A first call without a path and a second one with a path of its own. -/
theorem verdictRuns_default_explicit :
    Always (Verdict.step String.ofList) (allVerify String.ofList) noFiles
      [.tree "2026-01-01T00:00:00Z" .empty none,
        .binding "2026-01-01T00:00:01Z" .empty (some "ledger.jsonl")] :=
  (verdictRuns_verified_iff idealDigest_ofList allEvents_noFiles
    (allVerify_noFiles String.ofList) _).mpr ⟨fun _ => rfl, (fun e => nomatch e), trivial⟩

set_option maxRecDepth 100000 in
/-- The second call on the default ledger breaks it. -/
theorem verdictRuns_default_twice_breaks :
    ¬Always (Verdict.step sha256) (allVerify sha256) noFiles
      [.tree "2026-01-01T00:00:00Z" .empty none, .tree "2026-01-01T00:00:01Z" .empty none] := by
  intro ⟨_, _, h⟩
  have hb : passes (verifyLedger sha256 (readRaw
    (Verdict.step sha256 (Verdict.step sha256 noFiles (.tree "2026-01-01T00:00:00Z" .empty none))
      (.tree "2026-01-01T00:00:01Z" .empty none)) (some DEFAULT_LEDGER))) = false := by
    decide +kernel
  have ht := h DEFAULT_LEDGER
  cases ht

end SocioWorkspace.Ledger
