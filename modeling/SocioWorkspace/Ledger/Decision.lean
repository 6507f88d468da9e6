import SocioWorkspace.Lib.Basic
import SocioWorkspace.Lib.Dict

/-!
# Governance decisions

Model of the sealed decision records of `gbrg/governance/gate.py`: the `Decision` dataclass with its `core`,
`seal` and `to_dict`, `recompute_receipt`, and `gate_inclusion` up to the record it appends. The fields are
whatever JSON value stands there, since Python does not check the annotations. `hashlib.sha256(…).hexdigest()`
is a parameter.
-/

namespace SocioWorkspace.Ledger
open SortedMap

section
variable (hexdigest : List Char → String)

/-- The tagged digest of a value's canonical text (Python `_sha`). -/
def sha (obj : Value) : String := "sha256:" ++ hexdigest obj.json.print
end

/-- Python's `str` and `repr` of a decoded value, as error texts and reasons show them. -/
structure PyText where
  str : Value → String
  repr : Value → String

inductive RecordError where
  | keyError (key : String)
  | attributeError (value : Value)

/-- Subscription (Python `record[key]`). -/
def subscript (record : Dict) (key : String) : Except RecordError Value :=
  match record.get? key with
  | some v => .ok v
  | none => .error (.keyError key)

/-- A context inclusion or exclusion decision (Python `Decision`). -/
structure Decision where
  recordType : Value
  schemaVersion : Value
  agentRef : Value
  action : Value
  cellId : Value
  epistemicLevel : Value
  proofId : Value
  verdict : Value
  included : Value
  reason : Value
  priority : Value
  contentVerdict : Value
  authorityVerdict : Value
  authorityReasonCode : Value
  decidedAt : Value
  authority : Value
  receipt : String

namespace Decision

def fields (d : Decision) : List (String × Value) :=
  [("recordType", d.recordType), ("schemaVersion", d.schemaVersion), ("agentRef", d.agentRef),
   ("action", d.action), ("cell_id", d.cellId), ("epistemicLevel", d.epistemicLevel),
   ("proof_id", d.proofId), ("verdict", d.verdict), ("included", d.included), ("reason", d.reason),
   ("priority", d.priority), ("content_verdict", d.contentVerdict),
   ("authority_verdict", d.authorityVerdict), ("authority_reason_code", d.authorityReasonCode),
   ("decided_at", d.decidedAt)]

/-- The part of the authority record that is sealed (Python `self.authority.get("receipt_hash")`). -/
def authorityReceipt (d : Decision) : Except RecordError Value :=
  match d.authority.asDict with
  | some raw => .ok ((raw.get? "receipt_hash").getD .null)
  | none => .error (.attributeError d.authority)

/-- What the receipt seals (Python `Decision.core`). -/
def core (d : Decision) : Except RecordError Dict := do
  let authorityReceipt ← d.authorityReceipt
  return .ofList (d.fields ++ [("authority_receipt", authorityReceipt)])

/-- The receipt over the core (Python `Decision.seal`). -/
def sealed (hexdigest : List Char → String) (d : Decision) : Except RecordError Decision := do
  return { d with receipt := sha hexdigest (.dict (← d.core)) }

/-- The record that is persisted (Python `asdict`). -/
def toDict (d : Decision) : Dict :=
  .ofList (d.fields ++ [("authority", d.authority), ("receipt", .str d.receipt)])

def fieldNames : List String :=
  ["recordType", "schemaVersion", "agentRef", "action", "cell_id", "epistemicLevel", "proof_id",
   "verdict", "included", "reason", "priority", "content_verdict", "authority_verdict",
   "authority_reason_code", "decided_at"]

def keys : List String := fieldNames ++ ["authority", "receipt"]

/-- The decision that a persisted record is read back as (first half of `recompute_receipt`). -/
def ofRecord (record : Dict) : Except RecordError Decision := do
  return {
    recordType := ← subscript record "recordType"
    schemaVersion := ← subscript record "schemaVersion"
    agentRef := ← subscript record "agentRef"
    action := ← subscript record "action"
    cellId := ← subscript record "cell_id"
    epistemicLevel := ← subscript record "epistemicLevel"
    proofId := ← subscript record "proof_id"
    verdict := ← subscript record "verdict"
    included := ← subscript record "included"
    reason := ← subscript record "reason"
    priority := ← subscript record "priority"
    contentVerdict := ← subscript record "content_verdict"
    authorityVerdict := ← subscript record "authority_verdict"
    authorityReasonCode := ← subscript record "authority_reason_code"
    decidedAt := ← subscript record "decided_at"
    authority := (record.get? "authority").getD (.dict .empty)
    receipt := "" }

end Decision

/-- The receipt of a persisted decision, from its content (Python `recompute_receipt`). -/
def recomputeReceipt (hexdigest : List Char → String) (record : Dict) :
    Except RecordError String := do
  return sha hexdigest (.dict (← (← Decision.ofRecord record).core))

lemma subscript_eq_ok {record k v} : subscript record k = .ok v ↔ record.get? k = some v := by
  unfold subscript
  cases record.get? k with
  | none => simp
  | some w => simp

namespace Decision

lemma map_fields (d : Decision) : d.fields.map Prod.fst = fieldNames := rfl

lemma nodup_core_keys (d : Decision) (v) :
    ((d.fields ++ [("authority_receipt", v)]).map Prod.fst).Nodup := by
  show (fieldNames ++ ["authority_receipt"]).Nodup
  decide

lemma nodup_keys (d : Decision) :
    ((d.fields ++ [("authority", d.authority), ("receipt", .str d.receipt)]).map
      Prod.fst).Nodup := by
  show keys.Nodup
  decide

variable {d : Decision}

lemma get?_toDict_eq_some {k v} : d.toDict.get? k = some v ↔
    (k, v) ∈ d.fields ∨ k = "authority" ∧ v = d.authority ∨ k = "receipt" ∧ v = .str d.receipt := by
  rw [toDict, get?_ofList_eq_some]
  · simp
  · exact d.nodup_keys

lemma get?_toDict_eq_none {k} (hk : k ∉ keys) : d.toDict.get? k = none := get?_ofList_eq_none hk

lemma mem_keys_toDict {k} (hk : k ∈ d.toDict.keys) : k ∈ keys := by
  by_contra hn
  obtain ⟨v, hv⟩ := mem_keys_iff.mp hk
  rw [get?_toDict_eq_none hn] at hv
  cases hv

lemma exists_get?_toDict (d : Decision) {k} (hk : k ∈ keys) : ∃ v, d.toDict.get? k = some v := by
  have hk' : k ∈ (d.fields ++ [("authority", d.authority), ("receipt", .str d.receipt)]).map
      Prod.fst := hk
  obtain ⟨m, hm, rfl⟩ := List.mem_map.mp hk'
  exact ⟨m.2, (get?_ofList_eq_some d.nodup_keys).mpr hm⟩

lemma ofRecord_eq_ok {record d} : ofRecord record = .ok d ↔
    (∀ m ∈ d.fields, record.get? m.1 = some m.2) ∧
      d.authority = (record.get? "authority").getD (.dict .empty) ∧ d.receipt = "" := by
  obtain ⟨⟩ := d
  simp only [ofRecord, bind_eq_ok, subscript_eq_ok, fields, List.forall_mem_cons]
  refine ⟨?_, ?_⟩
  · intro ⟨_, h1, _, h2, _, h3, _, h4, _, h5, _, h6, _, h7, _, h8, _, h9, _, h10, _, h11, _, h12,
      _, h13, _, h14, _, h15, e⟩
    cases e
    exact ⟨⟨h1, h2, h3, h4, h5, h6, h7, h8, h9, h10, h11, h12, h13, h14, h15, by simp⟩, rfl, rfl⟩
  · intro ⟨⟨h1, h2, h3, h4, h5, h6, h7, h8, h9, h10, h11, h12, h13, h14, h15, _⟩, ha, hr⟩
    subst ha hr
    exact ⟨_, h1, _, h2, _, h3, _, h4, _, h5, _, h6, _, h7, _, h8, _, h9, _, h10, _, h11, _, h12,
      _, h13, _, h14, _, h15, rfl⟩

lemma core_eq_ok {c} : d.core = .ok c ↔ ∃ raw, d.authority.asDict = some raw ∧
    c = .ofList (d.fields ++ [("authority_receipt", (raw.get? "receipt_hash").getD .null)]) := by
  unfold core authorityReceipt
  cases d.authority.asDict with
  | none => simp [bind, Except.bind]
  | some raw => simp [bind, Except.bind, pure, Except.pure, eq_comm]

lemma get?_core_prev {c} (h : d.core = .ok c) : c.get? "prev_hash" = none := by
  obtain ⟨raw, -, rfl⟩ := core_eq_ok.mp h
  exact get?_ofList_eq_none
    (show "prev_hash" ∉ fieldNames ++ ["authority_receipt"] by decide)

lemma mem_fields_of_core {d d' : Decision} {c} (h : d.core = .ok c) (h' : d'.core = .ok c) {m}
    (hm : m ∈ d.fields) : m ∈ d'.fields := by
  obtain ⟨raw, -, e⟩ := core_eq_ok.mp h
  obtain ⟨raw', -, e'⟩ := core_eq_ok.mp h'
  have hget : c.get? m.1 = some m.2 := by
    rw [e, get?_ofList_eq_some (d.nodup_core_keys _)]
    exact List.mem_append_left _ hm
  rw [e', get?_ofList_eq_some (d'.nodup_core_keys _), List.mem_append, List.mem_singleton] at hget
  cases hget with
  | inl h => exact h
  | inr e =>
    have hk : m.1 ∈ fieldNames := d.map_fields ▸ List.mem_map_of_mem hm
    rw [congrArg Prod.fst e] at hk
    exact absurd hk (show "authority_receipt" ∉ fieldNames by decide)

end Decision

lemma recomputeReceipt_eq_ok {hexdigest record s} : recomputeReceipt hexdigest record = .ok s ↔
    ∃ d c, Decision.ofRecord record = .ok d ∧ d.core = .ok c ∧ s = sha hexdigest (.dict c) := by
  simp only [recomputeReceipt, bind_eq_ok, pure, Except.pure, Except.ok.injEq]
  refine exists_congr fun d => ⟨?_, ?_⟩
  · intro ⟨hd, c, hc, e⟩
    exact ⟨c, hd, hc, e.symm⟩
  · intro ⟨c, hd, hc, e⟩
    exact ⟨hd, c, hc, e.symm⟩

lemma Decision.sealed_eq_ok {hexdigest} {d d' : Decision} : d.sealed hexdigest = .ok d' ↔
    ∃ c, d.core = .ok c ∧ d' = { d with receipt := sha hexdigest (.dict c) } := by
  simp only [sealed, bind_eq_ok, pure, Except.pure, Except.ok.injEq]
  exact exists_congr fun c => and_congr_right fun _ => eq_comm

/-- A sealed decision recomputes to its own receipt. -/
theorem recomputeReceipt_toDict {hexdigest} {d d' : Decision} (h : d.sealed hexdigest = .ok d') :
    recomputeReceipt hexdigest d'.toDict = .ok d'.receipt := by
  obtain ⟨c, hc, rfl⟩ := Decision.sealed_eq_ok.mp h
  refine recomputeReceipt_eq_ok.mpr ⟨{ d with receipt := "" }, c, ?_, hc, rfl⟩
  refine Decision.ofRecord_eq_ok.mpr ⟨fun m hm => ?_, ?_, rfl⟩
  · exact Decision.get?_toDict_eq_some.mpr (.inl hm)
  · rw [Decision.get?_toDict_eq_some.mpr (.inr (.inl ⟨rfl, rfl⟩))]
    rfl

inductive ContentVerdict where
  | include
  | exclude
deriving DecidableEq

def ContentVerdict.text : ContentVerdict → String
  | .include => "INCLUDE"
  | .exclude => "EXCLUDE"

/-- The content-only inclusion proposal (Python `Proposal`). -/
structure Proposal where
  verdict : ContentVerdict
  priority : String
  reason : String

/-- The verdict of the authority gate (first result of `authorize_inclusion`). -/
inductive AuthorityVerdict where
  | allow
  | requireReview
  | deny
deriving DecidableEq

def AuthorityVerdict.text : AuthorityVerdict → String
  | .allow => "allow"
  | .requireReview => "require-review"
  | .deny => "deny"

/-- Both verdicts have to be permissive to include (the branches of `gate_inclusion`). -/
def meet (py : PyText) (proposal : Proposal) (authority : AuthorityVerdict) (raw : Dict) :
    ContentVerdict × String :=
  if proposal.verdict = .exclude then (.exclude, "content: " ++ proposal.reason)
  else if authority ≠ .allow then
    (.exclude, "FAIL-CLOSED: authority verdict='" ++ authority.text ++ "' (" ++
      py.str ((raw.get? "reason_code").getD .null) ++ ") blocked inclusion; content proposal was " ++
      proposal.verdict.text ++ ": " ++ proposal.reason)
  else (.include, "authority allowed + content: " ++ proposal.reason)

structure InclusionRequest where
  proofArtifact : Dict
  agentRef : String
  proposal : Proposal
  authorityVerdict : AuthorityVerdict
  authorityRaw : Dict
  decidedAt : String

/-- The claim of a proof artifact (Python `proof_artifact.get("claim", {}) or {}`). -/
def claimOf (proofArtifact : Dict) : Value :=
  match proofArtifact.get? "claim" with
  | some claim => if claim.truthy then claim else .dict .empty
  | none => .dict .empty

/-- Python `claim.get("epistemicLevel", "")`. -/
def epistemicLevelOf (proofArtifact : Dict) : Except RecordError Value :=
  match (claimOf proofArtifact).asDict with
  | some claim => .ok ((claim.get? "epistemicLevel").getD (.str ""))
  | none => .error (.attributeError (claimOf proofArtifact))

/-- The sealed decision for one cell (Python `gate_inclusion`, without the append). -/
def gateInclusion (hexdigest : List Char → String) (py : PyText) (q : InclusionRequest) :
    Except RecordError Decision := do
  let (final, reason) := meet py q.proposal q.authorityVerdict q.authorityRaw
  let epistemicLevel ← epistemicLevelOf q.proofArtifact
  Decision.sealed hexdigest {
    recordType := .str "ContextInclusionDecision"
    schemaVersion := .str "gbrg.governance.context-inclusion-decision.v0.1"
    agentRef := .str q.agentRef
    action := .str "memory"
    cellId := (q.proofArtifact.get? "cell_id").getD (.str "")
    epistemicLevel := epistemicLevel
    proofId := (q.proofArtifact.get? "proofId").getD (.str "")
    verdict := .str final.text
    included := .bool (final = .include)
    reason := .str reason
    priority := .str (if final = .include then q.proposal.priority else "n/a")
    contentVerdict := .str q.proposal.verdict.text
    authorityVerdict := .str q.authorityVerdict.text
    authorityReasonCode := .str (py.str ((q.authorityRaw.get? "reason_code").getD (.str "")))
    decidedAt := .str q.decidedAt
    authority := .dict q.authorityRaw
    receipt := "" }

lemma gateInclusion_eq_ok {hexdigest py q d} (h : gateInclusion hexdigest py q = .ok d) :
    ∃ d₀ : Decision, d₀.sealed hexdigest = .ok d := by
  obtain ⟨level, -, hd⟩ := bind_eq_ok.mp h
  exact ⟨_, hd⟩

lemma gateInclusion_total (hexdigest py) {q claim} (h : (claimOf q.proofArtifact).asDict = some claim) :
    ∃ d, gateInclusion hexdigest py q = .ok d ∧ d.authority = .dict q.authorityRaw := by
  have hl : epistemicLevelOf q.proofArtifact =
      .ok ((claim.get? "epistemicLevel").getD (.str "")) := by
    unfold epistemicLevelOf
    rw [h]
  refine ⟨_, bind_eq_ok.mpr ⟨_, hl, Decision.sealed_eq_ok.mpr
    ⟨_, Decision.core_eq_ok.mpr ⟨_, Value.asDict_dict _, rfl⟩, rfl⟩⟩, rfl⟩

end SocioWorkspace.Ledger
