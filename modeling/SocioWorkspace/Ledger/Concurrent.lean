import SocioWorkspace.Ledger.Runs

/-!
# Concurrent calls of `emit_event`

Every MCP request runs `emit_event` of `gbrg/mcp/mcp_gate.py` in a process of its own
(`gbrg/mcp/src/gate.ts`). A call is two steps, the verified read of the file and the append of the sealed
event, and any number of calls take their steps in any order.
-/

namespace SocioWorkspace.Ledger
open HashChain Run List
universe u

inductive Phase where
  | waiting
  | read (records : List Dict) (head : String × Value)
  | done
  | refused (e : WriteError)  -- before it knew the chain head
  | failed (e : WriteError)  -- after that, on its registry

structure Calls (ι : Type u) where
  file : List Dict
  phase : ι → Phase

inductive Turn (ι : Type u) where
  | read (c : ι)
  | append (c : ι)

section
variable {ι : Type u} [DecidableEq ι] (hexdigest : List Char → String) (request : ι → EmitRequest)

section
variable (s : Calls ι)

def Calls.setPhase (c : ι) (p : Phase) : Calls ι := { s with phase := Function.update s.phase c p }

def Calls.step : Turn ι → Calls ι
  | .read c =>
    match s.phase c with
    | .waiting =>
      match emitRead hexdigest (request c) s.file with
      | .ok head => s.setPhase c (.read s.file head)
      | .error e => s.setPhase c (.refused e)
    | _ => s
  | .append c =>
    match s.phase c with
    | .read _ head =>
      match emitSeal hexdigest (request c) head with
      | .ok event => { s.setPhase c .done with file := s.file ++ [event] }
      | .error e => s.setPhase c (.failed e)
    | _ => s

/-- The chain verifies and no call was refused because it did not. -/
def Calls.Sound : Prop :=
  passes (verifyLedger hexdigest s.file) = true ∧ ∀ c e, s.phase c ≠ .refused (.ledger e)

/-- A call that appends an event finds the file as it read it. -/
def Calls.Undisturbed : Turn ι → Prop
  | .read _ => True
  | .append c => ∀ records head, s.phase c = .read records head →
      (∃ target, toolTarget (request c).tool (request c).registry = .ok target) →
      records = s.file

/-- Only events are written, and what a call read is an initial part of the file, with the head of its
chain. -/
structure Calls.Inv : Prop where
  events : ∀ r ∈ s.file, chained r = true
  read : ∀ c records head, s.phase c = .read records head → records <+: s.file ∧
    Verified hexdigest (GENESIS hexdigest) records ∧ head.2 = lastSealOrGenesis hexdigest records

end

end

section
variable {ι : Type u} {hexdigest : List Char → String}

lemma Calls.Inv.append {s : Calls ι} (h : s.Inv hexdigest) {event} (he : chained event = true) :
    Calls.Inv hexdigest { s with file := s.file ++ [event] } := by
  refine ⟨fun r hr => ?_, fun c records head e => ?_⟩
  · cases mem_append.mp hr with
    | inl hr => exact h.events r hr
    | inr hr => exact mem_singleton.mp hr ▸ he
  · obtain ⟨hp, hv, e⟩ := h.read c records head e
    exact ⟨hp.trans (prefix_append ..), hv, e⟩

/-- An event after an initial part of a chain continues the chain only from its end. -/
lemma verified_snoc_isPrefix (ideal : IdealDigest hexdigest) {file records event}
    (events : ∀ r ∈ file, chained r = true) (hf : Verified hexdigest (GENESIS hexdigest) file)
    (hp : records <+: file) (he : EventAfter hexdigest (lastSealOrGenesis hexdigest records) event) :
    Verified hexdigest (GENESIS hexdigest) (file ++ [event]) ↔ records = file := by
  have events' : ∀ r ∈ records, chained r = true := fun r hr => events r (hp.subset hr)
  have hc := (verified_events_iff events).mp hf
  have hc' := hc.of_isPrefix hp
  have hr := (verified_events_iff events').mpr hc'
  rw [verified_snoc_chained he.chained, he.prev_hash,
    lastSeal_of_event hr fun last hl => events' last (mem_of_getLast? hl)]
  refine ⟨fun h => ?_, fun e => ⟨hf, by rw [e], he.intact⟩⟩
  have e := h.2.1
  unfold chainHead at e
  rw [filter_eq_self.mpr events, filter_eq_self.mpr events'] at e
  exact hc'.eq_of_tip (link_binding ideal.injective) (link_fresh ideal) hc e
end

section
variable {ι : Type u} [DecidableEq ι] {hexdigest : List Char → String} {request : ι → EmitRequest}
  {s : Calls ι}

lemma Calls.setPhase_phase {c p c'} : (s.setPhase c p).phase c' = if c' = c then p else s.phase c' := by
  show Function.update s.phase c p c' = _
  rw [Function.update_apply]

lemma Calls.Inv.setPhase (h : s.Inv hexdigest) {c p}
    (hp : ∀ records head, p = .read records head → records <+: s.file ∧
      Verified hexdigest (GENESIS hexdigest) records ∧
        head.2 = lastSealOrGenesis hexdigest records) : (s.setPhase c p).Inv hexdigest := by
  refine ⟨h.events, fun c' records head e => ?_⟩
  rw [Calls.setPhase_phase] at e
  split at e
  · exact hp records head e
  · exact h.read c' records head e

lemma Calls.step_inv {t} (h : s.Inv hexdigest) : (s.step hexdigest request t).Inv hexdigest := by
  cases t with
  | read c =>
    unfold Calls.step
    simp only
    split
    · split
      · rename_i head hr
        apply h.setPhase
        intro records head' e
        cases e
        obtain ⟨-, hv, e⟩ := emitRead_eq_ok.mp hr
        exact ⟨prefix_refl _, hv, e⟩
      · exact h.setPhase (fun _ _ e => nomatch e)
    · exact h
  | append c =>
    unfold Calls.step
    simp only
    split
    · split
      · rename_i event he
        have hd : (s.setPhase c .done).Inv hexdigest := h.setPhase (fun _ _ e => nomatch e)
        exact hd.append (emitSeal_after he).chained
      · exact h.setPhase (fun _ _ e => nomatch e)
    · exact h

lemma Calls.sound_setPhase {c p} {file} (h : s.Sound hexdigest) (hp : ∀ e, p ≠ .refused (.ledger e)) :
    Calls.Sound hexdigest { s.setPhase c p with file := file } ↔
      Verified hexdigest (GENESIS hexdigest) file := by
  unfold Calls.Sound
  rw [verifyLedger_passes_iff]
  refine and_iff_left fun c' e => ?_
  rw [Calls.setPhase_phase]
  split
  · exact hp e
  · exact h.2 c' e

lemma Calls.step_read_sound {c} (h : s.Sound hexdigest) :
    (s.step hexdigest request (.read c)).Sound hexdigest := by
  have hv := verifyLedger_passes_iff.mp h.1
  unfold Calls.step
  simp only
  split
  · split
    · refine (Calls.sound_setPhase h ?_).mpr hv
      exact fun _ e => nomatch e
    · rename_i e he
      refine (Calls.sound_setPhase h (fun e' eq => ?_)).mpr hv
      cases eq
      unfold emitRead at he
      rw [prevHash_of_verified hv] at he
      cases hr : (request c).registry <;> (rw [hr] at he; cases he)
  · exact h

omit [DecidableEq ι] in
/-- The registry decides whether a call appends; only then does it matter what it read. -/
lemma Calls.undisturbed_append_iff (hexdigest) {c records head}
    (hp : s.phase c = .read records head) : s.Undisturbed request (.append c) ↔
      ((∃ event, emitSeal hexdigest (request c) head = .ok event) → records = s.file) := by
  unfold Calls.Undisturbed
  rw [exists_emitSeal_iff]
  simp only [hp]
  refine ⟨fun hu => hu records head rfl, fun hu records' head' e => ?_⟩
  cases e
  exact hu

lemma Calls.step_sound_iff (ideal : IdealDigest hexdigest) {t}
    (inv : s.Inv hexdigest) (h : s.Sound hexdigest) :
    (s.step hexdigest request t).Sound hexdigest ↔ s.Undisturbed request t := by
  have hv := verifyLedger_passes_iff.mp h.1
  cases t with
  | read c => exact iff_of_true (Calls.step_read_sound h) trivial
  | append c =>
    unfold Calls.step
    simp only
    split
    · rename_i records head hp
      obtain ⟨pre, -, hh⟩ := inv.read c records head hp
      rw [Calls.undisturbed_append_iff hexdigest hp]
      split
      · rename_i event he
        have ha := emitSeal_after he
        rw [hh] at ha
        rw [Calls.sound_setPhase h (p := .done) (fun _ e => nomatch e),
          verified_snoc_isPrefix ideal inv.events hv pre ha]
        exact ⟨fun e _ => e, fun hu => hu ⟨event, he⟩⟩
      · rename_i e he
        refine iff_of_true ((Calls.sound_setPhase h ?_).mpr hv) ?_
        · exact fun _ e => nomatch e
        · intro ⟨event, hs⟩
          rw [he] at hs
          cases hs
    · rename_i hp
      refine iff_of_true h fun records head e => ?_
      exact absurd e (hp records head)

/-- The chain stays sound exactly if no call is overtaken between its read and its append. -/
theorem schedule_verified_iff (ideal : IdealDigest hexdigest) {s : Calls ι}
    (waiting : ∀ c, s.phase c = .waiting) (events : ∀ r ∈ s.file, chained r = true)
    (verified : passes (verifyLedger hexdigest s.file) = true) (turns : List (Turn ι)) :
    Always (Calls.step hexdigest request) (Calls.Sound hexdigest) s turns ↔
      Along (Calls.step hexdigest request) (Calls.Undisturbed request) s turns := by
  refine always_iff_along (I := Calls.Inv hexdigest) ?_ ?_ ⟨events, fun c records head e => ?_⟩
    ⟨verified, fun c e h => ?_⟩
  · exact fun s t => Calls.step_inv
  · exact fun s t inv h => Calls.step_sound_iff ideal inv h
  · rw [waiting] at e
    cases e
  · rw [waiting] at h
    cases h

lemma Calls.undisturbed_after_read {c} (h : s.phase c = .waiting) :
    (s.step hexdigest request (.read c)).Undisturbed request (.append c) := by
  intro records head e _
  unfold Calls.step at e ⊢
  simp only [h] at e ⊢
  split at e
  · rw [Calls.setPhase_phase, if_pos rfl] at e
    cases e
    rfl
  · rw [Calls.setPhase_phase, if_pos rfl] at e
    cases e
end

def twoCalls : Calls Bool := ⟨[], fun _ => .waiting⟩

def twoRequests : Bool → EmitRequest
  | false => sampleCall "evt_1"
  | true => sampleCall "evt_2"

/-- A call that takes both its steps in a row keeps the chain sound. -/
theorem schedule_one_call_verified :
    Always (Calls.step String.ofList twoRequests) (Calls.Sound String.ofList) twoCalls
      [.read false, .append false] :=
  (schedule_verified_iff idealDigest_ofList (fun _ => rfl)
    (fun _ h => absurd h not_mem_nil) rfl _).mpr
    ⟨trivial, Calls.undisturbed_after_read rfl, trivial⟩

lemma twoCalls_broken {hexdigest policy event event'}
    (hp : ∀ c, policyHash hexdigest (twoRequests c).registry = .ok policy)
    (he : emitSeal hexdigest (twoRequests false) (policy, .str (GENESIS hexdigest)) = .ok event)
    (he' : emitSeal hexdigest (twoRequests true) (policy, .str (GENESIS hexdigest)) = .ok event')
    (ne : event.get? "hash" ≠ some (.str (GENESIS hexdigest))) :
    ¬Always (Calls.step hexdigest twoRequests) (Calls.Sound hexdigest) twoCalls
      [.read false, .read true, .append false, .append true] := by
  have hr : ∀ c, emitRead hexdigest (twoRequests c) [] =
      .ok (policy, .str (GENESIS hexdigest)) := fun c =>
    emitRead_eq_ok.mpr ⟨hp c, verified_nil _, rfl⟩
  intro ⟨_, _, _, _, h⟩
  have hf : (((((twoCalls.step hexdigest twoRequests (.read false)).step hexdigest twoRequests
      (.read true)).step hexdigest twoRequests (.append false)).step hexdigest twoRequests
      (.append true))).file = [event, event'] := by
    simp [Calls.step, Calls.setPhase, twoCalls, hr, he, he', Function.update]
  have hv := verifyLedger_passes_iff.mp h.1
  rw [hf, ← singleton_append] at hv
  have h1 := emitSeal_after he
  have h2 := emitSeal_after he'
  have e := ((verified_snoc_chained h2.chained).mp hv).2.1
  rw [h2.prev_hash, chainHead, filter_cons_of_pos h1.chained] at e
  exact ne e.symm

set_option maxRecDepth 100000 in
lemma sampleCall_hash : ∃ event, emitSeal sha256 (sampleCall "evt_1")
    (sha sha256 sampleRegistry, .str (GENESIS sha256)) = .ok event ∧
      event.get? "hash" ≠ some (.str (GENESIS sha256)) := by
  have h : (emitSeal sha256 (sampleCall "evt_1")
      (sha sha256 sampleRegistry, .str (GENESIS sha256))).toOption.any
      (fun event => (event.get? "hash").any (·.isStr (GENESIS sha256) = false)) = true := by
    decide +kernel
  cases he : emitSeal sha256 (sampleCall "evt_1")
      (sha sha256 sampleRegistry, .str (GENESIS sha256)) with
  | error e => rw [he] at h; cases h
  | ok event =>
    refine ⟨event, rfl, fun e => ?_⟩
    rw [he] at h
    have h' : (event.get? "hash").any (·.isStr (GENESIS sha256) = false) = true := h
    rw [e, Option.any_some, decide_eq_true_iff, Value.isStr_iff.mpr rfl] at h'
    cases h'

/-- Two calls that both read the empty ledger before either appends leave a broken chain. -/
theorem schedule_two_reads_breaks :
    ¬Always (Calls.step sha256 twoRequests) (Calls.Sound sha256) twoCalls
      [.read false, .read true, .append false, .append true] := by
  obtain ⟨event, he, ne⟩ := sampleCall_hash
  obtain ⟨event', he'⟩ := exists_emitSeal_iff.mpr (sampleCall_target "evt_2")
  refine twoCalls_broken (fun c => ?_) he he' ne
  cases c <;> rfl

end SocioWorkspace.Ledger
