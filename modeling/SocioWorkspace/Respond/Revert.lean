import SocioWorkspace.Respond.Model
import SocioWorkspace.Triad.Order

/-!
# Reverts and the responder

What becomes of the beacons of `propose_deploy_revert` and `propose_state_failback` under the default policy.
The opener accepts a proposal to revert, but the executor `propose_pr` in front of it records only proposals
that carry files.
-/

namespace SocioWorkspace.Respond
open Python Triad

variable {F : Type}

/-- The beacon is decided and carried out, and ends as a recorded proposal that the opener accepts. -/
def endsProposed (env : Env F) (world : World) (beacon : Dict) : Bool :=
  match decide env (DEFAULT_POLICY env.float) beacon >>= execute world beacon with
  | .error _ => false
  | .ok r => r.execution.any fun outcome => outcome.proposed && outcome.recorded.any validForOpener

inductive Call where
  | stateFailback (receipts : List Value) (repo : String) (quorum : ℤ) (kindClass base now : String)
  | deployRevert (repo badCommit appName reason kindClass : String) (branch : Option String)
    (base now : String)

def Call.beacons (py : Builtins) : Call → List Dict
  | stateFailback receipts repo quorum kindClass base now =>
    proposeStateFailback py repo quorum kindClass base now receipts
  | deployRevert repo badCommit appName reason kindClass branch base now =>
    [proposeDeployRevert repo badCommit appName reason kindClass branch base now]

/-- No quorum, or all the well-formed receipts back the canonical root or are about its commit. -/
def Call.NothingToRevert (py : Builtins) : Call → Prop
  | stateFailback receipts _ quorum _ _ _ =>
    ∀ root, Elected py receipts quorum root → ∀ raw ∈ receipts, ∀ receipt,
      lintReceipt py raw = .ok receipt →
      receipt.koeId = none ∧ receipt.stateRoot = root ∨
        (votes py receipts root).head?.map (·.commit) = some receipt.commit
  | deployRevert .. => False

variable {world : World} {beacon : Dict}

lemma validProposal_of_proposed {action outcome}
    (h : carryOut world beacon action = .ok (some outcome)) (hproposed : outcome.proposed = true) :
    validProposal ((beacon.get? "proposal").getD .null) = true := by
  obtain ⟨executor, -, h⟩ := bind_eq_ok.1 h
  cases executor with
  | none => cases h
  | some executor =>
    obtain ⟨outcome', hrun, h⟩ := bind_eq_ok.1 h
    cases h
    cases executor with
    | resyncMirrorDrift =>
      obtain ⟨report, -, h⟩ := bind_eq_ok.1 hrun
      cases h
      cases hproposed
    | reconcileVendoredGraph =>
      cases hrun
      split at hproposed <;> cases hproposed
    | proposePr =>
      cases hrun
      rw [proposePr] at hproposed
      split_ifs at hproposed with hvalid
      · exact hvalid
      · cases hproposed
    | canaryFix =>
      cases hrun
      rw [canaryFix] at hproposed
      split_ifs at hproposed
      · split at hproposed <;> cases hproposed
      · cases hproposed
    | quarantine =>
      cases hrun
      rw [quarantine] at hproposed
      split at hproposed <;> cases hproposed

variable {env : Env F}

lemma endsProposed_valid (h : endsProposed env world beacon = true) :
    validProposal ((beacon.get? "proposal").getD .null) = true := by
  rw [endsProposed] at h
  split at h
  · cases h
  · rename_i r hr
    obtain ⟨r₀, hdecide, hexecute⟩ := bind_eq_ok.1 hr
    obtain ⟨outcome, houtcome, -, hexecution, -⟩ := execute_eq_ok hexecute
    have hnone := (decideComposed_eq_ok (List.cons_ne_nil beacon []) hdecide).2
    rw [hexecution, hnone, Option.or_none] at h
    obtain ⟨o, rfl, ho⟩ := (Option.any_eq_true _ _).1 h
    exact validProposal_of_proposed houtcome (Bool.and_eq_true_iff.1 ho).1

lemma endsProposed_revertBeacon
    {kindClass system detector evidenceRef repo base branch title revert body now} {detail} :
    endsProposed env world (revertBeacon kindClass system detector evidenceRef detail
      (revertProposal repo base branch title revert body) now) = false := by
  refine Bool.eq_false_iff.2 fun h => ?_
  have hvalid := endsProposed_valid h
  have hfiles : (revertProposal repo base branch title revert body).get? "files" = none :=
    SortedMap.get?_ofList_eq_none (by simp)
  rw [get?_revertBeacon, Option.getD_some, validProposal, Value.asDict_dict] at hvalid
  simp [hfiles] at hvalid

variable {py : Builtins}

lemma endsProposed_of_mem {call : Call}
    (h : beacon ∈ call.beacons py) : endsProposed env world beacon = false := by
  cases call with
  | stateFailback receipts repo quorum kindClass base now =>
    obtain ⟨-, sick, -, head, -, -, -, rfl⟩ := mem_proposeStateFailback.1 h
    exact endsProposed_revertBeacon
  | deployRevert repo badCommit appName reason kindClass branch base now =>
    rw [List.mem_singleton.1 h]
    exact endsProposed_revertBeacon

lemma exists_failback_iff {receipts repo quorum} {kindClass base now} :
    (∃ beacon, beacon ∈ proposeStateFailback py repo quorum kindClass base now receipts) ↔
      ∃ root, Elected py receipts quorum root ∧ ∃ raw ∈ receipts, ∃ receipt,
        lintReceipt py raw = .ok receipt ∧ ¬(receipt.koeId = none ∧ receipt.stateRoot = root) ∧
        (votes py receipts root).head?.map (·.commit) ≠ some receipt.commit := by
  have hbacks {root raw receipt} (helected : Elected py receipts quorum root)
      (hlint : lintReceipt py raw = .ok receipt) :
      Backs py (assessTriad py receipts quorum) raw ↔
        receipt.koeId = none ∧ receipt.stateRoot = root := by
    rw [Backs, (assessTriad_of_elected helected).stateRoot]
    constructor
    · rintro ⟨receipt', hvote, hroot⟩
      obtain ⟨hlint', hkoe⟩ := vote_eq_some.1 hvote
      cases hlint.symm.trans hlint'
      exact ⟨hkoe, (Option.some.inj hroot).symm⟩
    · rintro ⟨hkoe, rfl⟩
      exact ⟨receipt, vote_eq_some.2 ⟨hlint, hkoe⟩, rfl⟩
  constructor
  · rintro ⟨beacon, hbeacon⟩
    obtain ⟨hok, sick, hsick, head, hhead, -, hother, -⟩ := mem_proposeStateFailback.1 hbeacon
    obtain ⟨root, helected⟩ := quorumOk_iff.1 hok
    obtain ⟨raw, hraw, hnot, hcommit⟩ := exists_head_iff.1 ⟨sick, hsick, hhead⟩
    cases hlint : lintReceipt py raw with
    | error errors =>
      rw [headCommit, hlint] at hcommit
      cases hcommit
    | ok receipt =>
      rw [headCommit_of_ok hlint] at hcommit
      have hcommit : receipt.commit = head := Option.some.inj hcommit
      refine ⟨root, helected, raw, hraw, receipt, hlint, (not_congr (hbacks helected hlint)).1 hnot, ?_⟩
      rw [← (assessTriad_of_elected helected).commit, hcommit]
      exact hother
  · rintro ⟨root, helected, raw, hraw, receipt, hlint, hnot, hother⟩
    have hcanonical := assessTriad_of_elected helected
    obtain ⟨sick, hsick, hhead⟩ := exists_head_iff.2
      ⟨raw, hraw, (not_congr (hbacks helected hlint)).2 hnot, headCommit_of_ok hlint⟩
    refine ⟨_, mem_proposeStateFailback.2 ⟨hcanonical.quorumOk, sick, hsick, receipt.commit, hhead,
      commit_ne_empty hlint, ?_, rfl⟩⟩
    rw [hcanonical.commit]
    exact hother

lemma beacons_eq_nil_iff {call : Call} : (∀ beacon, beacon ∉ call.beacons py) ↔ call.NothingToRevert py := by
  cases call with
  | stateFailback receipts repo quorum kindClass base now =>
    rw [← not_exists, Call.beacons, exists_failback_iff]
    constructor
    · intro h root helected raw hraw receipt hlint
      by_contra hnot
      obtain ⟨hbacks, hcommit⟩ := not_or.1 hnot
      exact h ⟨root, helected, raw, hraw, receipt, hlint, hbacks, hcommit⟩
    · rintro h ⟨root, helected, raw, hraw, receipt, hlint, hbacks, hcommit⟩
      exact (h root helected raw hraw receipt hlint).elim hbacks hcommit
  | deployRevert repo badCommit appName reason kindClass branch base now =>
    exact iff_of_false (fun h => h _ (List.mem_singleton_self _)) id

/-- The beacons of a call end as proposals that the opener accepts exactly if there are none. -/
theorem revert_proposed_iff (env : Env F) (world : World) (py : Builtins) (call : Call) :
    (∀ beacon ∈ call.beacons py, endsProposed env world beacon = true) ↔ call.NothingToRevert py := by
  rw [← beacons_eq_nil_iff]
  constructor
  · intro h beacon hbeacon
    have hends := h beacon hbeacon
    rw [endsProposed_of_mem hbeacon] at hends
    cases hends
  · intro h beacon hbeacon
    exact absurd hbeacon (h beacon)

/-- One master of three diverges. The opener would accept the failback, but the executor finds no files. -/
theorem failback_not_proposed :
    let receipts := [soundReceipt "did:key:a" '0' "0000000", soundReceipt "did:key:b" '0' "0000000",
      soundReceipt "did:key:c" '1' "1111111"]
    ∃ beacon ∈ (Call.stateFailback receipts "org/infra" 2 "deploy_regression" "main" "now").beacons
        asciiText,
      (decide exactEnv (DEFAULT_POLICY exactOps) beacon).toOption.map (·.action) = some .proposePr ∧
      (((beacon.get? "proposal").bind (·.asDict)).map validForOpener) = some true ∧
      endsProposed exactEnv brokenWorld beacon = false := by
  decide +kernel

end SocioWorkspace.Respond
