import SocioWorkspace.Triad.Assess

/-!
# Reverts of a bad deploy

Model of `propose_deploy_revert` and `propose_state_failback` of `automation/beacon_producers.py`. Both return
beacons whose proposal is the revert of a commit or of a range of commits. The time of a beacon is a parameter.
-/

namespace SocioWorkspace.Triad

def revertProposal (repo base branch title revert body : String) : Dict :=
  .ofList [
    ("repo", .str repo),
    ("base", .str base),
    ("branch", .str branch),
    ("title", .str title),
    ("revert", .str revert),
    ("body", .str body)]

def revertBeacon (kindClass system detector evidenceRef : String) (detail : List (String × Value))
    (proposal : Dict) (now : String) : Dict :=
  .ofList [
    ("kind_class", .str kindClass),
    ("system", .str system),
    ("evidence", .dict (.ofList [
      ("detector", .str detector), ("reproducible", .bool true), ("stale", .bool false)])),
    ("evidence_ref", .str evidenceRef),
    ("plan", .dict (.ofList [])),
    ("detail", .dict (.ofList detail)),
    ("proposal", .dict proposal),
    ("observed_at", .str now)]

/-- Python `propose_deploy_revert`. -/
def proposeDeployRevert (repo badCommit appName reason kindClass : String) (branch : Option String)
    (base now : String) : Dict :=
  let short := firstChars 12 badCommit
  let branch := (branch.filter (· ≠ "")).getD ("self-heal/" ++ kindClass ++ "/revert-" ++ short)
  let title := "revert(self-heal): " ++ short ++ " — " ++ appName ++ " regressed in prod"
  let body := "Argo app `" ++ appName ++ "` went unhealthy on commit `" ++ badCommit ++ "`.\n\n" ++
    "- **reason:** " ++ reason ++ "\n" ++
    "- **why a revert (not a patch):** Argo CD `selfHeal: true` re-applies git, so the only " ++
    "rollback that sticks is reverting the offending commit.\n" ++
    "- **why a PR (not auto-merge):** a production revert is reviewed.\n\n" ++
    "Opened by the self-heal responder (class `" ++ kindClass ++ "`)."
  revertBeacon kindClass (repo ++ "@" ++ short) "deploy_health" ("argocd://app/" ++ appName)
    [("app", .str appName), ("bad_commit", .str badCommit), ("reason", .str reason)]
    (revertProposal repo base branch title badCommit body) now

def optionalText : Option String → Value
  | some s => .str s
  | none => .null

section Failback
variable (py : Builtins) (repo : String) (quorum : ℤ) (kindClass base now : String)

/-- The beacon of a sick master that serves the commit `head`; `masters` receipts were assessed. -/
def failbackBeacon (masters : ℕ) (assessment : TriadAssessment) (sick : SickCluster) (head : String) :
    Dict :=
  let good := assessment.canonicalCommit.getD "None"
  let root := assessment.canonicalStateRoot.getD "None"
  let healthy := toString assessment.healthyClusters.length
  let range := good ++ ".." ++ head
  let cluster := py.str sick.cluster
  let koe := sick.koeId.filter (· ≠ "")
  let fence := (koe.map fun id => " Lazerus quarantine `" ++ id ++ "`.").getD ""
  let branch := "self-heal/" ++ kindClass ++ "/failback-" ++ firstChars 12 head
  let title := "revert(self-heal): fail " ++ cluster ++ " back to " ++ firstChars 12 good ++
    " (quorum-blessed state)"
  let body := "The k3s master triad diverged. A quorum of " ++ healthy ++ " masters agree on state `" ++
    root ++ "` (commit `" ++ good ++ "`); master `" ++ cluster ++ "` diverged to commit `" ++ head ++
    "`." ++ fence ++ "\n\n" ++
    "- **failback:** revert `" ++ range ++ "` — amplify the sick cluster back to the last " ++
    "state the master quorum stands behind.\n" ++
    "- **why a revert (not a patch):** Argo CD `selfHeal: true` re-applies git, so only a " ++
    "git revert of the divergent range sticks.\n" ++
    "- **why a PR (not auto-merge):** a production failback is reviewed.\n" ++
    "- **quorum:** " ++ healthy ++ "/" ++ toString masters ++ " masters (≥ " ++ toString quorum ++
    ") — a trusted target exists, so this is a decision, not a guess.\n\n" ++
    "Opened by the macro-triad self-heal responder (class `" ++ kindClass ++ "`)."
  revertBeacon kindClass (repo ++ "::" ++ cluster) "lazerus_macro_triad"
    (koe.getD ("lazerus://triad/" ++ cluster))
    [("cluster", sick.cluster),
      ("canonical_commit", optionalText assessment.canonicalCommit),
      ("sick_commit", .str head),
      ("koe_id", optionalText sick.koeId),
      ("reason", .str sick.reason),
      ("healthy_quorum", .list (assessment.healthyClusters.map .str))]
    (revertProposal repo base branch title range body) now

/-- Python `propose_state_failback`. -/
def proposeStateFailback (receipts : List Value) : List Dict :=
  let assessment := assessTriad py receipts quorum
  if assessment.needsFailback then
    assessment.sickClusters.filterMap fun sick =>
      match sick.headCommit with
      | none => none
      | some head =>
        if head = "" ∨ assessment.canonicalCommit = some head then none
        else some (failbackBeacon py repo quorum kindClass base now receipts.length assessment sick head)
  else []

end Failback

/-- Python `beacon["proposal"]["revert"]`. -/
def revertOf (beacon : Dict) : Option Value :=
  ((beacon.get? "proposal").bind (·.asDict)).bind (·.get? "revert")

section
variable {py : Builtins} {repo : String} {quorum : ℤ} {kindClass base now : String}
variable {receipts : List Value}

lemma mem_proposeStateFailback {beacon} :
    let a := assessTriad py receipts quorum
    beacon ∈ proposeStateFailback py repo quorum kindClass base now receipts ↔
      a.quorumOk = true ∧ ∃ sick ∈ a.sickClusters, ∃ head, sick.headCommit = some head ∧ head ≠ "" ∧
        a.canonicalCommit ≠ some head ∧
        beacon = failbackBeacon py repo quorum kindClass base now receipts.length a sick head := by
  intro a
  rw [proposeStateFailback]
  constructor
  · intro h
    split_ifs at h with hneeds
    · obtain ⟨sick, hsick, hbeacon⟩ := List.mem_filterMap.1 h
      cases hhead : sick.headCommit with
      | none =>
        rw [hhead] at hbeacon
        cases hbeacon
      | some head =>
        rw [hhead] at hbeacon
        obtain ⟨hcommit, hbeacon⟩ := Option.ite_none_left_eq_some.1 hbeacon
        obtain ⟨hempty, hother⟩ := not_or.1 hcommit
        exact ⟨(Bool.and_eq_true_iff.1 hneeds).1, sick, hsick, head, hhead, hempty, hother,
          (Option.some.inj hbeacon).symm⟩
    · cases h
  · rintro ⟨hok, sick, hsick, head, hhead, hempty, hother, rfl⟩
    have hneeds : a.needsFailback = true := by
      have hne : a.sickClusters ≠ [] := List.ne_nil_of_mem hsick
      simp [TriadAssessment.needsFailback, hok, hne]
    rw [if_pos hneeds]
    refine List.mem_filterMap.2 ⟨sick, hsick, ?_⟩
    rw [hhead]
    exact if_neg (not_or.2 ⟨hempty, hother⟩)

lemma get?_revertBeacon {system detector evidenceRef detail} {proposal} :
    (revertBeacon kindClass system detector evidenceRef detail proposal now).get? "proposal" =
      some (.dict proposal) := by
  rw [revertBeacon]
  exact (SortedMap.get?_ofList_eq_some (by simp)).2 (by simp)

lemma revertOf_failbackBeacon {masters a sick} {head} :
    revertOf (failbackBeacon py repo quorum kindClass base now masters a sick head) =
      some (.str (a.canonicalCommit.getD "None" ++ ".." ++ head)) := by
  rw [revertOf, failbackBeacon, get?_revertBeacon, Option.bind_some, Value.asDict_dict,
    Option.bind_some, revertProposal]
  exact (SortedMap.get?_ofList_eq_some (by simp)).2 (by simp)

end

end SocioWorkspace.Triad
