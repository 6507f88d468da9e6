import SocioWorkspace.Svf.Verify

/-!
# Runs of the validation fabric

Model of `command_run` in `tools/svf_runner.py`, for a plan that is given: the actions of a plan are carried out
one after the other, the results are written, and a receipt is issued for them and verified at once. `Host` is
what happens outside of the runner: the clock, the commands of the actions, which may change any file, and the
files that are written and read.
-/

namespace SocioWorkspace.Svf
open Python

structure Completed where
  returncode : Option Int
  stdout : String
  stderr : String

/-- The calls of `utc_now`. -/
inductive Moment where
  | runStarted
  | runEnded
  | actionStarted (ordinal : ℕ)
  | actionEnded (ordinal : ℕ)
  | issued
  | verified

structure Host (B : Type) where
  clock : Moment → String
  /-- Python `subprocess.run(argv, timeout=…)`. -/
  execute : FileSystem B → List String → Int → Except PyError (Completed × FileSystem B)
  /-- Python `write_json`, once the text is made. -/
  write : FileSystem B → String → B → Except PyError (FileSystem B)
  /-- Python `path.read_bytes()`. -/
  read : FileSystem B → String → Except PyError B
  /-- Python `relative_path`. -/
  relativePath : FileSystem B → String → String

section
variable {B : Type} (tools : Tools B) (host : Host B)

/-- Python `not reject_unsafe_action(action, profile)`. -/
def safeAction (action profile : Data) : Except PyError Bool := do
  let network ← (action.field "network_mode").isOneOf ["not_required"]
  let credentials ← (action.field "credential_policy").isOneOf ["none"]
  let effects ← (action.field "side_effect_class").isOneOf ["read_only", "artifact_write"]
  let argv := action.field "argv"
  let args ← if argv.truthy then argv.iterate else .ok []
  let shell ← action.get "shell" (.bool false)
  return (action.field "backend").isStr "local" && (profile.field "execution_backend").isStr "local" &&
    network && credentials && effects && argv.isNonemptyList && args.all isText &&
    ! (args.filterMap Data.asStr).any (fun s =>
      ';' ∈ s.toList || '|' ∈ s.toList || ['&', '&'] <:+: s.toList) &&
    ! shell.truthy

/-- The loop over the actions of a plan in `resolve_run_plan`. -/
def resolveActions (registry profile : Data) : List Data → Except PyError (List Data)
  | [] => .ok []
  | actionId :: ids => do
    match ← findBy "action_id" (tools.eq · actionId) (← registered registry "actions") with
    | none => .error .value
    | some action => do
      if ← safeAction action profile then do
        let actions ← resolveActions registry profile ids
        return action :: actions
      else .error .value

/-- Python `resolve_run_plan`, for a plan that is given. -/
def resolveRunPlan (registry : Data) (repo planId : String) :
    Except PyError (Data × Data × List Data) := do
  match ← findBy "repo" (·.isStr repo) (← registered registry "profiles") with
  | none => .error .value
  | some profile =>
    match ← findPlan registry planId with
    | none => .error .value
    | some plan => do
      let ids ← (← plan.get "actions" (.list [])).iterate
      let actions ← resolveActions tools registry profile ids
      if actions.isEmpty then .error .value else return (profile, plan, actions)

/-- Python `digest_bytes`. -/
def digestRecord (hex : String) : Data :=
  .dict [(.str "algorithm", .str "sha256"), (.str "digest", .str hex)]

/-- Python `f"{ordinal:02d}"`. -/
def twoDigits (n : ℕ) : String := if n < 10 then "0" ++ toString n else toString n

def resultMembers (actionId : String) (ordinal : ℕ) (completed : Completed) : List (Data × Data) :=
  let pass := completed.returncode = some 0
  [(.str "action_id", .str actionId), (.str "status", .str (if pass then "pass" else "fail")),
    (.str "exit_code", (completed.returncode.map Data.int).getD .none),
    (.str "started_at", .str (host.clock (.actionStarted ordinal))),
    (.str "ended_at", .str (host.clock (.actionEnded ordinal))),
    (.str "stdout", .str completed.stdout), (.str "stderr", .str completed.stderr),
    (.str "failure_taxonomy", .list <|
      if pass then [] else if completed.returncode.isNone then [.str "timeout"]
      else [.str "action_exit_nonzero"])]

/-- Python `write_json`. -/
def writeJson (fs : FileSystem B) (path : String) (data : Data) : Except PyError (FileSystem B) := do
  host.write fs path (← tools.dumps data)

/-- Python `digest_file`, without the name of the algorithm. -/
def digestFile (fs : FileSystem B) (path : String) : Except PyError String := do
  return tools.sha256 (← host.read fs path)

/-- Python `execute_action`. -/
def executeAction (outDir : String) (action : Data) (ordinal : ℕ) (fs : FileSystem B) :
    Except PyError (Data × FileSystem B) := do
  let actionId := tools.words.str (← item action "action_id")
  let argv ← (← item action "argv").iterate
  let timeout ← tools.words.int (← action.get "timeout_seconds" (.int 60))
  let (completed, fs) ← host.execute fs (argv.map tools.words.str) timeout
  let safeName := String.ofList (actionId.toList.map fun c => if c = ':' ∨ c = '/' then '_' else c)
  let path := outDir ++ "/" ++ twoDigits ordinal ++ "-" ++ safeName ++ ".result.json"
  let members := resultMembers host actionId ordinal completed
  let fs ← writeJson tools host fs path (.dict members)
  let hex ← digestFile tools host fs path
  return (.dict (members ++ [(.str "artifact_path", .str (host.relativePath fs path)),
    (.str "artifact_digest", digestRecord hex)]), fs)

/-- The results of the actions, counted from `ordinal`. -/
def executeActions (outDir : String) (ordinal : ℕ) :
    List Data → FileSystem B → Except PyError (List Data × FileSystem B)
  | [], fs => .ok ([], fs)
  | action :: actions, fs => do
    let (result, fs) ← executeAction tools host outDir action ordinal fs
    let (results, fs) ← executeActions outDir (ordinal + 1) actions fs
    return (result :: results, fs)

structure Outcome where
  repo : String
  changedPaths : List String
  profile : Data
  plan : Data
  results : List Data
  suffix : String

/-- Python `run_status == "pass"`. -/
def Outcome.pass (o : Outcome) : Bool := o.results.all fun r => (r.field "status").isStr "pass"

/-- Python `run_record`. -/
def Outcome.record (o : Outcome) : Data :=
  .dict [
    (.str "schema_version", .str "1.0"), (.str "run_ref", .str ("svf:run:" ++ o.suffix)),
    (.str "repo", .str o.repo), (.str "profile_ref", o.profile.field "profile_id"),
    (.str "plan_ref", o.plan.field "plan_id"), (.str "policy_ref", o.profile.field "policy_ref"),
    (.str "backend", .str "local"), (.str "changed_paths", .list (o.changedPaths.map .str)),
    (.str "started_at", .str (host.clock .runStarted)), (.str "ended_at", .str (host.clock .runEnded)),
    (.str "status", .str (if o.pass then "pass" else "fail")), (.str "action_results", .list o.results),
    (.str "non_claims", .list [.str "Local execution does not certify production readiness.",
      .str "Local execution does not certify container, browser, QEMU, cluster, or vendor parity."])]

/-- An element of `output_digests`. -/
def outputDigest (result : Data) : Data :=
  let digest := result.field "artifact_digest"
  .dict [(.str "name", result.field "action_id"), (.str "path", result.field "artifact_path"),
    (.str "algorithm", digest.field "algorithm"), (.str "digest", digest.field "digest")]

/-- Python `certified_claims` of the receipt that is issued. -/
def Outcome.certifiedClaims (o : Outcome) (declared : List Data) : List Data :=
  (if o.pass then declared else [.str "non_production_only"]).eraseP
    (·.isStr "receipt_integrity_verified")

/-- The digests of a receipt, and where the artifacts are. -/
structure Digests where
  runArtifact : String
  run : String
  plan : String
  policy : String
  registryPath : String
  registry : String

/-- Python `receipt`, with the given claims and verification. -/
def Outcome.receipt (o : Outcome) (digests : Digests) (claims : List Data) (verification : Data) : Data :=
  .dict [
    (.str "schema_version", .str "1.0"), (.str "receipt_id", .str ("svf:receipt:" ++ o.suffix)),
    (.str "run_ref", .str ("svf:run:" ++ o.suffix)), (.str "run_artifact", .str digests.runArtifact),
    (.str "run_digest", digestRecord digests.run), (.str "repo", .str o.repo),
    (.str "profile_ref", o.profile.field "profile_id"), (.str "plan_ref", o.plan.field "plan_id"),
    (.str "plan_digest", digestRecord digests.plan), (.str "policy_ref", o.profile.field "policy_ref"),
    (.str "policy_digest", digestRecord digests.policy),
    (.str "input_digests", .list [.dict [(.str "name", .str "registry"),
      (.str "path", .str digests.registryPath), (.str "algorithm", .str "sha256"),
      (.str "digest", .str digests.registry)]]),
    (.str "output_digests", .list (o.results.map outputDigest)), (.str "certified_claims", .list claims),
    (.str "non_certified_claims", .list [.str "production_readiness", .str "live_infrastructure_safety",
      .str "container_runtime_parity", .str "browser_runtime_parity", .str "qemu_runtime_parity",
      .str "signadot_vendor_parity", .str "network_isolation_enforced"]),
    (.str "verification", verification), (.str "issued_at", .str (host.clock .issued))]

/-- Python `receipt["verification"]`; the diagnostics are kept apart. -/
def verification (status : String) (moment : Moment) : Data :=
  .dict [(.str "status", .str status), (.str "verifier", .str "sociosphere.svf_runner.local"),
    (.str "verified_at", .str (host.clock moment))]

/-- Python `sorted(set(claims))` of texts. -/
def sortedClaims (claims : List Data) : List Data :=
  ((claims.filterMap Data.asStr).dedup.insertionSort (· ≤ ·)).map .str

structure Issued (B : Type) where
  outcome : Outcome
  declared : List Data
  diagnostics : List Diagnostic
  receipt : Data
  fs : FileSystem B

structure Args where
  repo : String
  planId : String
  changedPaths : List String
  /-- Resolved by `materialized_path`. -/
  outDir : String
  registryPath : String

/-- Python `command_run`, once the plan is selected. -/
def commandRun (args : Args) (registry : Data) (fs : FileSystem B) : Except PyError (Issued B) := do
  let (profile, plan, actions) ← resolveRunPlan tools registry args.repo args.planId
  let (results, fs) ← executeActions tools host args.outDir 1 actions fs
  let planId := tools.words.str (← item plan "plan_id")
  let name := args.repo ++ "|" ++ planId ++ "|" ++ host.clock .runStarted
  let outcome : Outcome :=
    { repo := args.repo, changedPaths := args.changedPaths, profile := profile, plan := plan,
      results := results, suffix := .ofList ((tools.sha256 (tools.encode name)).toList.take 16) }
  let runPath := args.outDir ++ "/validation-run.json"
  let receiptPath := args.outDir ++ "/validation-receipt.json"
  let fs ← writeJson tools host fs runPath (outcome.record host)
  let declared ← (← plan.get "declared_claims" (.list [])).iterate
  let digests : Digests :=
    { runArtifact := host.relativePath fs runPath, run := ← digestFile tools host fs runPath,
      plan := ← digestData tools plan,
      policy := ← digestData tools (← policyProjection profile),
      registryPath := host.relativePath fs args.registryPath,
      registry := ← digestFile tools host fs args.registryPath }
  let claims := outcome.certifiedClaims declared
  let receipt := outcome.receipt host digests claims (verification host "not_checked" .issued)
  let fs ← writeJson tools host fs receiptPath receipt
  let shape ← verifyReceiptShape receipt
  let integrity ← verifyReceiptIntegrity tools fs receipt registry
  let diagnostics := shape ++ integrity
  let status := if diagnostics.isEmpty then "verified" else "failed"
  let claims :=
    if diagnostics.isEmpty && declared.any (·.isStr "receipt_integrity_verified") then
      sortedClaims (claims ++ [.str "receipt_integrity_verified"])
    else claims
  let receipt := outcome.receipt host digests claims (verification host status .verified)
  let fs ← writeJson tools host fs receiptPath receipt
  return { outcome := outcome, declared := declared, diagnostics := diagnostics, receipt := receipt, fs := fs }

/-- Every command exits with 0. -/
def AllExitZero : Prop :=
  ∀ fs argv timeout completed fs', host.execute fs argv timeout = .ok (completed, fs') →
    completed.returncode = some 0

/-- The plan declares the claim that a run adds by itself. -/
def DeclaresIntegrity (registry : Data) (planId : String) : Prop :=
  ∃ plan, findPlan registry planId = .ok (some plan) ∧
    ∃ claim ∈ (plan.field "declared_claims").elems, claim.isStr "receipt_integrity_verified" = true

/-- The plan names its actions by texts. -/
def NamesActions (registry : Data) (planId : String) : Prop :=
  ∀ plan, findPlan registry planId = .ok (some plan) →
    ∀ action ∈ (plan.field "actions").elems, action.asStr.isSome = true

/-- What is read from the text of a record: the keys are sorted in the text, so an object comes back with
its members in another order. -/
structure ReadBack (record record' : Data) : Prop where
  status : record'.field "status" = record.field "status"
  runRef : record'.field "run_ref" = record.field "run_ref"
  planRef : record'.field "plan_ref" = record.field "plan_ref"
  /-- What is equal to itself is read back as something equal. -/
  profileRef : tools.eq (record.field "profile_ref") (record.field "profile_ref") = true →
    tools.eq (record'.field "profile_ref") (record.field "profile_ref") = true
  results : List.Forall₂ (fun result result' => ∀ key, Data.field result' key = Data.field result key)
    (record.field "action_results").elems (record'.field "action_results").elems

/-- The file that the run wrote for its record still has the text of the record. -/
def Kept (issued : Issued B) (fs : FileSystem B) : Prop :=
  ∃ path contents record, issued.receipt.field "run_artifact" = .str path ∧
    tools.dumps (issued.outcome.record host) = .ok contents ∧ Stored fs path contents ∧
    tools.loads contents = .ok record ∧ ReadBack tools (issued.outcome.record host) record

/-- The result is that of the action, and names the file that was written for it. -/
structure ResultOf (action result : Data) : Prop where
  actionId : result.field "action_id" = .str (tools.words.str (action.field "action_id"))
  status : AllExitZero host → (result.field "status").isStr "pass" = true
  artifact : ∃ path hex, result.field "artifact_path" = .str path ∧
    result.field "artifact_digest" = digestRecord hex

variable {tools host}

lemma item_eq_ok {d : Data} {key x} (h : item d key = .ok x) : d.field key = x := by
  rw [item] at h
  cases d with
  | dict members =>
    change orRaise .key (Data.lookup members key) = .ok x at h
    change (Data.lookup members key).getD .none = x
    cases hlookup : Data.lookup members key with
    | none =>
      rw [hlookup] at h
      cases h
    | some y =>
      rw [hlookup] at h
      cases h
      rfl
  | _ => cases h

lemma findPlan_id {registry planId plan} (h : findPlan registry planId = .ok (some plan)) :
    plan.field "plan_id" = .str planId := by
  obtain ⟨plans, -, h⟩ := bind_eq_ok.1 h
  exact Data.isStr_iff.1 (findBy_eq_some h).2

lemma resolveActions_forall₂ {registry profile ids actions}
    (h : resolveActions tools registry profile ids = .ok actions) :
    List.Forall₂ (fun id action => tools.eq (action.field "action_id") id = true) ids actions := by
  induction ids generalizing actions with
  | nil =>
    cases h
    exact .nil
  | cons id ids ih =>
    obtain ⟨registered, -, h⟩ := bind_eq_ok.1 h
    obtain ⟨found, hfound, h⟩ := bind_eq_ok.1 h
    cases found with
    | none => cases h
    | some action =>
      obtain ⟨safe, -, h⟩ := bind_eq_ok.1 h
      cases safe with
      | false => cases h
      | true =>
        obtain ⟨rest, hrest, h⟩ := bind_eq_ok.1 h
        cases h
        exact .cons (findBy_eq_some hfound).2 (ih hrest)

lemma resolveRunPlan_eq_ok {registry repo planId profile plan actions}
    (h : resolveRunPlan tools registry repo planId = .ok (profile, plan, actions)) :
    findPlan registry planId = .ok (some plan) ∧
      List.Forall₂ (fun id action => tools.eq (action.field "action_id") id = true)
        (plan.field "actions").elems actions := by
  obtain ⟨profiles, -, h⟩ := bind_eq_ok.1 h
  obtain ⟨found, -, h⟩ := bind_eq_ok.1 h
  cases found with
  | none => cases h
  | some profile =>
    obtain ⟨found, hplan, h⟩ := bind_eq_ok.1 h
    cases found with
    | none => cases h
    | some plan =>
      obtain ⟨value, hvalue, h⟩ := bind_eq_ok.1 h
      obtain ⟨ids, hids, h⟩ := bind_eq_ok.1 h
      obtain ⟨actions, hactions, h⟩ := bind_eq_ok.1 h
      split at h
      next => cases h
      next =>
        cases h
        rw [Data.elems_of_get hvalue hids]
        exact ⟨hplan, resolveActions_forall₂ hactions⟩

lemma executeAction_resultOf {outDir action ordinal fs result fs'}
    (h : executeAction tools host outDir action ordinal fs = .ok (result, fs')) :
    ResultOf tools host action result := by
  obtain ⟨actionId, hactionId, h⟩ := bind_eq_ok.1 h
  obtain ⟨argv, -, h⟩ := bind_eq_ok.1 h
  obtain ⟨argv, -, h⟩ := bind_eq_ok.1 h
  obtain ⟨timeout, -, h⟩ := bind_eq_ok.1 h
  obtain ⟨timeout, -, h⟩ := bind_eq_ok.1 h
  obtain ⟨⟨completed, fs₁⟩, hexecute, h⟩ := bind_eq_ok.1 h
  obtain ⟨fs₂, -, h⟩ := bind_eq_ok.1 h
  obtain ⟨hex, -, h⟩ := bind_eq_ok.1 h
  cases h
  refine ⟨?_, fun hzero => ?_, _, hex, rfl, rfl⟩
  · rw [item_eq_ok hactionId]
    rfl
  · have hcode := hzero _ _ _ _ _ hexecute
    show (Data.str (if completed.returncode = some 0 then "pass" else "fail")).isStr "pass" = true
    rw [if_pos hcode]
    rfl

lemma executeActions_forall₂ {outDir ordinal actions fs results fs'}
    (h : executeActions tools host outDir ordinal actions fs = .ok (results, fs')) :
    List.Forall₂ (ResultOf tools host) actions results := by
  induction actions generalizing ordinal fs results fs' with
  | nil =>
    cases h
    exact .nil
  | cons action actions ih =>
    obtain ⟨⟨result, fs₁⟩, hresult, h⟩ := bind_eq_ok.1 h
    obtain ⟨⟨rest, fs₂⟩, hrest, h⟩ := bind_eq_ok.1 h
    cases h
    exact .cons (executeAction_resultOf hresult) (ih hrest)

section
variable {args : Args} {registry : Data} {fs : FileSystem B} {issued : Issued B}

/-- What a receipt that was issued says: the plan and the results are those of the run, and
`receipt_integrity_verified` is added only where the plan declares it. -/
lemma commandRun_eq_ok (h : commandRun tools host args registry fs = .ok issued) :
    findPlan registry args.planId = .ok (some issued.outcome.plan) ∧
    (∃ actions,
      List.Forall₂ (fun id action => tools.eq (action.field "action_id") id = true)
        (issued.outcome.plan.field "actions").elems actions ∧
      List.Forall₂ (ResultOf tools host) actions issued.outcome.results) ∧
    ∃ digests claims verification,
      issued.receipt = issued.outcome.receipt host digests claims verification ∧
      (claims = issued.outcome.certifiedClaims (issued.outcome.plan.field "declared_claims").elems ∨
        DeclaresIntegrity registry args.planId) ∧
      ∃ fs₁ fs₂ fs₃ draft,
        writeJson tools host fs₁ (args.outDir ++ "/validation-run.json") (issued.outcome.record host) = .ok fs₂ ∧
        digests.runArtifact = host.relativePath fs₂ (args.outDir ++ "/validation-run.json") ∧
        writeJson tools host fs₂ (args.outDir ++ "/validation-receipt.json") draft = .ok fs₃ ∧
        writeJson tools host fs₃ (args.outDir ++ "/validation-receipt.json") issued.receipt = .ok issued.fs := by
  obtain ⟨⟨profile, plan, actions⟩, hresolve, h⟩ := bind_eq_ok.1 h
  obtain ⟨⟨results, fs₁⟩, hresults, h⟩ := bind_eq_ok.1 h
  obtain ⟨planId, -, h⟩ := bind_eq_ok.1 h
  obtain ⟨fs₂, hrecord, h⟩ := bind_eq_ok.1 h
  obtain ⟨value, hvalue, h⟩ := bind_eq_ok.1 h
  obtain ⟨declared, hdeclared, h⟩ := bind_eq_ok.1 h
  obtain ⟨run, -, h⟩ := bind_eq_ok.1 h
  obtain ⟨planDigest, -, h⟩ := bind_eq_ok.1 h
  obtain ⟨projection, -, h⟩ := bind_eq_ok.1 h
  obtain ⟨policy, -, h⟩ := bind_eq_ok.1 h
  obtain ⟨registryDigest, -, h⟩ := bind_eq_ok.1 h
  obtain ⟨fs₃, hdraft, h⟩ := bind_eq_ok.1 h
  obtain ⟨shape, -, h⟩ := bind_eq_ok.1 h
  obtain ⟨integrity, -, h⟩ := bind_eq_ok.1 h
  obtain ⟨fs₄, hreceipt, h⟩ := bind_eq_ok.1 h
  cases h
  obtain ⟨hplan, hactions⟩ := resolveRunPlan_eq_ok hresolve
  have hclaims := Data.elems_of_get hvalue hdeclared
  refine ⟨hplan, ⟨actions, hactions, executeActions_forall₂ hresults⟩, _, _, _, rfl, ?_,
    fs₁, fs₂, fs₃, _, hrecord, rfl, hdraft, hreceipt⟩
  dsimp only
  rw [hclaims]
  split_ifs with hadded
  · rw [Bool.and_eq_true, List.any_eq_true] at hadded
    obtain ⟨-, claim, hclaim, his⟩ := hadded
    exact .inr ⟨plan, hplan, claim, hclaims ▸ hclaim, his⟩
  · exact .inl rfl

/-- A receipt certifies more than `non_production_only` only if its run passed, where every command exits
with 0 or the integrity of the receipt is no claim of the plan. -/
lemma pass_of_certifies (h : commandRun tools host args registry fs = .ok issued)
    (hcommands : AllExitZero host ∨ ¬DeclaresIntegrity registry args.planId)
    (hcertifies : Certifies issued.receipt) : issued.outcome.pass = true := by
  obtain ⟨-, ⟨actions, -, hresults⟩, digests, claims, verification, hreceipt, hclaims, -⟩ :=
    commandRun_eq_ok h
  rcases hcommands with hzero | hundeclared
  · refine List.all_eq_true.2 fun result hresult => ?_
    obtain ⟨action, -, hof⟩ := exists_mem_of_forall₂ hresults.flip hresult
    exact hof.status hzero
  · by_contra hpass
    obtain ⟨claim, hclaim, hother⟩ := hcertifies
    obtain rfl := hclaims.resolve_right hundeclared
    rw [hreceipt] at hclaim
    change claim ∈ issued.outcome.certifiedClaims _ at hclaim
    rw [Outcome.certifiedClaims, if_neg hpass] at hclaim
    obtain rfl := List.mem_singleton.1 (List.mem_of_mem_eraseP hclaim)
    cases hother

/-- The results of a passing run are those of the actions of its plan. -/
lemma passingRun_of_pass {record : Data} (h : commandRun tools host args registry fs = .ok issued)
    (hnames : NamesActions registry args.planId) (hpass : issued.outcome.pass = true)
    (hprofile : tools.eq (issued.receipt.field "profile_ref") (issued.receipt.field "profile_ref") = true)
    (hread : ReadBack tools (issued.outcome.record host) record) :
    PassingRun tools issued.receipt registry record := by
  obtain ⟨hplan, ⟨actions, hactions, hresults⟩, digests, claims, verification, hreceipt, -⟩ :=
    commandRun_eq_ok h
  have hplanRef : issued.receipt.field "plan_ref" = .str args.planId := by
    rw [hreceipt]
    exact findPlan_id hplan
  have hself : ∀ s : String, tools.eq (.str s) (.str s) = true := fun s => by
    rw [tools.eq_str]
    exact Data.isStr_iff.2 rfl
  have hread' : List.Forall₂ (fun result result' => ∀ key, Data.field result' key = Data.field result key)
      issued.outcome.results (record.field "action_results").elems := hread.results
  refine ⟨?_, ?_, ?_, ?_, fun id hid => ?_, fun id _ result' hresult' => ?_⟩
  · rw [hread.status]
    show (Data.str (if issued.outcome.pass then "pass" else "fail")).isStr "pass" = true
    rw [if_pos hpass]
    rfl
  · rw [hread.runRef, hreceipt]
    exact hself _
  · rw [hread.planRef, hplanRef]
    exact (findPlan_id hplan).symm ▸ hself args.planId
  · rw [hreceipt] at hprofile ⊢
    exact hread.profileRef hprofile
  · obtain ⟨plan, hfound, hid⟩ := hid
    rw [hplanRef, tools.words.str_str, hplan] at hfound
    cases hfound
    obtain ⟨action, haction, hsame⟩ := exists_mem_of_forall₂ hactions hid
    obtain ⟨result, hresult, hof⟩ := exists_mem_of_forall₂ hresults haction
    obtain ⟨result', hresult', hfields⟩ := exists_mem_of_forall₂ hread' hresult
    obtain ⟨s, hs⟩ := Option.isSome_iff_exists.1 (hnames _ hplan id hid)
    obtain rfl := Data.asStr_eq_some.1 hs
    -- the result has the text of the action's id, which is the text in the plan
    rw [tools.eq_str] at hsame
    refine ⟨result', hresult', ?_, ?_⟩
    · rw [hfields, hof.actionId, Data.isStr_iff.1 hsame, tools.words.str_str]
      exact hself s
    · rw [hfields]
      exact List.all_eq_true.1 hpass result hresult
  · obtain ⟨result, hresult, hfields⟩ := exists_mem_of_forall₂ hread'.flip hresult'.1
    obtain ⟨action, -, hof⟩ := exists_mem_of_forall₂ hresults.flip hresult
    obtain ⟨path, hex, hpath, hdigest⟩ := hof.artifact
    refine ⟨path, hex, (hfields _).trans hpath, ?_, outputDigest result, ?_, hpath, ?_⟩
    · rw [hfields, hdigest]
      simp [isDigest, digestRecord, Data.isDict, Data.members, Data.field, Data.lookup, Data.isStr]
    · rw [hreceipt]
      exact List.mem_map_of_mem hresult
    · show (((result.field "artifact_digest").field "algorithm").isStr "sha256" &&
        ((result.field "artifact_digest").field "digest").isStr hex) = true
      rw [hdigest]
      simp [digestRecord, Data.field, Data.lookup, Data.isStr]

/-- A receipt that `command_run` issued certifies a passing run as long as its record is kept, where every
command exits with 0 or the plan does not declare that the receipt is verified. -/
theorem certifiesPassingRun_of_issued {fs' : FileSystem B}
    (hrun : commandRun tools host args registry fs = .ok issued)
    (hnames : NamesActions registry args.planId)
    (hcommands : AllExitZero host ∨ ¬DeclaresIntegrity registry args.planId)
    (hkept : Kept tools host issued fs') : CertifiesPassingRun tools fs' issued.receipt registry := by
  intro _ hverified hcertifies
  obtain ⟨path, contents, record, hpath, -, hstored, hloads, hread⟩ := hkept
  have hpass := pass_of_certifies hrun hcommands hcertifies
  exact ⟨record, ⟨path, contents, hpath, hstored, hloads⟩,
    passingRun_of_pass hrun hnames hpass (hverified.eq_profileRef hpath) hread⟩

end
end

mutual
def textOf : Data → List Char
  | .none => "null".toList
  | .bool b => if b then "true".toList else "false".toList
  | .int n => (toString n).toList
  | .str s => '"' :: s.toList ++ ['"']
  | .other text _ => text.toList
  | .list xs => '[' :: textsOf xs ++ [']']
  | .dict members => '{' :: membersOf members ++ ['}']
def textsOf : List Data → List Char
  | [] => []
  | x :: xs => textOf x ++ ',' :: textsOf xs
def membersOf : List (Data × Data) → List Char
  | [] => []
  | (k, v) :: ms => textOf k ++ ':' :: textOf v ++ ',' :: membersOf ms
end

def checksum (text : List Char) : String :=
  toString (text.foldl (fun h c => (h * 257 + c.toNat) % 1000000000000000) 0 + 1000000000000000)

def plainTools : Tools Data where
  words := asciiWords
  eq a b :=
    match b with
    | .str s => a.isStr s
    | _ => textOf a = textOf b
  loads := .ok
  dumps := .ok
  canonical := .ok
  encode := .str
  sha256 contents := checksum (textOf contents)
  eq_str _ _ := rfl
  eq_right _ d' _ := by
    cases d' with
    | str s => exact Data.isStr_iff.2 rfl
    | _ => exact decide_eq_true rfl

/-- A host whose commands exit with the given code. -/
def exitingHost (code : Int) : Host Data where
  clock _ := "2026-01-01T00:00:00Z"
  execute fs _ _ := .ok (⟨some code, "", ""⟩, fs)
  write fs path contents :=
    .ok { fs with contents := fun p => if p = path then some (.ok contents) else fs.contents p }
  read fs path := (fs.contents path).getD (.error .value)
  relativePath _ path := path

/-- The action, the plan and the profile of the committed registry, with the fields that are read. -/
def dogfoodRegistry : Data :=
  .dict [
    (.str "actions", .list [.dict [
      (.str "action_id", .str "svf:action:sociosphere.validate-registry"), (.str "backend", .str "local"),
      (.str "shell", .bool false),
      (.str "argv", .list [.str "python3", .str "tools/validate_svf_registry.py", .str "--json"]),
      (.str "timeout_seconds", .int 60), (.str "side_effect_class", .str "artifact_write"),
      (.str "network_mode", .str "not_required"), (.str "credential_policy", .str "none")]]),
    (.str "plans", .list [.dict [
      (.str "plan_id", .str "svf:plan:sociosphere.registry-dogfood"),
      (.str "actions", .list [.str "svf:action:sociosphere.validate-registry"]),
      (.str "declared_claims", .list [.str "schema_conformant", .str "policy_boundary_preserved",
        .str "non_production_only", .str "artifact_integrity_verified",
        .str "receipt_integrity_verified"])]]),
    (.str "profiles", .list [.dict [
      (.str "profile_id", .str "svf:profile:sociosphere.dogfood"),
      (.str "repo", .str "SocioProphet/sociosphere"), (.str "mode", .str "blocking"),
      (.str "policy_ref", .str "svf:policy:sociosphere.local-readonly"),
      (.str "execution_backend", .str "local"),
      (.str "required_receipt_classes",
        .list [.str "receipt_integrity_verified", .str "schema_conformant"])]])]

def dogfoodArgs : Args where
  repo := "SocioProphet/sociosphere"
  planId := "svf:plan:sociosphere.registry-dogfood"
  changedPaths := []
  outDir := "artifacts/svf/run"
  registryPath := "registry/sovereign-validation-fabric.yaml"

def registryOnly : FileSystem Data where
  materializedPath path := .ok path
  contents path := if path = dogfoodArgs.registryPath then some (.ok dogfoodRegistry) else none

/-- The receipt is verified and certifies something. -/
def certified (issued : Issued Data) : Bool :=
  (commandVerifyReceipt plainTools issued.fs issued.receipt dogfoodRegistry).toOption.any List.isEmpty &&
    (issued.receipt.field "certified_claims").elems.any fun c => ! c.isStr "non_production_only"

lemma certified_iff {issued} : certified issued = true ↔
    Verified plainTools issued.fs issued.receipt dogfoodRegistry ∧ Certifies issued.receipt := by
  rw [certified, Bool.and_eq_true, List.any_eq_true, Verified]
  refine and_congr ?_ (by simp [Certifies])
  cases commandVerifyReceipt plainTools issued.fs issued.receipt dogfoodRegistry with
  | error e => simp [Except.toOption]
  | ok diagnostics => simp [Except.toOption]

/-- The record is read where `run_artifact` says. -/
def storedRecord (issued : Issued Data) : Option Data :=
  (issued.receipt.field "run_artifact").asStr.bind fun path =>
    (issued.fs.materializedPath path).toOption.bind fun resolved =>
      (issued.fs.contents resolved).bind Except.toOption

lemma storedRecord_of_storedRun {issued record} (h : StoredRun plainTools issued.fs issued.receipt record) :
    storedRecord issued = some record := by
  obtain ⟨path, contents, hpath, ⟨resolved, hresolved, hcontents⟩, hloads⟩ := h
  cases hloads
  rw [storedRecord, hpath]
  simp [Data.asStr, hresolved, hcontents, Except.toOption]

lemma exists_issued (code : Int) {P : Issued Data → Bool}
    (h : (commandRun plainTools (exitingHost code) dogfoodArgs dogfoodRegistry registryOnly).toOption.any P =
      true) : ∃ issued,
    commandRun plainTools (exitingHost code) dogfoodArgs dogfoodRegistry registryOnly = .ok issued ∧
      P issued = true := by
  cases hrun : commandRun plainTools (exitingHost code) dogfoodArgs dogfoodRegistry registryOnly with
  | error e =>
    rw [hrun] at h
    cases h
  | ok issued =>
    rw [hrun] at h
    exact ⟨issued, rfl, h⟩

lemma contents_writeJson {code fs path data fs'}
    (h : writeJson plainTools (exitingHost code) fs path data = .ok fs') (p : String) :
    fs'.contents p = if p = path then some (.ok data) else fs.contents p := by
  cases h
  rfl

/-- The host writes the record, and the receipt elsewhere. -/
lemma kept_exitingHost {code registry fs issued}
    (h : commandRun plainTools (exitingHost code) dogfoodArgs registry fs = .ok issued)
    (hpath : issued.fs.materializedPath "artifacts/svf/run/validation-run.json" =
      .ok "artifacts/svf/run/validation-run.json") : Kept plainTools (exitingHost code) issued issued.fs := by
  obtain ⟨-, -, digests, claims, verification, hreceipt, -, fs₁, fs₂, fs₃, draft, hrecord, hartifact, hdraft,
    hissued⟩ := commandRun_eq_ok h
  have hne : dogfoodArgs.outDir ++ "/validation-run.json" ≠ dogfoodArgs.outDir ++ "/validation-receipt.json" := by
    decide
  have hcontents : issued.fs.contents (dogfoodArgs.outDir ++ "/validation-run.json") =
      some (.ok (issued.outcome.record (exitingHost code))) := by
    rw [contents_writeJson hissued, if_neg hne, contents_writeJson hdraft, if_neg hne,
      contents_writeJson hrecord, if_pos rfl]
  refine ⟨dogfoodArgs.outDir ++ "/validation-run.json", _, _, ?_, rfl, ⟨_, hpath, hcontents⟩, rfl,
    rfl, rfl, rfl, id, List.forall₂_same.2 fun _ _ _ => rfl⟩
  rw [hreceipt]
  exact congrArg Data.str hartifact

/-- A run of the dogfood plan whose action passes: the receipt certifies all that the plan declares. -/
theorem dogfood_certified : ∃ issued,
    commandRun plainTools (exitingHost 0) dogfoodArgs dogfoodRegistry registryOnly = .ok issued ∧
      (Verified plainTools issued.fs issued.receipt dogfoodRegistry ∧ Certifies issued.receipt) ∧
      CertifiesPassingRun plainTools issued.fs issued.receipt dogfoodRegistry := by
  obtain ⟨issued, hrun, hissued⟩ := exists_issued 0 (P := fun issued => certified issued &&
    (issued.fs.materializedPath "artifacts/svf/run/validation-run.json").toOption =
      some "artifacts/svf/run/validation-run.json") (by decide +kernel)
  rw [Bool.and_eq_true, decide_eq_true_iff] at hissued
  refine ⟨issued, hrun, certified_iff.1 hissued.1, certifiesPassingRun_of_issued hrun ?_ (.inl ?_) ?_⟩
  · intro plan hplan action haction
    cases hplan
    obtain rfl := List.mem_singleton.1 haction
    rfl
  · intro fs argv timeout completed fs' hexecute
    cases hexecute
    rfl
  · refine kept_exitingHost hrun ?_
    cases hpath : issued.fs.materializedPath "artifacts/svf/run/validation-run.json" with
    | error e =>
      rw [hpath] at hissued
      cases hissued.2
    | ok path =>
      rw [hpath] at hissued
      exact congrArg Except.ok (Option.some.inj hissued.2)

/-- A run of the dogfood plan whose action fails leaves a receipt that certifies
`receipt_integrity_verified`. -/
theorem dogfood_not_certified : ∃ issued,
    commandRun plainTools (exitingHost 1) dogfoodArgs dogfoodRegistry registryOnly = .ok issued ∧
      ¬ CertifiesPassingRun plainTools issued.fs issued.receipt dogfoodRegistry := by
  obtain ⟨issued, hrun, hissued⟩ := exists_issued 1 (P := fun issued => certified issued &&
    (storedRecord issued).all fun record => ! (record.field "status").isStr "pass") (by decide +kernel)
  rw [Bool.and_eq_true] at hissued
  obtain ⟨hverified, hcertifies⟩ := certified_iff.1 hissued.1
  refine ⟨issued, hrun, fun h => ?_⟩
  obtain ⟨-, -, digests, claims, verification, hreceipt, -⟩ := commandRun_eq_ok hrun
  have hcarries : (Data.lookup issued.receipt.members "run_artifact").isSome = true := by
    rw [hreceipt]
    rfl
  obtain ⟨record, hstored, hpasses⟩ := h hcarries hverified hcertifies
  have hfails := hissued.2
  rw [storedRecord_of_storedRun hstored, Option.all_some, hpasses.status] at hfails
  cases hfails

end SocioWorkspace.Svf
