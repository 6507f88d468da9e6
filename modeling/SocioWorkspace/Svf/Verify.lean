import SocioWorkspace.Lib.PyData

/-!
# Receipts of the validation fabric

Model of `command_verify_receipt` in `tools/svf_runner.py`: a receipt is checked for its shape, and then every
digest in it is computed anew, from the registry and from the files that it names. None of them is compared with
what the run record says.

* Receipt, registry and run record are what `json.loads` and `yaml.safe_load` return.
* `Tools` is what the runner takes from Python: `==`, `json` and `hashlib.sha256` of the contents of a file.
* `FileSystem` has the paths that `materialized_path` resolves, and what stands there: nothing, or something
  that is read, which may raise.
-/

namespace SocioWorkspace.Svf
open Python

/-- What the runner takes from Python, for files with contents `B`. -/
structure Tools (B : Type) where
  words : Words
  /-- Python `==`. -/
  eq : Data → Data → Bool
  /-- Python `json.loads(path.read_text())`, once the contents are read. -/
  loads : B → Except PyError Data
  /-- Python `json.dumps(data, indent=2, sort_keys=True) + "\n"`. -/
  dumps : Data → Except PyError B
  /-- Python `canonical_json(data).encode()`. -/
  canonical : Data → Except PyError B
  /-- Python `text.encode()`. -/
  encode : String → B
  /-- Python `hashlib.sha256(contents).hexdigest()`. -/
  sha256 : B → String
  /-- Nothing but the same text is equal to a text. -/
  eq_str : ∀ d s, eq d (.str s) = d.isStr s
  /-- What is not equal to itself is equal to nothing. -/
  eq_right : ∀ d d', eq d d' = true → eq d' d' = true

structure FileSystem (B : Type) where
  /-- Python `materialized_path`. -/
  materializedPath : String → Except PyError String
  /-- What stands at a resolved path: nothing, or what reading it gives. -/
  contents : String → Option (Except PyError B)

/-- Python `d[key]` for a dict. -/
def item (d : Data) (key : String) : Except PyError Data := orRaise .key (Data.lookup d.members key)

/-- Python `RECEIPT_REQUIRED_FIELDS`, sorted. -/
def requiredFields : List String :=
  ["certified_claims", "input_digests", "issued_at", "non_certified_claims", "output_digests",
    "plan_digest", "plan_ref", "policy_digest", "policy_ref", "receipt_id", "run_digest", "run_ref",
    "schema_version", "verification"]

def claimScopes : List String :=
  ["schema_conformant", "fixtures_validated", "tests_passed", "semantic_roundtrip_preserved",
    "policy_boundary_preserved", "non_production_only", "runtime_smoke_passed",
    "artifact_integrity_verified", "receipt_integrity_verified"]

inductive Diagnostic where
  /-- `missing required field: {field}`. -/
  | missingField (field : String)
  /-- `schema_version must equal 1.0`. -/
  | schemaVersion
  /-- `{field} must start with {head}`. -/
  | mustStartWith (field head : String)
  /-- `{field} must contain algorithm and digest`. -/
  | mustContainDigest (field : String)
  /-- `{field} must be a nonempty named digest list`. -/
  | mustBeDigestList (field : String)
  /-- `{field} must be a nonempty list`. -/
  | mustBeList (field : String)
  /-- `certified_claims contains unsupported claim scope`. -/
  | unsupportedScope
  /-- `verification must be an object`. -/
  | verificationObject
  /-- `verification.status invalid`. -/
  | verificationStatus
  /-- `{field} required`. -/
  | required (field : String)
  /-- `run_artifact missing: {path}`, `input artifact missing: {path}`, `output artifact missing: {path}`. -/
  | artifactMissing (kind path : String)
  /-- `run_digest does not match run_artifact`. -/
  | runDigest
  /-- `{field} not registered: {ref}`. -/
  | notRegistered (field : String) (ref : Data)
  /-- `plan_digest does not match registered plan`. -/
  | planDigest
  /-- `policy_digest does not match registered policy projection`. -/
  | policyDigest
  /-- `certified claims outside plan scope: {claims}`. -/
  | outsidePlan (claims : List String)
  /-- `input digest mismatch: {name}`, `output digest mismatch: {name}`. -/
  | digestMismatch (kind : String) (name : Data)
  /-- `output digest path missing: {item}`, by its name if it is an object. -/
  | outputPathMissing (item : Data)

def check (c : Bool) (d : Diagnostic) : List Diagnostic := if c then [] else [d]

/-- Python `isinstance(d, str) and d`. -/
def isText (d : Data) : Bool := d.asStr.isSome && d.truthy

/-- Python `digest_record_valid`. -/
def digestRecordValid (record : Data) : Except PyError Bool :=
  if record.isDict then do
    let known ← (record.field "algorithm").isOneOf ["sha256", "sha512"]
    return known && (record.field "digest").asStr.any fun s => 16 ≤ s.length
  else .ok false

/-- The generator in `named_digest_list_valid`, which stops at the first item that is not valid. -/
def namedDigestsValid : List Data → Except PyError Bool
  | [] => .ok true
  | x :: xs => do
    let ok ← if x.isDict && isText (x.field "name") then digestRecordValid x else .ok false
    if ok then namedDigestsValid xs else return false

/-- Python `named_digest_list_valid`. -/
def namedDigestListValid (items : Data) : Except PyError Bool :=
  if items.isNonemptyList then namedDigestsValid items.elems else .ok false

/-- The generator in `any(claim not in CLAIM_SCOPES for claim in claims)`. -/
def anyUnsupported : List Data → Except PyError Bool
  | [] => .ok false
  | claim :: claims => do
    if ← claim.isOneOf claimScopes then anyUnsupported claims else return true

/-- Python `verify_receipt_shape`. -/
def verifyReceiptShape (receipt : Data) : Except PyError (List Diagnostic) := do
  let digests ← ["run_digest", "plan_digest", "policy_digest"].mapM fun field => do
    return check (← digestRecordValid (receipt.field field)) (.mustContainDigest field)
  let lists ← ["input_digests", "output_digests"].mapM fun field => do
    return check (← namedDigestListValid (receipt.field field)) (.mustBeDigestList field)
  let claims := receipt.field "certified_claims"
  let scopes ←
    if claims.isNonemptyList then do
      return check (! (← anyUnsupported claims.elems)) .unsupportedScope
    else .ok [.mustBeList "certified_claims"]
  let verification := receipt.field "verification"
  let status ←
    if verification.isDict then do
      let known ← (verification.field "status").isOneOf ["verified", "failed", "not_checked"]
      return check known .verificationStatus ++
        check (isText (verification.field "verifier")) (.required "verification.verifier") ++
        check (isText (verification.field "verified_at")) (.required "verification.verified_at")
    else .ok [.verificationObject]
  let missing := requiredFields.filter fun field => (Data.lookup receipt.members field).isNone
  return missing.map .missingField ++
    check ((receipt.field "schema_version").isStr "1.0") .schemaVersion ++
    ([("receipt_id", "svf:receipt:"), ("run_ref", "svf:run:"), ("plan_ref", "svf:plan:"),
      ("policy_ref", "svf:policy:")].flatMap fun (field, head) =>
        check ((receipt.field field).asStr.any fun s => head.toList.isPrefixOf s.toList)
          (.mustStartWith field head)) ++
    digests.flatten ++ lists.flatten ++ scopes ++
    check (receipt.field "non_certified_claims").isNonemptyList (.mustBeList "non_certified_claims") ++
    status ++ check (isText (receipt.field "issued_at")) (.required "issued_at")

section Integrity
variable {B : Type} (tools : Tools B)

/-- Python `digest == {"algorithm": "sha256", "digest": hex}`. -/
def isDigest (digest : Data) (hex : String) : Bool :=
  digest.isDict && digest.members.length == 2 && (digest.field "algorithm").isStr "sha256" &&
    (digest.field "digest").isStr hex

/-- Python `{"algorithm": item.get("algorithm"), "digest": item.get("digest")}`, against a digest. -/
def hasDigest (item : Data) (hex : String) : Bool :=
  (item.field "algorithm").isStr "sha256" && (item.field "digest").isStr hex

/-- A file that is named by its path is missing, or has another digest, or neither. -/
def checkFile (fs : FileSystem B) (path : String) (agrees : String → Bool) (missing : Diagnostic)
    (mismatch : Except PyError Diagnostic) : Except PyError (List Diagnostic) := do
  let resolved ← fs.materializedPath path
  match fs.contents resolved with
  | none => return [missing]
  | some read => do
    let contents ← read
    if agrees (tools.sha256 contents) then return [] else return [← mismatch]

/-- Python `for x in xs: if x.get(key) == wanted: return x`. -/
def findBy (key : String) (wanted : Data → Bool) : List Data → Except PyError (Option Data)
  | [] => .ok none
  | x :: xs => do
    let value ← x.get key
    if wanted value then return some x else findBy key wanted xs

/-- Python `profiles`, `actions` and `plans`. -/
def registered (registry : Data) (key : String) : Except PyError (List Data) := do
  match ← registry.get key (.list []) with
  | .list items => return items
  | _ => .error .value

/-- Python `find_plan`. -/
def findPlan (registry : Data) (planId : String) : Except PyError (Option Data) := do
  findBy "plan_id" (·.isStr planId) (← registered registry "plans")

/-- Python `policy_projection`. -/
def policyProjection (profile : Data) : Except PyError Data := do
  let classes ← profile.get "required_receipt_classes" (.list [])
  return .dict [
    (.str "policy_ref", profile.field "policy_ref"), (.str "profile_id", profile.field "profile_id"),
    (.str "repo", profile.field "repo"), (.str "mode", profile.field "mode"),
    (.str "execution_backend", profile.field "execution_backend"),
    (.str "required_receipt_classes", classes)]

/-- Python `digest_data(data)`, without the name of the algorithm. -/
def digestData (data : Data) : Except PyError String := do
  return tools.sha256 (← tools.canonical data)

/-- Python `set(xs)`: every member can be hashed. -/
def toSet (xs : List Data) : Except PyError (List Data) :=
  if xs.all Data.hashable then .ok xs else .error .type

def planDiagnostics (receipt : Data) (plan : Option Data) : Except PyError (List Diagnostic) :=
  match plan with
  | none => .ok [.notRegistered "plan_ref" (receipt.field "plan_ref")]
  | some plan => do
    return check (isDigest (receipt.field "plan_digest") (← digestData tools plan)) .planDigest

def profileDiagnostics (receipt registry : Data) : Except PyError (List Diagnostic) := do
  let ref := receipt.field "profile_ref"
  match ← findBy "profile_id" (tools.eq · ref) (← registered registry "profiles") with
  | none => return [.notRegistered "profile_ref" ref]
  | some profile => do
    let hex ← digestData tools (← policyProjection profile)
    return check (isDigest (receipt.field "policy_digest") hex) .policyDigest

def claimDiagnostics (receipt : Data) (plan : Option Data) : Except PyError (List Diagnostic) := do
  let declared ← match plan with
    | none => .ok []
    | some plan => do
      let claims ← plan.get "declared_claims" (.list [])
      toSet (← claims.iterate)
  let certified ← match receipt.field "certified_claims" with
    | .list claims => toSet claims
    | _ => .ok []
  let unsupported := (certified.filterMap Data.asStr).filter fun c => ! declared.any (·.isStr c)
  return if unsupported.isEmpty then [] else [.outsidePlan (unsupported.dedup.insertionSort (· ≤ ·))]

def inputDiagnostics (fs : FileSystem B) (x : Data) : Except PyError (List Diagnostic) :=
  match x.field "path" with
  | .str path =>
    checkFile tools fs path (hasDigest x) (.artifactMissing "input" path) do
      return .digestMismatch "input" (← item x "name")
  | _ => .ok []

def outputDiagnostics (fs : FileSystem B) (x : Data) : Except PyError (List Diagnostic) :=
  match x.field "path" with
  | .str path =>
    checkFile tools fs path (hasDigest x) (.artifactMissing "output" path) do
      return .digestMismatch "output" (← item x "name")
  | _ => .ok [.outputPathMissing x]

/-- Python `for x in receipt.get(key, [])`. -/
def digestItems (receipt : Data) (key : String) : Except PyError (List Data) := do
  (← receipt.get key (.list [])).iterate

/-- Python `verify_receipt_integrity`. -/
def verifyReceiptIntegrity (fs : FileSystem B) (receipt registry : Data) :
    Except PyError (List Diagnostic) :=
  match receipt.field "run_artifact" with
  | .str runArtifact => do
    let run ← checkFile tools fs runArtifact (isDigest (receipt.field "run_digest"))
      (.artifactMissing "run_artifact" runArtifact) (.ok .runDigest)
    let plan ← findPlan registry (tools.words.str (receipt.field "plan_ref"))
    let planned ← planDiagnostics tools receipt plan
    let profiled ← profileDiagnostics tools receipt registry
    let claims ← claimDiagnostics receipt plan
    let inputs ← (← digestItems receipt "input_digests").mapM (inputDiagnostics tools fs)
    let outputs ← (← digestItems receipt "output_digests").mapM (outputDiagnostics tools fs)
    return run ++ planned ++ profiled ++ claims ++ inputs.flatten ++ outputs.flatten
  -- committed fixtures without an artifact have their shape checked only
  | _ => .ok []

/-- Python `command_verify_receipt`, with `diagnostics`. -/
def commandVerifyReceipt (fs : FileSystem B) (receipt registry : Data) :
    Except PyError (List Diagnostic) :=
  if receipt.isDict = false ∨ registry.isDict = false then .error .value
  else do
    let shape ← verifyReceiptShape receipt
    if shape.isEmpty then verifyReceiptIntegrity tools fs receipt registry else return shape

/-- The status of `command_verify_receipt` is `pass`. -/
def Verified (fs : FileSystem B) (receipt registry : Data) : Prop :=
  commandVerifyReceipt tools fs receipt registry = .ok []

end Integrity

lemma findBy_eq_some {key wanted xs x} (h : findBy key wanted xs = .ok (some x)) :
    x ∈ xs ∧ wanted (x.field key) = true := by
  induction xs with
  | nil => cases h
  | cons y ys ih =>
    obtain ⟨value, hvalue, h⟩ := bind_eq_ok.1 h
    split at h
    next hwanted =>
      cases h
      rw [Data.get_eq_ok hvalue]
      exact ⟨List.mem_cons_self .., hwanted⟩
    next =>
      obtain ⟨hmem, hwanted⟩ := ih h
      exact ⟨List.mem_cons_of_mem _ hmem, hwanted⟩

section Bound
variable {B : Type} {tools : Tools B} {fs : FileSystem B} {receipt registry : Data}

def Stored (fs : FileSystem B) (path : String) (contents : B) : Prop :=
  ∃ resolved, fs.materializedPath path = .ok resolved ∧ fs.contents resolved = some (.ok contents)

lemma Verified.integrity (h : Verified tools fs receipt registry) :
    verifyReceiptIntegrity tools fs receipt registry = .ok [] := by
  rw [Verified, commandVerifyReceipt] at h
  split at h
  · cases h
  obtain ⟨shape, -, h⟩ := bind_eq_ok.1 h
  split at h
  next => exact h
  next hshape =>
    cases h
    exact absurd rfl hshape

/-- The profile of a verified receipt is found, so its reference is equal to itself. -/
lemma Verified.eq_profileRef (h : Verified tools fs receipt registry) {runArtifact}
    (hrun : receipt.field "run_artifact" = .str runArtifact) :
    tools.eq (receipt.field "profile_ref") (receipt.field "profile_ref") = true := by
  have h := h.integrity
  rw [verifyReceiptIntegrity, hrun] at h
  obtain ⟨run, -, h⟩ := bind_eq_ok.1 h
  obtain ⟨plan, -, h⟩ := bind_eq_ok.1 h
  obtain ⟨planned, -, h⟩ := bind_eq_ok.1 h
  obtain ⟨profiled, hprofiled, h⟩ := bind_eq_ok.1 h
  obtain ⟨claims, -, h⟩ := bind_eq_ok.1 h
  obtain ⟨inItems, -, h⟩ := bind_eq_ok.1 h
  obtain ⟨inputs, -, h⟩ := bind_eq_ok.1 h
  obtain ⟨outItems, -, h⟩ := bind_eq_ok.1 h
  obtain ⟨outputs, -, h⟩ := bind_eq_ok.1 h
  have hnil := Except.ok.inj h
  simp only [List.append_eq_nil_iff, and_assoc] at hnil
  obtain ⟨-, -, rfl, -⟩ := hnil
  obtain ⟨profiles, -, h⟩ := bind_eq_ok.1 hprofiled
  obtain ⟨found, hfound, h⟩ := bind_eq_ok.1 h
  cases found with
  | none => cases h
  | some profile => exact tools.eq_right _ _ (findBy_eq_some hfound).2

end Bound

section Certified
variable {B : Type} (tools : Tools B) (fs : FileSystem B) (receipt registry : Data)

/-- The receipt certifies a claim other than `non_production_only`. -/
def Certifies : Prop :=
  ∃ claim ∈ (receipt.field "certified_claims").elems, claim.isStr "non_production_only" = false

/-- The record that is stored at `run_artifact`. -/
def StoredRun (record : Data) : Prop :=
  ∃ path contents, receipt.field "run_artifact" = .str path ∧ Stored fs path contents ∧
    tools.loads contents = .ok record

def Planned (action : Data) : Prop :=
  ∃ plan, findPlan registry (tools.words.str (receipt.field "plan_ref")) = .ok (some plan) ∧
    action ∈ (plan.field "actions").elems

def PassingResult (record action result : Data) : Prop :=
  result ∈ (record.field "action_results").elems ∧
    tools.eq (result.field "action_id") action = true ∧ (result.field "status").isStr "pass" = true

def Covered (result : Data) : Prop :=
  ∃ path hex, result.field "artifact_path" = .str path ∧
    isDigest (result.field "artifact_digest") hex = true ∧
    ∃ x ∈ (receipt.field "output_digests").elems, x.field "path" = .str path ∧ hasDigest x hex = true

/-- The record is that of a passing run of the plan of the receipt, whose outputs cover every result of it. -/
structure PassingRun (record : Data) : Prop where
  status : (record.field "status").isStr "pass" = true
  runRef : tools.eq (record.field "run_ref") (receipt.field "run_ref") = true
  planRef : tools.eq (record.field "plan_ref") (receipt.field "plan_ref") = true
  profileRef : tools.eq (record.field "profile_ref") (receipt.field "profile_ref") = true
  results : ∀ action, Planned tools receipt registry action →
    ∃ result, PassingResult tools record action result
  covered : ∀ action, Planned tools receipt registry action →
    ∀ result, PassingResult tools record action result → Covered receipt result

/-- A verified receipt that certifies more than `non_production_only` certifies a passing run. -/
def CertifiesPassingRun : Prop :=
  (Data.lookup receipt.members "run_artifact").isSome = true → Verified tools fs receipt registry →
    Certifies receipt →
      ∃ record, StoredRun tools fs receipt record ∧ PassingRun tools receipt registry record

end Certified

end SocioWorkspace.Svf
