import SocioWorkspace.Ledger.Writers
import SocioWorkspace.Lib.PyData
import SocioWorkspace.Lib.PyFloat
import SocioWorkspace.Lib.PyJson

/-!
# The inclusion gate

Model of `decide_inclusion`, `authorize_inclusion` and `gate_inclusion` of `gbrg/governance/gate.py`, on any
JSON object that is offered as an artifact. Every value is looked at as Python does, with the exception that
it raises. The validators do not stand before every look: `Unreadable` lists the looks that raise, and an
artifact whose fields are too deep to be copied is decided and not recorded.

How deep the interpreter's stack reaches is a parameter (`shows`, `copies`), as are the texts of numbers. The
tool of the registry is the process that it is run as.
-/

namespace SocioWorkspace.Ledger.Inclusion
open Python List Value

/-- Python `v in {…}` for a set of texts. -/
def isOneOf (v : Value) (texts : List String) : Except PyError Bool :=
  if v.hashable then .ok (texts.any v.isStr) else .error .type

/-- What the gate takes from the interpreter. `asdict` recurses twice a level, so it fails before `repr`
does. -/
structure Interpreter (F : Type) extends FloatOps F where
  repr : Value → String
  /-- `f"{x:.3f}"`. -/
  fixed3 : F → String
  reprFloat : F → String
  /-- The stack suffices for `repr`. -/
  shows : Value → Bool
  /-- The stack suffices for `asdict`. -/
  copies : Value → Bool
  shows_of_copies : ∀ v, copies v = true → shows v = true
  copies_scalar : ∀ v, v.hashable = true → copies v = true
  copies_flat : ∀ d : Dict, (∀ m ∈ d.members, m.2.hashable = true) → copies (.dict d) = true

section
variable {F : Type} (py : Interpreter F)

def Interpreter.text : PyText := ⟨py.str, py.repr⟩

/-- Python `repr(v)`. -/
def Interpreter.show (v : Value) : Except PyError String :=
  if py.shows v then .ok (py.repr v) else .error .recursion

def isFinite : Num → Bool
  | .int _ => true
  | .float f => ! isNaN f && ! isInfinite f

/-- Python `_validate_blast_radius`: nothing, or why the value is no blast radius. -/
def validateBlastRadius (value : Value) : Except PyError (Option String) :=
  match value.json with
  | .num n => do
    let v ← py.float value
    if ! isFinite n then
      return some ("blast_radius is not finite (" ++ (← py.show value) ++ ")")
    else if py.lt v (py.lit 0) || py.lt (py.lit 1) v then
      return some ("blast_radius out of range [0,1] (" ++ py.reprFloat v ++ ")")
    else return none
  | _ => return some ("blast_radius is non-numeric (" ++ (← py.show value) ++ ")")

/-- Python `_validate_dependents_count`; the count may be absent. -/
def validateDependentsCount (value : Value) : Except PyError (Option String) :=
  match value.json with
  | .null => return none
  | .num (.int n) =>
    if n < 0 then return some ("dependents_count is negative (" ++ (← py.show value) ++ ")")
    else return none
  | _ => return some ("dependents_count is not a non-negative int (" ++ (← py.show value) ++ ")")

def zeroFloat : FloatLit := ⟨['0', '.', '0'], by decide, by decide, by decide⟩

section
variable (artifact : Dict)

/-- The looks of `decide_inclusion` at the artifact that do not raise. -/
def statusOf : Value := (artifact.get? "status").getD (.str "")

def testedOf : Bool :=
  ((artifact.get? "test_coverage_reach").getD (.bool false)).truthy

def generatedOf : Bool := ((artifact.get? "generated").getD (.bool false)).truthy

def blastOf : Value := (artifact.get? "blast_radius").getD (.float zeroFloat)

def dependentsOf : Value := (artifact.get? "dependents_count").getD .null

end

/-- Python `level == "rejected" or status in {"FAILED", "BLOCKED"}`. -/
def isDead (level status : Value) : Except PyError Bool :=
  if level.isStr "rejected" then .ok true else isOneOf status ["FAILED", "BLOCKED"]

def proposeDead (level status : Value) : Except PyError Proposal := do
  return {
    verdict := .exclude
    priority := "n/a"
    reason := "rejected/dead cell (epistemicLevel=" ++ (← py.show level) ++ ", status=" ++
      (← py.show status) ++ ") — no warrant to review" }

/-- Python `_validate_blast_radius(…) or _validate_dependents_count(…)`. -/
def unverifiable (artifact : Dict) : Except PyError (Option String) := do
  match ← validateBlastRadius py (blastOf artifact) with
  | some reason => return some reason
  | none => validateDependentsCount py (dependentsOf artifact)

/-- Python `BLAST_INCLUDE_FLOOR`. -/
def BLAST_INCLUDE_FLOOR : ℚ := 1 / 5
/-- Python `BLAST_HIGH_RISK`. -/
def BLAST_HIGH_RISK : ℚ := 3 / 5

def boolText (b : Bool) : String := if b then "True" else "False"

def proposeBy (blast : F) (weakEvidence : Bool) (artifact : Dict) (level : Value) :
    Except PyError Proposal := do
  if py.le (py.lit BLAST_HIGH_RISK) blast && weakEvidence then
    return {
      verdict := .include
      priority := "high"
      reason := "high blast_radius=" ++ py.fixed3 blast ++
        " with weak evidence (test_coverage_reach=" ++ boolText (testedOf artifact) ++
        ", epistemicLevel=" ++ (← py.show level) ++ ") — must be reviewed" }
  else if py.le (py.lit BLAST_INCLUDE_FLOOR) blast then
    return {
      verdict := .include
      priority := if generatedOf artifact then "deprioritized" else "normal"
      reason := "blast_radius=" ++ py.fixed3 blast ++ " at/above inclusion floor 0.2" ++
        if generatedOf artifact then " (generated/codegen — deprioritized)" else "" }
  else
    return {
      verdict := .exclude
      priority := "n/a"
      reason := "low blast_radius=" ++ py.fixed3 blast ++
        " below inclusion floor 0.2 — not review-worthy" }

/-- The end of `decide_inclusion`, for a live cell with valid numbers. -/
def proposeLive (artifact : Dict) (level : Value) : Except PyError Proposal := do
  let blast ← (if (blastOf artifact).truthy then py.float (blastOf artifact) else .ok (py.lit 0))
  let weakEvidence ← (if testedOf artifact then
    isOneOf level ["speculative", "synthetic", "empirical"] else .ok true)
  proposeBy py blast weakEvidence artifact level

def proposeAlive (artifact : Dict) (level : Value) : Except PyError Proposal := do
  match ← unverifiable py artifact with
  | some reason => return {
      verdict := .include
      priority := "high"
      reason := "unverifiable artifact → included for review (" ++ reason ++ ")" }
  | none => proposeLive py artifact level

/-- Python `decide_inclusion`. -/
def decideInclusion (artifact : Dict) : Except PyError Proposal := do
  let level ← (epistemicLevelOf artifact).mapError fun _ => PyError.attr
  if ← isDead level (statusOf artifact) then proposeDead py level (statusOf artifact)
  else proposeAlive py artifact level

/-- How the tool of the registry ends. What is blank or no JSON is no document. -/
inductive ProcessOutcome where
  | failed (error : String)
  | exited (returncode : Int) (stdout : Option Value) (stderr : String)

def exitVerdict (returncode : Int) : AuthorityVerdict :=
  if returncode = 0 then .allow else if returncode = 3 then .requireReview else .deny

def noPayload (returncode : Int) (stderr : String) : Dict :=
  .ofList [("verdict", .str (exitVerdict returncode).text),
    ("reason_code", .str "no_decision_payload"), ("receipt_hash", .null),
    ("exit_code", .int returncode), ("stderr", .str (.ofList (strip stderr.toList)))]

def invocationFailed (error : String) : Dict :=
  .ofList [("verdict", .str "deny"), ("reason_code", .str "authorize_invocation_failed"),
    ("error", .str error), ("receipt_hash", .null)]

def agreed (exit : AuthorityVerdict) (payload : Value) : AuthorityVerdict :=
  if exit = .deny ∨ payload.isStr "deny" then .deny
  else if payload.isStr exit.text then exit
  else .deny

/-- The end of `authorize_inclusion`: the verdicts are put into a set. -/
def judge (returncode : Int) (raw : Dict) : Except PyError (AuthorityVerdict × Dict) :=
  let payload := (raw.get? "verdict").getD (.str (exitVerdict returncode).text)
  if payload.hashable then .ok (agreed (exitVerdict returncode) payload, raw) else .error .type

/-- Python `authorize_inclusion`. -/
def authorizeInclusion : ProcessOutcome → Except PyError (AuthorityVerdict × Dict)
  | .failed error => .ok (.deny, invocationFailed error)
  | .exited returncode stdout stderr => do
    let document := stdout.getD (.dict .empty)
    let raw ← (if document.truthy then orRaise .attr document.asDict
      else .ok (noPayload returncode stderr))
    judge returncode raw

inductive GateError where
  | python (e : PyError)
  | record (e : RecordError)

structure GateCall where
  process : ProcessOutcome
  agentRef : String
  ledgerPath : Option Path
  decidedAt : String

/-- What `asdict` copies. -/
def copied (d : Decision) : List Value := d.fields.map Prod.snd ++ [d.authority]

/-- Python `ledger.append(decision.to_dict(), …)`: the files after the decision is recorded. -/
def record {F : Type} (py : Interpreter F) (ledgerPath : Option Path) (disk : Disk)
    (decision : Decision) : Except GateError Disk :=
  if (copied decision).all py.copies then .ok (append disk decision.toDict ledgerPath)
  else .error (.python .recursion)

/-- Python `gate_inclusion`: the decision, and the files after it. -/
def gateInclusion {F : Type} (py : Interpreter F) (hexdigest : List Char → String) (call : GateCall)
    (persist : Bool) (disk : Disk) (artifact : Dict) : Except GateError (Decision × Disk) := do
  let proposal ← (decideInclusion py artifact).mapError .python
  let authority ← (authorizeInclusion call.process).mapError .python
  let decision ← (Ledger.gateInclusion hexdigest py.text {
    proofArtifact := artifact
    agentRef := call.agentRef
    proposal := proposal
    authorityVerdict := authority.1
    authorityRaw := authority.2
    decidedAt := call.decidedAt }).mapError .record
  let disk' ← (if persist then record py call.ledgerPath disk decision else .ok disk)
  return (decision, disk')

/-- The gate returns a decision, and the ledger has one more record, which is that decision. -/
def Decides (hexdigest : List Char → String) (call : GateCall) (disk : Disk) (artifact : Dict) :
    Prop :=
  ∃ decision disk', gateInclusion py hexdigest call true disk artifact = .ok (decision, disk') ∧
    readRaw disk' call.ledgerPath = readRaw disk call.ledgerPath ++ [decision.toDict]

def levelOf (artifact : Dict) : Value :=
  match (claimOf artifact).asDict with
  | some claim => (claim.get? "epistemicLevel").getD (.str "")
  | none => .str ""

structure Alive (artifact : Dict) : Prop where
  level : (levelOf artifact).isStr "rejected" = false
  status : ["FAILED", "BLOCKED"].any (statusOf artifact).isStr = false

def InUnit (value : Value) : Prop :=
  ∃ n v, value.json = .num n ∧ isFinite n = true ∧ py.float value = .ok v ∧
    py.lt v (py.lit 0) = false ∧ py.lt (py.lit 1) v = false

def CountOrNone (value : Value) : Prop := value.json = .null ∨ ∃ n : Int, value.json = .num (.int n) ∧ 0 ≤ n

inductive Unreadable (artifact : Dict) : Prop
  /-- The claim is something, but no object. -/
  | claim (h : (claimOf artifact).asDict = none)
  /-- The status is a list or an object, and looked up in a set. -/
  | status (rejected : (levelOf artifact).isStr "rejected" = false)
      (h : (statusOf artifact).hashable = false)
  | statusShown (rejected : (levelOf artifact).isStr "rejected" = true)
      (h : py.shows (statusOf artifact) = false)
  /-- The blast radius is an int that is too large for a float. -/
  | blast (alive : Alive artifact) (n : Int) (h : (blastOf artifact).json = .num (.int n))
      (large : py.ofInt n = none)
  | blastShown (alive : Alive artifact) (h : ∀ n, (blastOf artifact).json ≠ .num n)
      (shown : py.shows (blastOf artifact) = false)
  | dependentsShown (alive : Alive artifact) (blast : InUnit py (blastOf artifact))
      (h : ¬ CountOrNone (dependentsOf artifact)) (shown : py.shows (dependentsOf artifact) = false)
  /-- The level is a list or an object, and looked up in a set. -/
  | level (alive : Alive artifact) (blast : InUnit py (blastOf artifact))
      (count : CountOrNone (dependentsOf artifact)) (tested : testedOf artifact = true)
      (h : (levelOf artifact).hashable = false)

structure Copyable (artifact : Dict) : Prop where
  cellId : py.copies ((artifact.get? "cell_id").getD (.str "")) = true
  level : py.copies (levelOf artifact) = true
  proofId : py.copies ((artifact.get? "proofId").getD (.str "")) = true

/-- The registry's tool cannot be run, writes nothing, or writes an object whose verdict is no list and
no object and that can be copied. -/
def Answers : ProcessOutcome → Prop
  | .failed _ => True
  | .exited _ stdout _ => ∀ document, stdout = some document → document.truthy = true →
      ∃ raw, document.asDict = some raw ∧
        (∀ payload, raw.get? "verdict" = some payload → payload.hashable = true) ∧
        py.copies (.dict raw) = true

variable {py} {v : Value}

lemma show_returns : (∃ s, py.show v = .ok s) ↔ py.shows v = true := by
  unfold Interpreter.show
  cases py.shows v with
  | true => simp
  | false => simp

lemma shows_scalar (h : v.hashable = true) : py.shows v = true := py.shows_of_copies v (py.copies_scalar v h)

lemma isOneOf_eq_ok {texts b} : isOneOf v texts = .ok b ↔ v.hashable = true ∧ texts.any v.isStr = b := by
  unfold isOneOf
  cases v.hashable with
  | true => simp
  | false => simp

lemma float_of_float {f} (h : v.json = .num (.float f)) : py.float v = .ok (py.ofLit f) := by
  rw [FloatBuiltin.float, h]

lemma hashable_num {n} (h : v.json = .num n) : v.hashable = true := by
  rw [hashable, h]

variable {value : Value}

lemma validateBlastRadius_num {n v} (h : value.json = .num n)
    (hv : py.float value = .ok v) : ∃ r, validateBlastRadius py value = .ok r ∧
      (r = none ↔ isFinite n = true ∧ py.lt v (py.lit 0) = false ∧ py.lt (py.lit 1) v = false) := by
  obtain ⟨s, hs⟩ := show_returns.mpr (@shows_scalar _ py _ (hashable_num h))
  unfold validateBlastRadius
  rw [h]
  simp only [hv, hs, bind, Except.bind, pure, Except.pure]
  cases isFinite n with
  | false => simp
  | true =>
    cases py.lt v (py.lit 0) with
    | true => simp
    | false =>
      cases py.lt (py.lit 1) v with
      | true => simp
      | false => simp

lemma validateBlastRadius_eq_none : validateBlastRadius py value = .ok none ↔ InUnit py value := by
  constructor
  · intro h
    have number : ∃ n, value.json = .num n := by
      by_contra hn
      unfold validateBlastRadius at h
      split at h
      · next n hj => exact hn ⟨n, hj⟩
      · obtain ⟨s, -, e⟩ := bind_eq_ok.mp h
        cases e
    obtain ⟨n, hn⟩ := number
    cases hv : py.float value with
    | error e =>
      unfold validateBlastRadius at h
      rw [hn, hv] at h
      cases h
    | ok v =>
      obtain ⟨r, hr, valid⟩ := validateBlastRadius_num hn hv
      rw [h] at hr
      cases hr
      exact ⟨n, v, hn, (valid.mp rfl).1, hv, (valid.mp rfl).2⟩
  · rintro ⟨n, v, hn, hf, hv, valid⟩
    obtain ⟨r, hr, hnone⟩ := validateBlastRadius_num hn hv
    rw [hr, hnone.mpr ⟨hf, valid⟩]

/-- The blast radius is read unless it is an int that is too large or cannot be shown. -/
lemma validateBlastRadius_returns : (∃ r, validateBlastRadius py value = .ok r) ↔
    (∀ n, value.json = .num (.int n) → py.ofInt n ≠ none) ∧
      ((∀ n, value.json ≠ .num n) → py.shows value = true) := by
  cases hj : value.json with
  | num n =>
    cases n with
    | int n =>
      have hv : py.float value = orRaise .overflow (py.ofInt n) := by rw [FloatBuiltin.float, hj]
      cases ho : py.ofInt n with
      | none =>
        rw [ho] at hv
        refine iff_of_false ?_ fun h => h.1 n rfl ho
        rintro ⟨r, hr⟩
        unfold validateBlastRadius at hr
        rw [hj] at hr
        rw [hv] at hr
        cases hr
      | some v =>
        rw [ho] at hv
        obtain ⟨r, hr, -⟩ := validateBlastRadius_num hj hv
        refine iff_of_true ⟨r, hr⟩ ⟨?_, fun h => absurd rfl (h _)⟩
        rintro m e
        cases e
        rw [ho]
        exact Option.some_ne_none v
    | float f =>
      obtain ⟨r, hr, -⟩ := validateBlastRadius_num hj (float_of_float hj)
      exact iff_of_true ⟨r, hr⟩ ⟨fun m e => (nomatch e), fun h => absurd rfl (h _)⟩
  | null | bool | str | arr | obj =>
    unfold validateBlastRadius
    rw [hj]
    simp only [bind_returns, pure, Except.pure, Except.ok.injEq, exists_eq', and_true, show_returns]
    simp

lemma validateDependentsCount_eq_none : validateDependentsCount py value = .ok none ↔ CountOrNone value := by
  unfold validateDependentsCount CountOrNone
  split
  · next hj => simp [hj, pure, Except.pure]
  · next n hj =>
    rw [hj]
    by_cases hn : n < 0
    · simp [hn, bind_eq_ok, pure, Except.pure]
    · simp [hn, pure, Except.pure, not_lt.mp hn]
  · next hnull hint =>
    simp only [bind_eq_ok, pure, Except.pure, Except.ok.injEq, reduceCtorEq, and_false, exists_false,
      false_iff]
    rintro (h | ⟨n, h, -⟩)
    · exact hnull h
    · exact hint n h

lemma validateDependentsCount_returns :
    (∃ r, validateDependentsCount py value = .ok r) ↔
      (¬ CountOrNone value → py.shows value = true) := by
  by_cases hc : CountOrNone value
  · exact iff_of_true ⟨none, validateDependentsCount_eq_none.mpr hc⟩ fun h => absurd hc h
  · simp only [hc, not_false_eq_true, true_imp_iff, ← show_returns]
    unfold validateDependentsCount
    split
    · next hj => exact absurd (.inl hj) hc
    · next n hj =>
      rw [if_pos (not_le.mp fun h => hc (.inr ⟨n, hj, h⟩)), bind_returns]
      simp [pure, Except.pure]
    · rw [bind_returns]
      simp [pure, Except.pure]

variable {artifact : Dict}

lemma proposeDead_returns {level status} : (∃ p, proposeDead py level status = .ok p) ↔
    py.shows level = true ∧ py.shows status = true := by
  simp only [proposeDead, bind_returns, pure, Except.pure, Except.ok.injEq, exists_eq', and_true,
    ← show_returns, exists_and_right]

lemma proposeBy_returns {blast weakEvidence level} (hl : py.shows level = true) :
    ∃ p, proposeBy py blast weakEvidence artifact level = .ok p := by
  obtain ⟨s, hs⟩ := show_returns.mpr hl
  unfold proposeBy
  rw [hs]
  split
  · exact ⟨_, rfl⟩
  · split
    · exact ⟨_, rfl⟩
    · exact ⟨_, rfl⟩

lemma proposeLive_returns {level} (hl : py.shows level = true) (hb : InUnit py (blastOf artifact)) :
    (∃ p, proposeLive py artifact level = .ok p) ↔
      (testedOf artifact = true → level.hashable = true) := by
  obtain ⟨n, v, -, -, hv, -⟩ := hb
  have blast : ∃ b, (if (blastOf artifact).truthy = true then py.float (blastOf artifact)
      else .ok (py.lit 0)) = .ok b := by
    split_ifs
    · exact ⟨v, hv⟩
    · exact ⟨_, rfl⟩
  obtain ⟨b, hb⟩ := blast
  unfold proposeLive
  rw [hb, bind_returns]
  simp only [Except.ok.injEq, exists_eq_left', bind_returns, proposeBy_returns hl, and_true]
  cases testedOf artifact with
  | false => simp
  | true => simp [isOneOf_eq_ok]

lemma unverifiable_eq_none : unverifiable py artifact = .ok none ↔
    InUnit py (blastOf artifact) ∧ CountOrNone (dependentsOf artifact) := by
  rw [unverifiable, bind_eq_ok, ← validateBlastRadius_eq_none, ← @validateDependentsCount_eq_none _ py]
  constructor
  · rintro ⟨r, hr, h⟩
    cases r with
    | none => exact ⟨hr, h⟩
    | some reason => cases h
  · rintro ⟨hr, h⟩
    exact ⟨none, hr, h⟩

lemma unverifiable_returns : (∃ r, unverifiable py artifact = .ok r) ↔
    (∃ r, validateBlastRadius py (blastOf artifact) = .ok r) ∧
      (InUnit py (blastOf artifact) →
        ∃ r, validateDependentsCount py (dependentsOf artifact) = .ok r) := by
  rw [unverifiable, bind_returns, ← validateBlastRadius_eq_none]
  constructor
  · rintro ⟨r, hr, h⟩
    refine ⟨⟨r, hr⟩, fun hnone => ?_⟩
    rw [hr] at hnone
    cases hnone
    exact h
  · rintro ⟨⟨r, hr⟩, h⟩
    refine ⟨r, hr, ?_⟩
    cases r with
    | none => exact h hr
    | some reason => exact ⟨_, rfl⟩

lemma proposeAlive_returns {level} (hl : py.shows level = true) :
    (∃ p, proposeAlive py artifact level = .ok p) ↔ (∃ r, unverifiable py artifact = .ok r) ∧
      (InUnit py (blastOf artifact) → CountOrNone (dependentsOf artifact) →
        testedOf artifact = true → level.hashable = true) := by
  rw [proposeAlive, bind_returns]
  constructor
  · rintro ⟨r, hr, h⟩
    refine ⟨⟨r, hr⟩, fun hb hc => ?_⟩
    rw [unverifiable_eq_none.mpr ⟨hb, hc⟩] at hr
    cases hr
    exact (proposeLive_returns hl hb).mp h
  · rintro ⟨⟨r, hr⟩, h⟩
    refine ⟨r, hr, ?_⟩
    cases r with
    | some reason => exact ⟨_, rfl⟩
    | none =>
      obtain ⟨hb, hc⟩ := unverifiable_eq_none.mp hr
      exact (proposeLive_returns hl hb).mpr (h hb hc)

lemma proposeAlive_iff (hl : py.shows (levelOf artifact) = true) (alive : Alive artifact)
    (hclaim : (claimOf artifact).asDict ≠ none) (hstatus : (statusOf artifact).hashable = true) :
    (∃ p, proposeAlive py artifact (levelOf artifact) = .ok p) ↔ ¬ Unreadable py artifact := by
  rw [proposeAlive_returns hl, unverifiable_returns, validateBlastRadius_returns,
    validateDependentsCount_returns]
  constructor
  · rintro ⟨⟨⟨hint, hshow⟩, hcount⟩, hlevel⟩ u
    cases u with
    | claim h => exact hclaim h
    | status _ h => exact absurd hstatus (ne_true_of_eq_false h)
    | statusShown rejected => exact absurd alive.level (ne_false_of_eq_true rejected)
    | blast _ n h large => exact hint n h large
    | blastShown _ h shown => exact absurd (hshow h) (ne_true_of_eq_false shown)
    | dependentsShown _ hb h shown => exact absurd (hcount hb h) (ne_true_of_eq_false shown)
    | level _ hb hc tested h => exact absurd (hlevel hb hc tested) (ne_true_of_eq_false h)
  · intro readable
    refine ⟨⟨⟨fun n h large => readable (.blast alive n h large), fun h => ?_⟩, fun hb h => ?_⟩,
      fun hb hc tested => ?_⟩
    · by_contra shown
      exact readable (.blastShown alive h (eq_false_of_ne_true shown))
    · by_contra shown
      exact readable (.dependentsShown alive hb h (eq_false_of_ne_true shown))
    · by_contra h
      exact readable (.level alive hb hc tested (eq_false_of_ne_true h))

lemma decideInclusion_eq {claim} (h : (claimOf artifact).asDict = some claim) :
    decideInclusion py artifact = (do
      if ← isDead (levelOf artifact) (statusOf artifact) then
        proposeDead py (levelOf artifact) (statusOf artifact)
      else proposeAlive py artifact (levelOf artifact)) := by
  rw [decideInclusion, epistemicLevelOf, levelOf, h]
  rfl

lemma decideInclusion_returns (hl : py.shows (levelOf artifact) = true) :
    (∃ p, decideInclusion py artifact = .ok p) ↔ ¬ Unreadable py artifact := by
  cases hclaim : (claimOf artifact).asDict with
  | none =>
    refine iff_of_false ?_ fun h => h (.claim hclaim)
    rintro ⟨p, hp⟩
    rw [decideInclusion, epistemicLevelOf, hclaim] at hp
    cases hp
  | some claim =>
    have hne : (claimOf artifact).asDict ≠ none := by simp [hclaim]
    rw [decideInclusion_eq hclaim]
    cases hr : (levelOf artifact).isStr "rejected" with
    | true =>
      rw [isDead, if_pos hr]
      change (∃ p, proposeDead py (levelOf artifact) (statusOf artifact) = .ok p) ↔ _
      rw [proposeDead_returns]
      constructor
      · rintro ⟨-, hs⟩ u
        cases u with
        | claim h => exact hne h
        | status rejected => exact absurd hr (ne_true_of_eq_false rejected)
        | statusShown _ h => exact absurd hs (ne_true_of_eq_false h)
        | blast alive | blastShown alive | dependentsShown alive | level alive =>
          exact absurd hr (ne_true_of_eq_false alive.level)
      · intro readable
        refine ⟨hl, ?_⟩
        by_contra hs
        exact readable (.statusShown hr (eq_false_of_ne_true hs))
    | false =>
      rw [isDead, if_neg (ne_true_of_eq_false hr), isOneOf]
      cases hh : (statusOf artifact).hashable with
      | false =>
        refine iff_of_false ?_ fun h => h (.status hr hh)
        rintro ⟨p, hp⟩
        cases hp
      | true =>
        cases hd : ["FAILED", "BLOCKED"].any (statusOf artifact).isStr with
        | true =>
          refine iff_of_true (proposeDead_returns.mpr ⟨hl, shows_scalar hh⟩) fun u => ?_
          cases u with
          | claim h => exact hne h
          | status _ h => exact absurd hh (ne_true_of_eq_false h)
          | statusShown rejected => exact absurd rejected (ne_true_of_eq_false hr)
          | blast alive | blastShown alive | dependentsShown alive | level alive =>
            exact absurd hd (ne_true_of_eq_false alive.status)
        | false =>
          exact proposeAlive_iff hl ⟨hr, hd⟩ hne hh

lemma copies_ofList {members} (h : ∀ m ∈ members, m.2.hashable = true) :
    py.copies (.dict (.ofList members)) = true :=
  py.copies_flat _ fun m hm => h m (SortedMap.mem_of_mem_ofList hm)

lemma get?_noPayload {returncode stderr} : (noPayload returncode stderr).get? "verdict" =
    some (.str (exitVerdict returncode).text) := by
  refine (SortedMap.get?_ofList_eq_some ?_).mpr mem_cons_self
  change ["verdict", "reason_code", "receipt_hash", "exit_code", "stderr"].Nodup
  decide

lemma judge_returns {returncode raw}
    (h : ∀ payload, raw.get? "verdict" = some payload → payload.hashable = true) :
    ∃ verdict, judge returncode raw = .ok (verdict, raw) := by
  unfold judge
  cases hp : raw.get? "verdict" with
  | none => exact ⟨_, rfl⟩
  | some payload =>
    rw [Option.getD_some]
    rw [if_pos (h payload hp)]
    exact ⟨_, rfl⟩

lemma authorizeInclusion_returns {process} (h : Answers py process) :
    ∃ verdict raw, authorizeInclusion process = .ok (verdict, raw) ∧ py.copies (.dict raw) = true := by
  cases process with
  | failed error =>
    refine ⟨_, _, rfl, copies_ofList ?_⟩
    simp [hashable, str, null]
  | exited returncode stdout stderr =>
    rw [authorizeInclusion]
    by_cases ht : (stdout.getD (.dict .empty)).truthy = true
    · cases stdout with
      | none => cases ht
      | some document =>
        obtain ⟨raw, hraw, hverdict, hcopies⟩ := h document rfl ht
        obtain ⟨verdict, hv⟩ := @judge_returns returncode raw hverdict
        rw [if_pos ht, Option.getD_some, hraw]
        exact ⟨verdict, raw, hv, hcopies⟩
    · obtain ⟨verdict, hv⟩ := @judge_returns returncode (noPayload returncode stderr) (by
        intro payload hp
        rw [get?_noPayload] at hp
        cases hp
        rfl)
      rw [if_neg ht]
      refine ⟨verdict, _, hv, copies_ofList ?_⟩
      simp [hashable, str, null, int]

variable {hexdigest : List Char → String}

lemma copied_all {text q d}
    (h : Ledger.gateInclusion hexdigest text q = .ok d) : (copied d).all py.copies = true ↔
      Copyable py q.proofArtifact ∧ py.copies (.dict q.authorityRaw) = true := by
  obtain ⟨level, hlevel, hd⟩ := bind_eq_ok.mp h
  obtain ⟨c, -, rfl⟩ := Decision.sealed_eq_ok.mp hd
  have hl : level = levelOf q.proofArtifact := by
    unfold epistemicLevelOf at hlevel
    unfold levelOf
    cases hc : (claimOf q.proofArtifact).asDict with
    | none =>
      rw [hc] at hlevel
      cases hlevel
    | some claim =>
      rw [hc] at hlevel
      exact (Except.ok.inj hlevel).symm
  have text (s : String) : py.copies (.str s) = true := py.copies_scalar _ rfl
  have flag (b : Bool) : py.copies (.bool b) = true := py.copies_scalar _ rfl
  subst hl
  simp only [copied, Decision.fields, map_cons, map_nil, cons_append, nil_append,
    all_cons, all_nil, text, flag, Bool.true_and, Bool.and_true, Bool.and_eq_true]
  constructor
  · rintro ⟨hcell, hlevel, hproof, hraw⟩
    exact ⟨⟨hcell, hlevel, hproof⟩, hraw⟩
  · rintro ⟨⟨hcell, hlevel, hproof⟩, hraw⟩
    exact ⟨hcell, hlevel, hproof, hraw⟩

lemma claim_of_decideInclusion {p} (h : decideInclusion py artifact = .ok p) :
    ∃ claim, (claimOf artifact).asDict = some claim := by
  rw [decideInclusion, epistemicLevelOf] at h
  cases hc : (claimOf artifact).asDict with
  | none =>
    rw [hc] at h
    cases h
  | some claim => exact ⟨claim, rfl⟩

lemma decides_iff_proposal {call disk}
    (h : Answers py call.process) : Decides py hexdigest call disk artifact ↔
      (∃ p, decideInclusion py artifact = .ok p) ∧ Copyable py artifact := by
  obtain ⟨verdict, raw, hauth, hraw⟩ := authorizeInclusion_returns h
  unfold Decides gateInclusion
  rw [hauth]
  constructor
  · rintro ⟨decision, disk', hgate, -⟩
    obtain ⟨p, hp, hgate⟩ := bind_eq_ok.mp hgate
    obtain ⟨authority, -, hgate⟩ := bind_eq_ok.mp hgate
    obtain ⟨d, hd, hgate⟩ := bind_eq_ok.mp hgate
    obtain ⟨disk'', hrecord, -⟩ := bind_eq_ok.mp hgate
    rw [if_pos rfl, record] at hrecord
    by_cases hc : (copied d).all py.copies = true
    · exact ⟨⟨p, mapError_eq_ok.mp hp⟩, ((copied_all (mapError_eq_ok.mp hd)).mp hc).1⟩
    · rw [if_neg hc] at hrecord
      cases hrecord
  · rintro ⟨⟨p, hp⟩, copyable⟩
    obtain ⟨claim, hclaim⟩ := claim_of_decideInclusion hp
    obtain ⟨d, hd, -⟩ := gateInclusion_total hexdigest py.text (q := {
      proofArtifact := artifact
      agentRef := call.agentRef
      proposal := p
      authorityVerdict := verdict
      authorityRaw := raw
      decidedAt := call.decidedAt }) hclaim
    have hc := (copied_all hd).mpr ⟨copyable, hraw⟩
    refine ⟨d, append disk d.toDict call.ledgerPath, ?_, readRaw_append⟩
    refine bind_eq_ok.mpr ⟨p, mapError_eq_ok.mpr hp, bind_eq_ok.mpr ⟨(verdict, raw), rfl, ?_⟩⟩
    refine bind_eq_ok.mpr ⟨d, mapError_eq_ok.mpr hd, bind_eq_ok.mpr ⟨_, ?_, rfl⟩⟩
    rw [if_pos rfl, record, if_pos hc]

/-- An artifact is decided and recorded exactly if no look at it raises and what goes into the record can be
copied. -/
theorem decides_iff (py : Interpreter F) (hexdigest : List Char → String) (call : GateCall)
    (disk : Disk) (artifact : Dict) (answers : Answers py call.process) :
    Decides py hexdigest call disk artifact ↔
      ¬ Unreadable py artifact ∧ Copyable py artifact := by
  rw [decides_iff_proposal answers]
  refine and_congr_left fun copyable => ?_
  exact decideInclusion_returns (py.shows_of_copies _ copyable.level)

lemma not_decides_of_unreadable {call disk}
    (answers : Answers py call.process) (hl : py.shows (levelOf artifact) = true)
    (unreadable : Unreadable py artifact) : ¬ Decides py hexdigest call disk artifact := by
  rw [decides_iff_proposal answers, decideInclusion_returns hl]
  exact fun h => h.1 unreadable
end

mutual
def depth : Json → Nat
  | .arr elems => depthElems elems + 1
  | .obj members => depthMembers members + 1
  | _ => 0

def depthElems : List Json → Nat
  | [] => 0
  | x :: rest => max (depth x) (depthElems rest)

def depthMembers : List (String × Json) → Nat
  | [] => 0
  | (_, x) :: rest => max (depth x) (depthMembers rest)
end

lemma depth_scalar {v : Value} (h : v.hashable = true) : depth v.json = 0 := by
  unfold hashable at h
  cases hj : v.json with
  | arr elems | obj members => rw [hj] at h; cases h
  | null | bool | num | str => simp [depth]

lemma depthMembers_flat {members : List (String × Value)} (h : ∀ m ∈ members, m.2.hashable = true) :
    depthMembers (members.map fun m => (m.1, m.2.json)) = 0 := by
  induction members with
  | nil => simp [depthMembers]
  | cons m members ih =>
    rw [forall_mem_cons] at h
    rw [map_cons, depthMembers, depth_scalar h.1, ih h.2, Nat.max_self]

def threeDigits (q : ℚ) : String :=
  let n := (1000 * q + 1 / 2).floor.toNat
  toString (n / 1000) ++ "." ++ .ofList ((Nat.toDigits 10 (n % 1000)).leftpad 3 '0')

def plainInterpreter : Interpreter ℚ where
  toFloatOps := exactOps
  repr v := .ofList v.json.print
  fixed3 := threeDigits
  reprFloat := threeDigits
  shows v := depth v.json ≤ 980
  copies v := depth v.json ≤ 490
  shows_of_copies v h := decide_eq_true ((of_decide_eq_true h).trans (by decide))
  copies_scalar v h := by rw [depth_scalar h]; rfl
  copies_flat d h := by
    rw [Value.dict, depth, Dict.raw, depthMembers_flat h]
    rfl

def allowed : GateCall where
  process := .exited 0 (some (.dict (.ofList [("verdict", .str "allow"),
    ("reason_code", .str "authority_active"), ("receipt_hash", .str "sha256:00")]))) ""
  agentRef := "agent-registry://gbrg/scorer"
  ledgerPath := none
  decidedAt := "2026-01-01T00:00:00Z"

lemma allowed_answers : Answers plainInterpreter allowed.process := by
  rintro document e -
  cases e
  refine ⟨_, asDict_dict _, fun payload hp => ?_, by decide +kernel⟩
  have e : (SortedMap.ofList [("verdict", str "allow"),
    ("reason_code", .str "authority_active"), ("receipt_hash", .str "sha256:00")] : Dict).get?
      "verdict" = some (.str "allow") := by decide +kernel
  cases hp
  rfl

def emptyLedger : Disk := fun _ => some []

def speculative : Dict :=
  .ofList [("claim", .dict (.ofList [("epistemicLevel", .str "speculative")])), ("cell_id", .str "c")]

theorem decides_iff_speculative : Answers plainInterpreter allowed.process ∧
    Decides plainInterpreter String.ofList allowed emptyLedger speculative := by
  refine ⟨allowed_answers, (decides_iff _ _ _ _ _ allowed_answers).mpr ⟨fun u => ?_, ?_⟩⟩
  · have blast : (blastOf speculative).json = .num (.float zeroFloat) := by decide +kernel
    cases u with
    | claim h => exact absurd h (by decide +kernel)
    | status _ h => exact absurd h (by decide +kernel)
    | statusShown _ h => exact absurd h (by decide +kernel)
    | blast _ n h => rw [blast] at h; cases h
    | blastShown _ h => exact h _ blast
    | dependentsShown _ _ h => exact h (.inl (by decide +kernel))
    | level _ _ _ tested => exact absurd tested (by decide +kernel)
  · exact ⟨by decide +kernel, by decide +kernel, by decide +kernel⟩

def nested : Nat → Value
  | 0 => .list []
  | n + 1 => .list [nested n]

/-- None of these is recorded: a claim that is a text, a status or a level that is a list, a blast radius
too large for a float, and a cell id of five hundred levels. -/
theorem undecided_artifacts :
    ¬ Decides plainInterpreter String.ofList allowed emptyLedger (.ofList [("claim", .str "proved")]) ∧
    ¬ Decides plainInterpreter String.ofList allowed emptyLedger (.ofList [("status", .list [])]) ∧
    ¬ Decides plainInterpreter String.ofList allowed emptyLedger
      (.ofList [("blast_radius", .int (2 ^ 1024))]) ∧
    ¬ Decides plainInterpreter String.ofList allowed emptyLedger
      (.ofList [("claim", .dict (.ofList [("epistemicLevel", .list [])])),
        ("test_coverage_reach", .bool true)]) ∧
    ¬ Decides plainInterpreter String.ofList allowed emptyLedger (.ofList [("cell_id", nested 500)]) := by
  have zero : InUnit plainInterpreter (.float zeroFloat) :=
    ⟨_, 0, rfl, by decide, by decide +kernel, by decide +kernel, by decide +kernel⟩
  refine ⟨?_, ?_, ?_, ?_, ?_⟩
  · apply not_decides_of_unreadable allowed_answers (by decide +kernel)
    exact .claim (by decide +kernel)
  · apply not_decides_of_unreadable allowed_answers (by decide +kernel)
    exact .status (by decide +kernel) (by decide +kernel)
  · apply not_decides_of_unreadable allowed_answers (by decide +kernel)
    exact .blast ⟨by decide +kernel, by decide +kernel⟩ (2 ^ 1024) (by decide +kernel) (by decide +kernel)
  · apply not_decides_of_unreadable allowed_answers (by decide +kernel)
    exact .level ⟨by decide +kernel, by decide +kernel⟩ zero (.inl (by decide +kernel))
      (by decide +kernel) (by decide +kernel)
  · intro h
    exact absurd ((decides_iff_proposal allowed_answers).mp h).2.cellId (by decide +kernel)

end SocioWorkspace.Ledger.Inclusion
