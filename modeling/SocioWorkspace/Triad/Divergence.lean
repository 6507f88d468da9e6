import SocioWorkspace.Triad.Failback
import SocioWorkspace.Triad.Rotation

/-!
# The detector of a diverged master

Model of `detect_macro_triad_divergence` of `automation/detectors.py` with `writers_on_schedule` of
`automation/triad_rotation.py`. The check of the rotation can raise, and then nothing is emitted. The time of a
beacon, Python's conversions and `strptime` are parameters.
-/

namespace SocioWorkspace.Triad
open Python List Option SortedMap Value

/-- What the detector takes from elsewhere. `master` is the `str` of a master of the registry, `same` its
`==` with a decoded value, and `strptime` reads a time `…Z` as seconds. -/
structure DetectorEnv where
  receipts : Builtins
  int : IntBuiltin
  scalars : Scalars
  master : Data → String
  same : Value → Data → Bool
  strptime : String → Option ℚ
  now : String

inductive DetectError where
  | python (e : PyError)
  | rotation (e : RotationError)
deriving DecidableEq

section Rotation
variable (env : DetectorEnv)

/-- Python `_parse_iso_z(r.get("issued_at"))`. -/
def issuedTime (r : Dict) : Option ℚ := ((r.get? "issued_at").bind Value.asStr).bind env.strptime

/-- Python `scheduled_leader_at`. -/
def scheduledLeaderAt (s : RotationSchedule) (t : Option ℚ) : Except RotationError (Option Data) :=
  match t with
  | none => .ok none
  | some t => do
    let a ← s.atTime env.scalars (.fin t)
    return some a.leader

/-- Python `r.get("writer_principal")`. -/
def writerOf (r : Dict) : Value := (r.get? "writer_principal").getD .null

/-- What `writers_on_schedule` says of the writer of a receipt, where someone was to lead. -/
def compareWriter (s : RotationSchedule) (idx : ℕ) (writer : Value) (expected : Data) :
    Except DetectError (Option String) :=
  if expected.isNone then .ok none
  else if !writer.hashable then .error (.python .type)
  else if s.masters.any (env.same writer) && !env.same writer expected then
    .ok (some ("receipt[" ++ toString idx ++ "] writer " ++ env.receipts.str writer ++
      " wrote out of turn — scheduled leader was " ++ env.master expected))
  else .ok none

/-- What `writers_on_schedule` says of a receipt. -/
def outOfTurn (s : RotationSchedule) (m : Value × ℕ) : Except DetectError (Option String) :=
  match m.1.asDict with
  | none => .ok none
  | some r => do
    match ← (scheduledLeaderAt env s (issuedTime env r)).mapError .rotation with
    | none => return none
    | some expected => compareWriter env s m.2 (writerOf r) expected

/-- Python `writers_on_schedule`. -/
def writersOnSchedule (receipts : List Value) (s : RotationSchedule) :
    Except DetectError (List String) := do
  let found ← receipts.zipIdx.mapM (outOfTurn env s)
  return found.filterMap id

end Rotation

def SPLIT_BRAIN : String := "split-brain: no k3s master quorum -> no trusted failback target"

def OFF_SCHEDULE : String := "off-schedule writer: a master led out of its rotation turn"

/-- Python `_DEFAULT_INFRA_REPO`. -/
def DEFAULT_INFRA_REPO : String := "SocioProphet/prophet-platform"

def warrantless (system now : String) (detail : List (String × Value)) : Dict :=
  .ofList [
    ("kind_class", .str "deploy_regression"),
    ("system", .str system),
    ("detail", .dict (.ofList detail)),
    ("observed_at", .str now)]

/-- What the trail of an assessment says of a receipt that cannot vote. -/
def rejection (py : Builtins) (m : Value × ℕ) : Option String :=
  match lintReceipt py m.1 with
  | .error errors => some ("receipt[" ++ toString m.2 ++ "] rejected (" ++
      py.str ((rawCluster m.1).getD (.str "unknown")) ++ "): " ++ "; ".intercalate errors)
  | .ok receipt => receipt.koeId.map fun koe => receipt.cluster ++ ": quarantined (" ++ koe ++ ")"

def splitReasons (py : Builtins) (receipts : List Value) (quorum : ℤ) : List String :=
  receipts.zipIdx.filterMap (rejection py) ++
    (((count py receipts).byState.insertionSort fun m m' => m.1 ≤ m'.1).map fun m =>
      "state " ++ firstChars 19 m.1 ++ "… has " ++ toString m.2.length ++
        " vote(s) — short of quorum " ++ toString quorum) ++
    ["NO quorum: no state reached " ++ toString quorum ++
      " agreeing masters — no trusted failback target"]

def withRepo (repo : Value) (beacon : Dict) : Dict :=
  match (beacon.get? "proposal").bind (·.asDict) with
  | some proposal => beacon.insert "proposal" (.dict (proposal.insert "repo" repo))
  | none => beacon

section Detect
variable (env : DetectorEnv)

/-- Python `doc.get("repo") or _DEFAULT_INFRA_REPO`. -/
def repoOf (doc : Dict) : Value :=
  ((doc.get? "repo").filter (·.truthy)).getD (.str DEFAULT_INFRA_REPO)

/-- Python `int(doc.get("quorum", 2) or 2)`, and 2 after a `TypeError` or a `ValueError`. -/
def publishedQuorum (doc : Dict) : Except PyError ℤ :=
  let v := (doc.get? "quorum").getD (.int 2)
  match env.int.int (if v.truthy then v else .int 2) with
  | .ok quorum => .ok quorum
  | .error .type => .ok 2
  | .error .value => .ok 2
  | .error e => .error e

/-- The failbacks, or for want of any the beacon of a missing quorum. -/
def divergenceBeacons (repo : Value) (receipts : List Value) (quorum : ℤ) : List Dict :=
  let failbacks := (proposeStateFailback env.receipts (env.receipts.str repo) quorum "deploy_regression"
    "main" env.now receipts).map (withRepo repo)
  if failbacks.isEmpty then
    let assessment := assessTriad env.receipts receipts quorum
    if !assessment.quorumOk && decide (quorum ≤ receipts.length) then
      [warrantless (env.receipts.str repo ++ "::macro-triad") env.now [
        ("condition", .str SPLIT_BRAIN),
        ("sick", .list (assessment.sickClusters.map (·.cluster))),
        ("reasons", .list ((splitReasons env.receipts receipts quorum).map .str))]]
    else []
  else failbacks

/-- The beacon of writers out of turn. A schedule that is not there or cannot be loaded is not
checked. -/
def rotationBeacons (registry : Option Data) (repo : Value) (receipts : List Value) :
    Except DetectError (List Dict) :=
  match registry.bind fun doc => (loadSchedule env.scalars doc).toOption with
  | none => .ok []
  | some s => do
    let why ← writersOnSchedule env receipts s
    return if why.isEmpty then [] else
      [warrantless (env.receipts.str repo ++ "::macro-triad-rotation") env.now [
        ("condition", .str OFF_SCHEDULE), ("reasons", .list (why.map .str))]]

/-- The document and its receipts, if it has any. -/
def receiptsDoc (v : Value) : Option (Dict × List Value) := do
  let doc ← v.asDict
  let receipts ← (doc.get? "receipts").bind Value.asList
  if receipts.isEmpty then none else some (doc, receipts)

/-- Python `detect_macro_triad_divergence`, on the registry and the receipts as they were decoded. -/
def detectMacroTriadDivergence (registry : Option Data) (published : Option Value) :
    Except DetectError (List Dict) :=
  match published.bind receiptsDoc with
  | none => .ok []
  | some (doc, receipts) => do
    let quorum ← (publishedQuorum env doc).mapError .python
    let rotation ← rotationBeacons env registry (repoOf doc) receipts
    return divergenceBeacons env (repoOf doc) receipts quorum ++ rotation

end Detect

/-- The receipt is no dict or has no time, or there is a leader at its time that its writer can be compared
with. -/
def Placeable (env : DetectorEnv) (s : RotationSchedule) (raw : Value) : Prop :=
  ∀ r t, raw.asDict = some r → issuedTime env r = some t →
    ∃ a, s.atTime env.scalars (.fin t) = .ok a ∧ (a.leader.isNone = true ∨ (writerOf r).hashable = true)

section
variable {env : DetectorEnv} {s : RotationSchedule} {receipts : List Value}

lemma compareWriter_returns {idx writer expected} :
    (∃ found, compareWriter env s idx writer expected = .ok found) ↔
      expected.isNone = true ∨ writer.hashable = true := by
  rw [compareWriter]
  split_ifs with hnone hhash
  · exact iff_of_true ⟨_, rfl⟩ (.inl hnone)
  · refine iff_of_false (fun h => ?_) ?_
    · obtain ⟨found, h⟩ := h
      cases h
    · simp [hnone, Bool.not_eq_true' _ ▸ hhash]
  · exact iff_of_true ⟨_, rfl⟩ (.inr (by simpa using hhash))
  · exact iff_of_true ⟨_, rfl⟩ (.inr (by simpa using hhash))

lemma outOfTurn_returns (m : Value × ℕ) : (∃ found, outOfTurn env s m = .ok found) ↔ Placeable env s m.1 := by
  rw [outOfTurn, Placeable]
  cases hr : m.1.asDict with
  | none =>
    refine iff_of_true ⟨none, rfl⟩ ?_
    intro r t h
    cases h
  | some r =>
    cases ht : issuedTime env r with
    | none =>
      refine iff_of_true ⟨none, by simp only [ht]; rfl⟩ ?_
      intro r' t hr' ht'
      cases hr'
      rw [ht] at ht'
      cases ht'
    | some t =>
      have hleader : (∃ a, s.atTime env.scalars (.fin t) = .ok a ∧
          (a.leader.isNone = true ∨ (writerOf r).hashable = true)) ↔
          ∀ r' t', some r = some r' → issuedTime env r' = some t' →
            ∃ a, s.atTime env.scalars (.fin t') = .ok a ∧
              (a.leader.isNone = true ∨ (writerOf r').hashable = true) := by
        refine ⟨fun h r' t' hr' ht' => ?_, fun h => h r t rfl ht⟩
        cases hr'
        cases ht.symm.trans ht'
        exact h
      rw [← hleader]
      simp only [ht]
      refine bind_returns.trans ⟨fun h => ?_, fun h => ?_⟩
      · obtain ⟨leader, hleader, h⟩ := h
        obtain ⟨a, ha, hleader⟩ := bind_eq_ok.1 (mapError_eq_ok.1 hleader)
        cases hleader
        exact ⟨a, ha, compareWriter_returns.1 h⟩
      · obtain ⟨a, ha, h⟩ := h
        refine ⟨some a.leader, mapError_eq_ok.2 (bind_eq_ok.2 ⟨a, ha, rfl⟩), ?_⟩
        exact compareWriter_returns.2 h

lemma writersOnSchedule_returns :
    (∃ why, writersOnSchedule env receipts s = .ok why) ↔ ∀ raw ∈ receipts, Placeable env s raw := by
  rw [writersOnSchedule, bind_returns]
  refine Iff.trans ?_ ((mapM_returns (l := receipts.zipIdx) (f := outOfTurn env s)).trans ?_)
  · refine exists_congr fun found => ⟨fun h => h.1, fun h => ⟨h, _, rfl⟩⟩
  · simp only [outOfTurn_returns]
    refine ⟨fun h raw hraw => ?_, fun h m hm => ?_⟩
    · obtain ⟨idx, hidx⟩ := mem_iff_getElem?.1 hraw
      exact h (raw, idx) (mem_zipIdx_iff_getElem?.2 hidx)
    · exact h m.1 (mem_of_getElem? (mem_zipIdx_iff_getElem?.1 hm))

end

def detailField (beacon : Dict) (key : String) : Option Value :=
  ((beacon.get? "detail").bind (·.asDict)).bind (·.get? key)

def NamesSick (a : TriadAssessment) (beacon : Dict) : Prop :=
  ∃ sick ∈ a.sickClusters, detailField beacon "cluster" = some sick.cluster

def NamesMissingQuorum (beacon : Dict) : Prop :=
  detailField beacon "condition" = some (.str SPLIT_BRAIN)

/-- A sick master is on another commit than the canonical one, or without a canonical state there are
receipts enough for a quorum. -/
inductive Reportable (a : TriadAssessment) (quorum : ℤ) (receipts : List Value) : Prop where
  | failback {sick : SickCluster} {head : String} (hok : a.quorumOk = true) (hsick : sick ∈ a.sickClusters)
      (hhead : sick.headCommit = some head) (hempty : head ≠ "") (hother : a.canonicalCommit ≠ some head)
  | split (hok : a.quorumOk = false) (hlen : quorum ≤ receipts.length)

section
variable {env : DetectorEnv} {registry : Option Data} {repo : Value} {receipts : List Value}
variable {quorum : ℤ} {beacon : Dict} {detail : List (String × Value)}

lemma detailField_warrantless {system now key} :
    detailField (warrantless system now detail) key = (ofList detail).get? key := by
  have hdetail : (warrantless system now detail).get? "detail" = some (.dict (.ofList detail)) :=
    (get?_ofList_eq_some (by simp)).2 (by simp)
  rw [detailField, hdetail, bind_some, asDict_dict, bind_some]

lemma get?_detail_revertBeacon {kindClass system detector evidenceRef now proposal} :
    (revertBeacon kindClass system detector evidenceRef detail proposal now).get? "detail" =
      some (.dict (.ofList detail)) := by
  rw [revertBeacon]
  exact (get?_ofList_eq_some (by simp)).2 (by simp)

lemma detailField_withRepo {key} : detailField (withRepo repo beacon) key = detailField beacon key := by
  rw [withRepo]
  split
  · rw [detailField, get?_insert_of_ne (by decide), detailField]
  · rfl

lemma detailField_failbackBeacon {py repo kindClass base now head masters} {a sick} :
    detailField (failbackBeacon py repo quorum kindClass base now masters a sick head) "cluster" =
      some sick.cluster := by
  rw [detailField, failbackBeacon, get?_detail_revertBeacon, bind_some, asDict_dict, bind_some]
  exact (get?_ofList_eq_some (by simp)).2 (by simp)

lemma mem_failbacks {base} :
    let a := assessTriad env.receipts receipts quorum
    beacon ∈ (proposeStateFailback env.receipts (env.receipts.str repo) quorum "deploy_regression" base
        env.now receipts).map (withRepo repo) →
      a.quorumOk = true ∧ NamesSick a beacon ∧ Reportable a quorum receipts := by
  intro a h
  obtain ⟨b, hb, rfl⟩ := mem_map.1 h
  obtain ⟨hok, sick, hsick, head, hhead, hempty, hother, rfl⟩ := mem_proposeStateFailback.1 hb
  refine ⟨hok, ⟨sick, hsick, ?_⟩, .failback hok hsick hhead hempty hother⟩
  rw [detailField_withRepo]
  exact detailField_failbackBeacon

/-- The beacons name a sick master or the missing quorum, and there are some if there is anything to
report. -/
lemma divergenceBeacons_names (repo : Value) :
    (∃ b ∈ divergenceBeacons env repo receipts quorum,
      NamesSick (assessTriad env.receipts receipts quorum) b ∨ NamesMissingQuorum b) ↔
      Reportable (assessTriad env.receipts receipts quorum) quorum receipts := by
  rw [divergenceBeacons]
  extract_lets assessment
  split_ifs with hnone hsplit
  · obtain ⟨hok, hlen⟩ := Bool.and_eq_true_iff.1 hsplit
    have hreport := Reportable.split (a := assessment) (by simpa using hok) (of_decide_eq_true hlen)
    refine iff_of_true ⟨_, mem_singleton_self _, .inr ?_⟩ hreport
    rw [NamesMissingQuorum, detailField_warrantless]
    exact (get?_ofList_eq_some (by simp)).2 (by simp)
  · refine iff_of_false (fun h => ?_) fun h => ?_
    · obtain ⟨b, hb, -⟩ := h
      cases hb
    · cases h with
      | failback hok hsick hhead hempty hother =>
        obtain ⟨b, hb⟩ : ∃ b, b ∈ proposeStateFailback env.receipts (env.receipts.str repo) quorum
            "deploy_regression" "main" env.now receipts :=
          ⟨_, mem_proposeStateFailback.2 ⟨hok, _, hsick, _, hhead, hempty, hother, rfl⟩⟩
        exact ne_nil_of_mem hb (map_eq_nil_iff.1 (List.isEmpty_iff.1 hnone))
      | split hok hlen => exact hsplit (by simp [assessment, hok, hlen])
  · obtain ⟨b, hb⟩ := exists_mem_of_ne_nil _ (mt List.isEmpty_iff.2 hnone)
    obtain ⟨-, hnames, hreport⟩ := mem_failbacks hb
    exact iff_of_true ⟨b, hb, .inl hnames⟩ hreport

lemma rotationBeacons_silent {a beacons} (h : rotationBeacons env registry repo receipts = .ok beacons) :
    ∀ b ∈ beacons, ¬(NamesSick a b ∨ NamesMissingQuorum b) := by
  rw [rotationBeacons] at h
  cases hs : registry.bind fun doc => (loadSchedule env.scalars doc).toOption with
  | none =>
    rw [hs] at h
    cases h
    simp
  | some s =>
    rw [hs] at h
    obtain ⟨why, -, h⟩ := bind_eq_ok.1 h
    cases h
    intro b hb
    split_ifs at hb with hwhy
    · cases hb
    · cases mem_singleton.1 hb
      refine not_or.2 ⟨?_, ?_⟩
      · rintro ⟨sick, -, hcluster⟩
        rw [detailField_warrantless, get?_ofList_eq_none (by simp)] at hcluster
        cases hcluster
      · rw [NamesMissingQuorum, detailField_warrantless, (get?_ofList_eq_some (by simp)).2 (mem_cons_self ..)]
        decide

lemma rotationBeacons_returns (repo : Value) :
    (∃ beacons, rotationBeacons env registry repo receipts = .ok beacons) ↔
      ∀ reg s, registry = some reg → loadSchedule env.scalars reg = .ok s →
        ∀ raw ∈ receipts, Placeable env s raw := by
  have hschedule : ∀ s, (registry.bind fun doc => (loadSchedule env.scalars doc).toOption) = some s ↔
      ∃ reg, registry = some reg ∧ loadSchedule env.scalars reg = .ok s := by
    intro s
    refine bind_eq_some_iff.trans (exists_congr fun reg => and_congr_right fun _ => ?_)
    cases loadSchedule env.scalars reg with
    | error e | ok s' => simp [Except.toOption]
  rw [rotationBeacons]
  cases hs : registry.bind fun doc => (loadSchedule env.scalars doc).toOption with
  | none =>
    refine iff_of_true ⟨[], rfl⟩ fun reg s hreg hload => ?_
    cases hs.symm.trans ((hschedule s).2 ⟨reg, hreg, hload⟩)
  | some s =>
    rw [bind_returns]
    refine ⟨fun h reg s' hreg hload => ?_, fun h => ?_⟩
    · obtain ⟨why, hwhy, -⟩ := h
      cases hs.symm.trans ((hschedule s').2 ⟨reg, hreg, hload⟩)
      exact writersOnSchedule_returns.1 ⟨why, hwhy⟩
    · obtain ⟨reg, hreg, hload⟩ := (hschedule s).1 hs
      obtain ⟨why, hwhy⟩ := writersOnSchedule_returns.2 (h reg s hreg hload)
      exact ⟨why, hwhy, _, rfl⟩

lemma receiptsDoc_eq {v doc receipts} (hdoc : v.asDict = some doc)
    (hreceipts : (doc.get? "receipts").bind asList = some receipts) (hne : receipts ≠ []) :
    receiptsDoc v = some (doc, receipts) := by
  simp [receiptsDoc, hdoc, hreceipts, hne]

/-- The quorum of a document, and the default one where none can be read. -/
def quorumOf (env : DetectorEnv) (doc : Dict) : ℤ := (publishedQuorum env doc).toOption.getD 2

/-- A sick master is reported exactly if the quorum can be read, the receipts can be placed on a schedule
that is there, and there is something to fail back. -/
theorem sick_named_iff (env : DetectorEnv) (registry : Option Data) {v : Value} {doc : Dict}
    {receipts : List Value} (hdoc : v.asDict = some doc)
    (hreceipts : (doc.get? "receipts").bind Value.asList = some receipts) (hne : receipts ≠ []) :
    let a := assessTriad env.receipts receipts (quorumOf env doc)
    (a.sickClusters ≠ [] → ∃ beacons, detectMacroTriadDivergence env registry (some v) = .ok beacons ∧
        ∃ b ∈ beacons, NamesSick a b ∨ NamesMissingQuorum b) ↔
      a.sickClusters = [] ∨ ((∃ quorum, publishedQuorum env doc = .ok quorum) ∧
        (∀ reg s, registry = some reg → loadSchedule env.scalars reg = .ok s →
          ∀ raw ∈ receipts, Placeable env s raw) ∧
        Reportable a (quorumOf env doc) receipts) := by
  intro a
  rw [or_iff_not_imp_left]
  refine imp_congr_right fun _ => ?_
  have hquorum : ∀ quorum, publishedQuorum env doc = .ok quorum → quorumOf env doc = quorum :=
    fun quorum h => by rw [quorumOf, h]; rfl
  rw [detectMacroTriadDivergence, bind_some, receiptsDoc_eq hdoc hreceipts hne,
    ← divergenceBeacons_names (repoOf doc), ← rotationBeacons_returns (repoOf doc)]
  constructor
  · rintro ⟨beacons, hdetect, b, hb, hnames⟩
    obtain ⟨quorum, hq, hdetect⟩ := bind_eq_ok.1 hdetect
    obtain ⟨rotation, hrotation, hdetect⟩ := bind_eq_ok.1 hdetect
    have hq := mapError_eq_ok.1 hq
    cases hdetect
    refine ⟨⟨quorum, hq⟩, ⟨rotation, hrotation⟩, b, ?_, hnames⟩
    rw [hquorum quorum hq]
    exact (mem_append.1 hb).resolve_right fun hb => rotationBeacons_silent hrotation b hb hnames
  · rintro ⟨⟨quorum, hq⟩, ⟨rotation, hrotation⟩, b, hb, hnames⟩
    rw [hquorum quorum hq] at hb
    refine ⟨_, bind_eq_ok.2 ⟨quorum, mapError_eq_ok.2 hq, bind_eq_ok.2 ⟨rotation, hrotation, rfl⟩⟩, b, ?_,
      hnames⟩
    exact mem_append_left _ hb

def plainDetector : DetectorEnv where
  receipts := asciiText
  int := decimalInts
  scalars := plainScalars
  master _ := "master"
  same _ _ := false
  strptime _ := none
  now := "2026-01-01T00:00:00Z"

def twoAnd (third : Value) : List Value :=
  [soundReceipt "did:key:a" '0' "0000000", soundReceipt "did:key:b" '0' "0000000", third]

variable (receipts)

def published : Dict := .ofList [("receipts", .list receipts)]

lemma get?_published : ((published receipts).get? "receipts").bind asList = some receipts := by
  rw [published, (get?_ofList_eq_some (by simp)).2 (mem_singleton_self _), bind_some, asList_list]

lemma publishedQuorum_published : publishedQuorum plainDetector (published receipts) = .ok 2 := by
  rw [publishedQuorum, published, get?_ofList_eq_none (by simp)]
  rfl

end

/-- A third master on another commit is named. -/
theorem otherCommit_named :
    let receipts := twoAnd (soundReceipt "did:key:c" '1' "1111111")
    let a := assessTriad plainDetector.receipts receipts 2
    a.sickClusters ≠ [] ∧
      ∃ beacons, detectMacroTriadDivergence plainDetector none (some (.dict (published receipts))) =
        .ok beacons ∧ ∃ b ∈ beacons, NamesSick a b ∨ NamesMissingQuorum b := by
  intro receipts a
  obtain ⟨hok, hsick, hother⟩ : a.quorumOk = true ∧
      (∃ sick ∈ a.sickClusters, sick.headCommit = some "1111111") ∧
      a.canonicalCommit ≠ some "1111111" := by decide +kernel
  have h := sick_named_iff plainDetector none (asDict_dict _)
    (get?_published receipts) (cons_ne_nil _ _)
  obtain ⟨sick, hmem, hhead⟩ := hsick
  have hne : a.sickClusters ≠ [] := ne_nil_of_mem hmem
  refine ⟨hne, h.2 (.inr ⟨⟨2, publishedQuorum_published receipts⟩, ?_, ?_⟩) hne⟩
  · intro reg s hreg
    cases hreg
  · exact .failback hok hmem hhead (by decide) hother

/-- A malformed receipt beside two masters that agree is sick, and nothing is emitted. -/
theorem malformed_silent :
    let receipts := twoAnd .null
    (assessTriad asciiText receipts 2).sickClusters.map (·.cluster) = [.str "<receipt[2]>"] ∧
      detectMacroTriadDivergence plainDetector none (some (.dict (published receipts))) = .ok [] := by
  intro receipts
  obtain ⟨hsick, hnone⟩ : (assessTriad asciiText receipts 2).sickClusters.map (·.cluster) =
      [.str "<receipt[2]>"] ∧
      divergenceBeacons plainDetector (.str DEFAULT_INFRA_REPO) receipts 2 = [] := by decide +kernel
  have hrepo : repoOf (published receipts) = .str DEFAULT_INFRA_REPO := by
    rw [repoOf, published, get?_ofList_eq_none (by simp)]
    rfl
  have hread : receiptsDoc (.dict (published receipts)) = some (published receipts, receipts) :=
    receiptsDoc_eq (asDict_dict _) (get?_published receipts) (cons_ne_nil _ _)
  refine ⟨hsick, ?_⟩
  rw [detectMacroTriadDivergence, bind_some, hread]
  refine bind_eq_ok.2 ⟨2, ?_, bind_eq_ok.2 ⟨[], rfl, ?_⟩⟩
  · rw [publishedQuorum_published]
    rfl
  · rw [hrepo, hnone]
    rfl

end SocioWorkspace.Triad
