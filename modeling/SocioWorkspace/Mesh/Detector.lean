import SocioWorkspace.Lib.Basic
import SocioWorkspace.Lib.PyValue
import SocioWorkspace.Mesh.Threat

/-!
# The detector of the mesh threat

Model of `detect_mesh_threat` of `automation/detectors.py`: the published reports are read entry by
entry, a malformed entry is dropped, and the posture that `step` comes to is written to the state
file. The two files are read as JSON; conversions of decoded values are Python's.
-/

namespace SocioWorkspace.Mesh
open Python List Option

inductive File where
  | missing
  | unreadable
  | value (v : Value)

structure Beacon where
  kindClass : String := "deploy_regression"
  system : String := "mesh::threat-posture"
  condition : String
  fromLevel : String
  toLevel : String
  tier : String
  reasons : List String
  observedAt : String

def postureDoc (s : MeshThreatState) (tier : Option String) (actuation : Actuation)
    (updatedAt : String) : Dict :=
  .ofList [("level", .str s.level.text), ("calm_dwell", .int s.calmDwell),
    ("tier", tier.elim .null .str), ("actuation", .str actuation.text),
    ("updated_at", .str updatedAt)]

def zeroLit : FloatLit := ⟨['0', '.', '0'], rfl, rfl, rfl⟩

section
variable {F : Type} (py : FloatBuiltin F)

def readReport (r : Dict) : Except PyError (VantageReport F) := do
  let unreachable ← py.float ((r.get? "unreachable_fraction").getD (.float zeroLit))
  let anomalies ← py.int ((r.get? "anomalies_seen").getD (.int 0))
  return {
    vantage := py.str ((r.get? "vantage").getD (.str "?"))
    unreachableFraction := unreachable
    anomaliesSeen := anomalies
    partitionSuspected := ((r.get? "partition_suspected").getD (.bool false)).truthy }

/-- The loop over the entries: those that are no dict, or raise a `TypeError` or a `ValueError`, are
dropped. -/
def readReports : List Value → Except PyError (List (VantageReport F))
  | [] => .ok []
  | v :: vs =>
    match v.asDict with
    | none => readReports vs
    | some r =>
      match readReport py r with
      | .ok report => (report :: ·) <$> readReports vs
      | .error .type => readReports vs
      | .error .value => readReports vs
      | .error e => .error e

def reportsDoc : File → Option (Dict × List Value)
  | .value v => do
    let doc ← v.asDict
    let entries ← (doc.get? "reports").bind Value.asList
    if entries.isEmpty then none else some (doc, entries)
  | _ => none

/-- Python `int(doc.get("quorum", 3) or 3)`. -/
def readQuorum (doc : Dict) : Except PyError ℤ :=
  let v := (doc.get? "quorum").getD (.int 3)
  py.int (if v.truthy then v else .int 3)

def readPrior : File → Except PyError (String × ℤ)
  | .missing => .ok ("calm", 0)
  | .unreadable => .ok ("calm", 0)
  | .value v =>
    match v.asDict with
    | none => .error .attr
    | some prev =>
      match py.int ((prev.get? "calm_dwell").getD (.int 0)) with
      | .ok calmDwell => .ok (py.str ((prev.get? "level").getD (.str "calm")), calmDwell)
      | .error .type => .ok ("calm", 0)
      | .error .value => .ok ("calm", 0)
      | .error e => .error e

variable [LE F] [DecidableLE F] [Add F] [Div F] [Zero F] [One F] [OfNat F 2]
  (fixed2 : F → String) (updatedAt observedAt : String)

/-- The posture to write after a cycle, and the beacon of a change of the level. -/
def transition (policy : ThreatPolicy F) (reports : List (VantageReport F)) (prior : MeshThreatState)
    (quorum : ℤ) : Dict × List Beacon :=
  let new := (step fixed2 reports prior policy quorum).1
  let a := (step fixed2 reports prior policy quorum).2
  (postureDoc new a.applied a.actuation updatedAt,
    if new.level = prior.level then []
    else [{
      condition := if a.actuation = .autoEscalate
        then "threat ESCALATED — harder placement tier auto-applied"
        else "threat cleared — de-escalation applied (reviewed direction)"
      fromLevel := prior.level.text
      toLevel := new.level.text
      tier := new.level.text
      reasons := a.reasons
      observedAt := observedAt }])

/-- What the entries lead to: the posture to write and the beacons, or none if no entry is read. -/
def control (policy : ThreatPolicy F) (doc : Dict) (entries : List Value) (stateFile : File) :
    Except PyError (Option (Dict × List Beacon)) := do
  let quorum ← readQuorum py doc
  let reports ← readReports py entries
  if reports.isEmpty then return none
  else
    let prior ← readPrior py stateFile
    let level ← orRaise .value (Level.ofText prior.1)
    return some (transition fixed2 updatedAt observedAt policy reports ⟨level, prior.2⟩ quorum)

/-- Python `detect_mesh_threat`: the beacons or the exception, and the state file afterwards. -/
def detectMeshThreat (policy : Option (ThreatPolicy F)) (reportsFile stateFile : File) :
    Except PyError (List Beacon) × File :=
  match policy, reportsDoc reportsFile with
  | some policy, some (doc, entries) =>
    match control py fixed2 updatedAt observedAt policy doc entries stateFile with
    | .error e => (.error e, stateFile)
    | .ok none => (.ok [], stateFile)
    | .ok (some (posture, beacons)) => (.ok beacons, .value (.dict posture))
  | _, _ => (.ok [], stateFile)

end

section
variable {F : Type} {py : FloatBuiltin F}

def report? (py : FloatBuiltin F) (v : Value) : Option (VantageReport F) :=
  v.asDict.bind fun r => (readReport py r).toOption

def Crashes (py : FloatBuiltin F) (v : Value) : Prop :=
  ∃ r e, v.asDict = some r ∧ readReport py r = .error e ∧ e ≠ .type ∧ e ≠ .value

lemma readReports_cons (v : Value) (vs : List Value) :
    (¬Crashes py v ∧ readReports py (v :: vs) =
        (readReports py vs).map fun reports => (report? py v).toList ++ reports) ∨
      Crashes py v ∧ ∃ e, readReports py (v :: vs) = .error e := by
  have hid : ∀ x : Except PyError (List (VantageReport F)), x = x.map fun reports => [] ++ reports :=
    fun x => by cases x <;> rfl
  rw [readReports, report?]
  cases hr : v.asDict with
  | none =>
    refine .inl ⟨?_, hid _⟩
    rintro ⟨r, e, hr', -⟩
    rw [hr] at hr'
    cases hr'
  | some r =>
    have hcrash : ∀ {e}, readReport py r = .error e → (e = .type ∨ e = .value) → ¬Crashes py v := by
      rintro e he hcaught ⟨r', e', hr', he', hne⟩
      obtain rfl := some.inj (hr.symm.trans hr')
      obtain rfl := Except.error.inj (he.symm.trans he')
      exact hcaught.elim hne.1 hne.2
    simp only [bind_some]
    cases he : readReport py r with
    | ok report =>
      refine .inl ⟨?_, ?_⟩
      · rintro ⟨r', e', hr', he', -⟩
        obtain rfl := some.inj (hr.symm.trans hr')
        rw [he] at he'
        cases he'
      · cases readReports py vs <;> rfl
    | error e =>
      cases e with
      | type => exact .inl ⟨hcrash he (.inl rfl), hid _⟩
      | value => exact .inl ⟨hcrash he (.inr rfl), hid _⟩
      | key | attr | overflow | recursion => exact .inr ⟨⟨r, _, hr, he, nofun, nofun⟩, _, rfl⟩

lemma readReports_eq_ok {entries} (h : ∀ v ∈ entries, ¬Crashes py v) :
    readReports py entries = .ok (entries.filterMap (report? py)) := by
  induction entries with
  | nil => rfl
  | cons v vs ih =>
    rw [forall_mem_cons] at h
    cases @readReports_cons _ py v vs with
    | inr hcrash => exact absurd hcrash.1 h.1
    | inl hread =>
      rw [hread.2, ih h.2, filterMap_cons]
      cases report? py v <;> rfl

lemma readReports_eq_error {entries} (h : ∃ v ∈ entries, Crashes py v) :
    ∃ e, readReports py entries = .error e := by
  induction entries with
  | nil => simp at h
  | cons v vs ih =>
    cases @readReports_cons _ py v vs with
    | inr hcrash => exact hcrash.2
    | inl hread =>
      obtain ⟨w, hw, hcrash⟩ := h
      cases mem_cons.1 hw with
      | inl he => exact absurd (he ▸ hcrash) hread.1
      | inr hvs =>
        obtain ⟨e, he⟩ := ih ⟨w, hvs, hcrash⟩
        exact ⟨e, by rw [hread.2, he]; rfl⟩

/-- The state file says hostile, with the tier of the policy for it. -/
def PersistedHostile {F : Type} (policy : ThreatPolicy F) (file : File) : Prop :=
  ∃ d, file = .value (.dict d) ∧ d.get? "level" = some (.str "hostile") ∧
    d.get? "tier" = some (.str (policy.tierByLevel .hostile))

/-- The state file is missing, or as the detector writes it. -/
inductive Written : File → Prop
  | missing : Written .missing
  | posture (s : MeshThreatState) (tier : Option String) (actuation : Actuation)
      (updatedAt : String) : Written (.value (.dict (postureDoc s tier actuation updatedAt)))

variable {s : MeshThreatState} {tier : Option String} {actuation : Actuation} {updatedAt : String}

lemma postureDoc_get? {k v} :
    (postureDoc s tier actuation updatedAt).get? k = some v ↔
      (k, v) ∈ [("level", .str s.level.text), ("calm_dwell", .int s.calmDwell),
        ("tier", tier.elim .null .str), ("actuation", .str actuation.text),
        ("updated_at", .str updatedAt)] := by
  refine SortedMap.get?_ofList_eq_some ?_
  show ["level", "calm_dwell", "tier", "actuation", "updated_at"].Nodup
  decide

lemma postureDoc_level : (postureDoc s tier actuation updatedAt).get? "level" = some (.str s.level.text) :=
  postureDoc_get?.2 (by simp)

lemma postureDoc_calmDwell :
    (postureDoc s tier actuation updatedAt).get? "calm_dwell" = some (.int s.calmDwell) :=
  postureDoc_get?.2 (by simp)

lemma postureDoc_tier : (postureDoc s tier actuation updatedAt).get? "tier" = some (tier.elim .null .str) :=
  postureDoc_get?.2 (by simp)

end

section
variable {F : Type} {py : FloatBuiltin F} {doc : Dict} {entries : List Value} {quorum : ℤ}

lemma readQuorum_eq (hquorum : doc.get? "quorum" = some (.int quorum)) (hpos : 0 < quorum) :
    readQuorum py doc = .ok quorum := by
  have htruthy : (Value.int quorum).truthy = true := decide_eq_true hpos.ne'
  rw [readQuorum, hquorum, getD_some]
  simp only [htruthy, if_true, py.int_int]

lemma reportsDoc_eq (hreports : doc.get? "reports" = some (.list entries)) (hne : entries ≠ []) :
    reportsDoc (.value (.dict doc)) = some (doc, entries) := by
  simp [reportsDoc, hreports, hne]

lemma readPrior_written {file} (h : Written file) :
    ∃ (level : Level) (calmDwell : ℤ), readPrior py file = .ok (level.text, calmDwell) := by
  cases h with
  | missing => exact ⟨.calm, 0, rfl⟩
  | posture s tier actuation updatedAt =>
    refine ⟨s.level, s.calmDwell, ?_⟩
    rw [readPrior, Value.asDict_dict]
    simp only [postureDoc_calmDwell, postureDoc_level, getD_some, py.int_int, py.str_str]

variable [LE F] [DecidableLE F] [Add F] [Div F] [Zero F] [One F] [OfNat F 2]
  {fixed2 : F → String} {policy : ThreatPolicy F} {updatedAt observedAt : String}

variable {reports : List (VantageReport F)} {state : MeshThreatState}

lemma step_blind (hfew : reports.length < quorum) :
    (step fixed2 reports state policy quorum).1.level = .hostile := by
  have hraw : rawLevel (aggregateVantages reports quorum) policy = .hostile := by
    rw [aggregateVantages, aggregateWith, if_pos (.inl hfew)]
    exact rawLevel_blind rfl
  rw [step_state, hraw]
  simp only
  split_ifs with hup hdown
  · rfl
  · exact absurd hdown (not_lt.2 state.level.le_hostile)
  · exact absurd hdown (not_lt.2 state.level.le_hostile)
  · exact le_antisymm state.level.le_hostile (not_lt.1 hup)

lemma transition_blind (hfew : reports.length < quorum) : PersistedHostile policy
      (.value (.dict (transition fixed2 updatedAt observedAt policy reports state quorum).1)) := by
  have htier := @step_tier _ _ _ _ _ _ _ _ fixed2 reports state policy quorum
  have hlevel := @step_blind _ _ _ _ _ _ _ _ _ fixed2 policy reports state hfew
  rw [hlevel] at htier
  refine ⟨_, rfl, ?_, ?_⟩
  · rw [transition, postureDoc_level, hlevel]
    rfl
  · rw [transition, postureDoc_tier, htier]
    rfl

variable {file : File} (hreports : doc.get? "reports" = some (.list entries))
  (hquorum : doc.get? "quorum" = some (.int quorum)) (hpos : 0 < quorum)

include hreports hquorum hpos

lemma detect_blind (hprior : Written file) (hsafe : ∀ v ∈ entries, ¬Crashes py v)
    (hsome : ∃ v ∈ entries, (report? py v).isSome)
    (hfew : (entries.filterMap (report? py)).length < quorum) :
    PersistedHostile policy (detectMeshThreat py fixed2 updatedAt observedAt (some policy)
      (.value (.dict doc)) file).2 := by
  obtain ⟨v, hv, hreport⟩ := hsome
  obtain ⟨report, hreport⟩ := isSome_iff_exists.1 hreport
  have hne : (entries.filterMap (report? py)).isEmpty = false := by
    rw [isEmpty_eq_false_iff]
    exact ne_nil_of_mem (mem_filterMap.2 ⟨v, hv, hreport⟩)
  obtain ⟨level, calmDwell, hread⟩ := @readPrior_written _ py _ hprior
  have hcontrol : control py fixed2 updatedAt observedAt policy doc entries file = .ok (some
      (transition fixed2 updatedAt observedAt policy (entries.filterMap (report? py))
        ⟨level, calmDwell⟩ quorum)) := by
    rw [control, readQuorum_eq hquorum hpos, readReports_eq_ok hsafe, hread]
    simp only [bind, Except.bind, hne, Level.ofText_text, orRaise]
    rfl
  simp only [detectMeshThreat, reportsDoc_eq hreports (ne_nil_of_mem hv), hcontrol]
  exact transition_blind hfew

/-- Without a well-formed entry, or with an uncaught exception, the state file is left as it is. -/
lemma detect_unchanged (h : (∃ v ∈ entries, Crashes py v) ∨ ∀ v ∈ entries, report? py v = none) :
    (detectMeshThreat py fixed2 updatedAt observedAt (some policy) (.value (.dict doc)) file).2 =
      file := by
  by_cases hnil : entries = []
  · have hdoc : reportsDoc (.value (.dict doc)) = none := by
      simp [reportsDoc, hreports, hnil]
    simp only [detectMeshThreat, hdoc]
  · simp only [detectMeshThreat, reportsDoc_eq hreports hnil, control, @readQuorum_eq _ py _ _ hquorum hpos]
    by_cases hcrash : ∃ v ∈ entries, Crashes py v
    · obtain ⟨e, he⟩ := readReports_eq_error hcrash
      rw [he]
      rfl
    · have hnone := h.resolve_left hcrash
      push Not at hcrash
      rw [readReports_eq_ok hcrash, filterMap_eq_nil_iff.2 hnone]
      rfl

/-- With fewer reports than the quorum the posture is hostile just when some entry is well-formed and none
raises an uncaught exception, or it was hostile before. -/
theorem detect_hostile_iff (hprior : Written file)
    (hfew : (entries.filterMap (report? py)).length < quorum) :
    PersistedHostile policy (detectMeshThreat py fixed2 updatedAt observedAt (some policy)
      (.value (.dict doc)) file).2 ↔
      ((∃ v ∈ entries, (report? py v).isSome) ∧ ∀ v ∈ entries, ¬Crashes py v) ∨
        PersistedHostile policy file := by
  by_cases hseen : (∃ v ∈ entries, (report? py v).isSome) ∧ ∀ v ∈ entries, ¬Crashes py v
  · refine iff_of_true ?_ (.inl hseen)
    exact detect_blind hreports hquorum hpos hprior hseen.2 hseen.1 hfew
  · rw [or_iff_right hseen, detect_unchanged hreports hquorum hpos]
    by_cases hcrash : ∃ v ∈ entries, Crashes py v
    · exact .inl hcrash
    · refine .inr fun v hv => ?_
      push Not at hcrash
      cases hr : report? py v with
      | none => rfl
      | some report => exact absurd ⟨⟨v, hv, by rw [hr]; rfl⟩, hcrash⟩ hseen

end

def quorumOfThree (entries : List Value) : Dict :=
  .ofList [("reports", .list entries), ("quorum", .int 3)]

lemma quorumOfThree_get? {entries k v} :
    (quorumOfThree entries).get? k = some v ↔
      (k, v) ∈ [("reports", .list entries), ("quorum", .int 3)] := by
  refine SortedMap.get?_ofList_eq_some ?_
  show ["reports", "quorum"].Nodup
  decide

lemma report?_empty : (report? exactFloats (.dict .empty)).isSome = true := by decide +kernel

/-- One report of three is too few, and the posture becomes hostile. -/
theorem detect_hostile_iff_one : PersistedHostile declaredPolicy (detectMeshThreat exactFloats
    twoDecimals "t0" "t1" (some declaredPolicy)
      (.value (.dict (quorumOfThree [.dict .empty, .null]))) .missing).2 := by
  refine (detect_hostile_iff (quorumOfThree_get?.2 (mem_cons_self ..))
    (quorumOfThree_get?.2 (mem_cons_of_mem _ (mem_cons_self ..))) (by decide) .missing
    ?_).2 (.inl ⟨⟨_, mem_cons_self .., report?_empty⟩, ?_⟩)
  · decide +kernel
  · rintro v hv ⟨r, e, hr, he, -⟩
    cases mem_cons.1 hv with
    | inl h =>
      subst h
      obtain rfl := some.inj hr
      cases he
    | inr h =>
      obtain rfl := mem_singleton.1 h
      cases hr

def infinityLit : FloatLit := ⟨"Infinity".toList, rfl, rfl, rfl⟩

/-- An entry that is no report leaves the mesh without a posture, and so does an infinite count. -/
theorem unseen_not_hostile :
    detectMeshThreat exactFloats twoDecimals "t0" "t1" (some declaredPolicy)
      (.value (.dict (quorumOfThree [.str "down"]))) .missing = (.ok [], .missing) ∧
    detectMeshThreat exactFloats twoDecimals "t0" "t1" (some declaredPolicy)
      (.value (.dict (quorumOfThree
        [.dict .empty, .dict (.ofList [("anomalies_seen", .float infinityLit)])]))) .missing =
      (.error .overflow, .missing) := by
  constructor
  · rfl
  · rfl

end SocioWorkspace.Mesh
