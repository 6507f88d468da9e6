import SocioWorkspace.Respond.Composition

/-!
# Suppression

The suppressor of `automation/suppression.py` drops a beacon by its fingerprint, which is the class and the system
of the beacon, before `run_once` (`automation/responder.py`) groups the beacons by subject. What the beacon says is
not looked at, so a dropped beacon can be the one that fences its subject. A cycle whose beacons have fingerprints
of their own, none of them recorded within the cooldown, drops nothing, and its decisions are those of the whole
inbox.
-/

namespace SocioWorkspace.Respond
open Python List Except

section
variable {F B : Type} (env : Env F) (codec : JsonCodec B) (policy : ResponsePolicy F) (world : World)
variable (executes : Bool) (file : Option B) (beacons : List (Dict × FloatLit))

/-- An inbox of objects, each with the time at which the suppressor is asked for it. -/
def inboxOf : List (Value × FloatLit) := beacons.map fun m => (.dict m.1, m.2)

/-- The beacon is one of those that the cycle took from the inbox. -/
def Drained (inbox : List (Value × FloatLit)) (beacon : Dict) : Prop := ∃ m ∈ inbox, m.1.asDict = some beacon

/-- Every subject with a fenced beacon is handed to a human, and verdicts are at most the laws of all the
beacons of their subject. -/
structure NeverWeakened (inbox : List (Value × FloatLit)) (cycle : Cycle B) : Prop where
  escalates : ∀ beacon, Drained inbox beacon → Fenced env policy beacon →
    ∃ r, (subject env beacon, r) ∈ cycle.emitted ∧ r.action = .escalateHuman
  bounded : ∀ beacon, Drained inbox beacon → ∀ r, (subject env beacon, r) ∈ cycle.emitted →
    ∀ law, policy.lawFor (kindClass beacon) = .ok law → r.verdict ≤ law

/-- The file can be read, and it has no time within the cooldown for the fingerprint of a beacon; no
fingerprint comes twice. -/
structure Fresh : Prop where
  recorded : ∃ data, load codec file = .ok data ∧
    ∀ m ∈ beacons, withinCooldown env policy m.2 (data.get? (fingerprint env m.1)) = .ok false
  distinct : beacons.Pairwise fun m m' => fingerprint env m.1 ≠ fingerprint env m'.1

/-- The beacons of every subject can be read, and where actions are executed their classes are keys of the
table of executors and the control loop does not raise. -/
structure Answerable : Prop where
  readable : ∀ m ∈ beacons,
    Readable env policy ((beacons.map Prod.fst).filter (subject env · = subject env m.1))
  executable : executes = true →
    (∀ m ∈ beacons, (kindClass m.1).hashable = true) ∧ ∃ report, world.remediate = .ok report

variable {env codec policy world executes file beacons}

lemma drained_inboxOf {beacon} : Drained (inboxOf beacons) beacon ↔ beacon ∈ beacons.map Prod.fst := by
  simp [Drained, inboxOf]

lemma load_dumps (data : Dict) : load codec (some (codec.dumps (.dict data))) = .ok data := by
  rw [load, codec.loads_dumps]
  exact congrArg (fun d => Except.ok (d.getD .empty)) (Value.asDict_dict data)

/-- A fingerprint without a time within the cooldown is let through, and only its own time changes. -/
lemma shouldProcess_of_fresh {fp now data} (hload : load codec file = .ok data)
    (hfresh : withinCooldown env policy now (data.get? fp) = .ok false) :
    (shouldProcess env codec policy fp now file).2 = .ok true ∧
      ∃ data', load codec (shouldProcess env codec policy fp now file).1 = .ok data' ∧
        ∀ fp', fp' ≠ fp → data'.get? fp' = data.get? fp' := by
  rw [shouldProcess]
  split_ifs with hcooldown
  · exact ⟨rfl, data, hload, fun _ _ => rfl⟩
  · rw [hload]
    dsimp only
    rw [hfresh]
    exact ⟨rfl, _, load_dumps _, fun fp' hne => SortedMap.get?_insert_of_ne hne data _⟩

/-- By induction on the inbox: the times that the beacons before add are under other fingerprints. -/
theorem drain_of_fresh (h : Fresh env codec policy file beacons) :
    (drain env codec policy file (inboxOf beacons)).2 = .ok (beacons.map Prod.fst) := by
  obtain ⟨⟨data, hload, hfresh⟩, hdistinct⟩ := h
  induction beacons generalizing file data with
  | nil => rfl
  | cons m beacons ih =>
    obtain ⟨hm, hbeacons⟩ := pairwise_cons.1 hdistinct
    obtain ⟨hprocess, data', hload', hsame⟩ :=
      shouldProcess_of_fresh hload (hfresh m (mem_cons_self ..))
    have hfresh' : ∀ m' ∈ beacons,
        withinCooldown env policy m'.2 (data'.get? (fingerprint env m'.1)) = .ok false := by
      intro m' hm'
      rw [hsame _ (hm m' hm').symm]
      exact hfresh m' (mem_cons_of_mem _ hm')
    have hrest := ih hbeacons data' hload' hfresh'
    rw [inboxOf, map_cons, drain, Value.asDict_dict]
    dsimp only
    generalize shouldProcess env codec policy (fingerprint env m.1) m.2 file = asked at hprocess hrest
    obtain ⟨file', result⟩ := asked
    cases hprocess
    rw [inboxOf] at hrest
    dsimp only at hrest ⊢
    generalize drain env codec policy file' _ = drained at hrest
    obtain ⟨file'', survivors⟩ := drained
    cases hrest
    rfl

lemma primaryOf_hashable {group : List Dict} (h : ∀ b ∈ group, (kindClass b).hashable = true) {warrants} :
    (((primaryOf group warrants).get? "kind_class").getD .null).hashable = true := by
  have hkind : ∀ b : Dict, (kindClass b).hashable = true →
      ((b.get? "kind_class").getD .null).hashable = true := by
    intro b hb
    rw [kindClass] at hb
    cases hget : b.get? "kind_class" with
    | none => decide
    | some v =>
      rw [hget] at hb
      exact hb
  rw [primaryOf]
  cases hmax : (group.zip warrants).argmax fun m => weight m.2 with
  | none => decide
  | some m => exact hkind _ (h _ (of_mem_zip (argmax_mem hmax)).1)

lemma execute_returns {report} (hremediate : world.remediate = .ok report) {beacon : Dict}
    (hkind : ((beacon.get? "kind_class").getD .null).hashable = true) (r : Receipt) :
    ∃ r', execute world beacon r = .ok r' := by
  have hcarry : ∃ outcome, carryOut world beacon r.action = .ok outcome := by
    obtain ⟨executor, hexecutor⟩ : ∃ executor, executorFor ((beacon.get? "kind_class").getD .null) r.action =
        .ok executor := ⟨_, if_pos hkind⟩
    rw [carryOut, hexecutor, bind_returns]
    refine ⟨executor, rfl, ?_⟩
    cases executor with
    | none => exact ⟨_, rfl⟩
    | some executor =>
      cases executor with
      | resyncMirrorDrift => exact bind_returns.2 ⟨_, bind_eq_ok.2 ⟨report, hremediate, rfl⟩, _, rfl⟩
      | _ => exact ⟨_, rfl⟩
  obtain ⟨outcome, houtcome⟩ := hcarry
  rw [execute, houtcome]
  cases outcome with
  | none => exact ⟨_, rfl⟩
  | some outcome =>
    cases hresolved : outcome.resolved <;> simp [hresolved, Bind.bind, Except.bind, pure, Except.pure]

lemma Answerable.respond_returns (h : Answerable env policy world executes beacons) {m}
    (hm : m ∈ OrderedDict.group (subject env) (beacons.map Prod.fst)) :
    m.2 ≠ [] ∧ ∃ r, respond env policy world executes m.2 = .ok r := by
  obtain ⟨s, group⟩ := m
  obtain ⟨rfl, b, hb, rfl⟩ := OrderedDict.mem_group.1 hm
  have hne : (beacons.map Prod.fst).filter (subject env · = subject env b) ≠ [] :=
    ne_nil_of_mem (mem_filter.2 ⟨hb, decide_eq_true rfl⟩)
  obtain ⟨m, hbeacon, rfl⟩ := mem_map.1 hb
  obtain ⟨r₀, hdecide⟩ := (decideComposed_returns hne).2 (h.readable m hbeacon)
  refine ⟨hne, ?_⟩
  rw [respond, hdecide, bind_returns]
  refine ⟨r₀, rfl, ?_⟩
  cases executes with
  | false => exact ⟨_, rfl⟩
  | true =>
    obtain ⟨hhash, report, hremediate⟩ := h.executable rfl
    rw [if_pos rfl, bind_returns]
    obtain ⟨warrants, hwarrants⟩ := mapM_returns.2 (h.readable m hbeacon).warrants
    refine ⟨warrants, hwarrants, execute_returns hremediate (primaryOf_hashable fun b hb => ?_) r₀⟩
    obtain ⟨m', hm', rfl⟩ := mem_map.1 (mem_filter.1 hb).1
    exact hhash m' hm'

end

/-- A cycle that has no time within the cooldown for the fingerprints of its beacons weakens no decision. -/
theorem never_weakened_of_fresh {F B : Type} {env : Env F} {codec : JsonCodec B} {policy : ResponsePolicy F}
    {world : World} {executes : Bool} {file : Option B} {beacons : List (Dict × FloatLit)}
    (hfresh : Fresh env codec policy file beacons)
    (hanswerable : Answerable env policy world executes beacons) :
    NeverWeakened env policy (inboxOf beacons)
      (runOnce env codec policy world executes file (inboxOf beacons)) := by
  have hemitted : (runOnce env codec policy world executes file (inboxOf beacons)).emitted =
      (respondAll env policy world executes
        (OrderedDict.group (subject env) (beacons.map Prod.fst))).1 := by
    have hdrain := drain_of_fresh hfresh
    rw [runOnce]
    generalize drain env codec policy file (inboxOf beacons) = drained at hdrain
    obtain ⟨file', survivors⟩ := drained
    cases hdrain
    rfl
  have hreturns := fun m hm => (hanswerable.respond_returns (m := m) hm).2
  -- every beacon is in the group of its subject
  have hgroup : ∀ b ∈ beacons.map Prod.fst, ∀ group,
      (subject env b, group) ∈ OrderedDict.group (subject env) (beacons.map Prod.fst) → b ∈ group := by
    intro b hb group hmem
    obtain ⟨rfl, -⟩ := OrderedDict.mem_group.1 hmem
    exact mem_filter.2 ⟨hb, decide_eq_true rfl⟩
  constructor
  · intro b hb hfenced
    rw [drained_inboxOf] at hb
    have hmem : (subject env b, _) ∈ OrderedDict.group (subject env) (beacons.map Prod.fst) :=
      OrderedDict.mem_group.2 ⟨rfl, b, hb, rfl⟩
    obtain ⟨r, hr, hrespond⟩ := emitted_of_returns hreturns hmem
    rw [hemitted]
    exact ⟨r, hr, respond_fenced (hanswerable.respond_returns hmem).1 hrespond (hgroup b hb _ hmem) hfenced⟩
  · intro b hb r hr law hlaw
    rw [drained_inboxOf] at hb
    rw [hemitted] at hr
    obtain ⟨group, hmem, hrespond⟩ := respond_of_emitted hr
    exact respond_verdict_le (hanswerable.respond_returns hmem).1 hrespond (hgroup b hb _ hmem) hlaw

/-- The breach and the drift of one system; another system's violation was decided at the same time. -/
theorem never_weakened_of_fresh_two :
    let policy := DEFAULT_POLICY exactOps
    let file := some (.dict (.ofList [("policy_violation::web", .float oneSecond)]))
    let beacons := [(svcBeacon "policy_violation" [("privacy", .int 1)], oneSecond),
      (svcBeacon "mirror_drift" [], oneSecond)]
    NeverWeakened exactEnv policy (inboxOf beacons)
      (runOnce exactEnv valueCodec policy brokenWorld false file (inboxOf beacons)) := by
  intro policy file beacons
  have hdecided : ∀ m ∈ beacons, (decideComposed exactEnv policy ((beacons.map Prod.fst).filter
      (subject exactEnv · = subject exactEnv m.1))).toOption.isSome = true := by decide +kernel
  refine never_weakened_of_fresh ⟨⟨_, rfl, by decide +kernel⟩, by decide +kernel⟩ ⟨fun m hm => ?_, by simp⟩
  refine (decideComposed_returns ?_).1 ?_
  · exact ne_nil_of_mem (mem_filter.2 ⟨mem_map_of_mem hm, decide_eq_true rfl⟩)
  · obtain ⟨r, hr⟩ := Option.isSome_iff_exists.1 (hdecided m hm)
    cases hdecide : decideComposed exactEnv policy ((beacons.map Prod.fst).filter
        (subject exactEnv · = subject exactEnv m.1)) with
    | error e =>
      rw [hdecide] at hr
      cases hr
    | ok r => exact ⟨r, rfl⟩

/-- In the next cycle the violation breaches the privacy axis, and the mirror drifts: the violation is
suppressed, and the drift gets the verdict `sealed`. -/
theorem suppressed_fence :
    let policy := DEFAULT_POLICY exactOps
    let breach := svcBeacon "policy_violation" [("privacy", .int 1)]
    let file := (runOnce exactEnv valueCodec policy brokenWorld false none
      [(.dict (svcBeacon "policy_violation" []), oneSecond)]).file
    let inbox := [(.dict breach, oneSecond), (.dict (svcBeacon "mirror_drift" []), oneSecond)]
    let cycle := runOnce exactEnv valueCodec policy brokenWorld false file inbox
    cycle.emitted.map (fun m => (m.1, m.2.verdict, m.2.action)) =
        [("svc", (Verdict.sealed : WithBot Verdict), .autoFix)] ∧
      ¬NeverWeakened exactEnv policy inbox cycle := by
  intro policy breach file inbox cycle
  have hemitted : cycle.emitted.map (fun m => (m.1, m.2.verdict, m.2.action)) =
      [("svc", (Verdict.sealed : WithBot Verdict), .autoFix)] := by decide +kernel
  refine ⟨hemitted, fun h => ?_⟩
  have hdrained : Drained inbox breach := ⟨_, mem_cons_self .., Value.asDict_dict _⟩
  have hsubject : subject exactEnv breach = "svc" := by decide +kernel
  have hlaw : policy.lawFor (kindClass breach) = .ok .quarantine := by decide +kernel
  obtain ⟨⟨s, r⟩, hcycle, hr⟩ := map_eq_singleton_iff.1 hemitted
  have hs : s = "svc" := congrArg (·.1) hr
  have hverdict : r.verdict = Verdict.sealed := congrArg (·.2.1) hr
  have hmem : (subject exactEnv breach, r) ∈ cycle.emitted := by
    rw [hcycle, hsubject, hs]
    exact mem_singleton_self _
  have hle := h.bounded breach hdrained r hmem .quarantine hlaw
  rw [hverdict] at hle
  exact absurd hle (by decide)

end SocioWorkspace.Respond
