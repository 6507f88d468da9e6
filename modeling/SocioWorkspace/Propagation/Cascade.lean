import SocioWorkspace.Propagation.Model

/-!
# Which notifications are delivered

Every target of a rule that a repository triggers should get a step of its cascade. `compute_cascade` looks up
the first rule only, so a target of a later one is notified only if the walk along dependents comes to it.

`levels_walk` is the induction over the turns of `compute_cascade`, `delivered_iff` says who gets a step, and
`notifications_iff` compares that with what the rules of `load_rules` declare.
-/

namespace SocioWorkspace.Propagation
open Python List Levels Char

section
variable (py : Names) (rulesRaw : Data)

def triggerField (rule : Data) : Data :=
  if ((rule.field "trigger").field "repo").isNone then rule.field "trigger_repo"
  else (rule.field "trigger").field "repo"

/-- The document has a rule for the repository, in one of the three formats, with the target. -/
inductive Declares (repo : Repo) (target : Repo) : Prop where
  /-- A rule with `propagate_to`. -/
  | propagateTo (rule entry : Data) : rule ∈ (rulesRaw.field "rules").elems → rule.isDict = true →
    normalizeRepoId py (triggerField rule) = some repo →
    entry ∈ (rule.field "propagate_to").elems → entry.isDict = true →
    normalizeRepoId py (entry.field "repo") = some target → Declares repo target
  /-- A rule with `cascades`. -/
  | cascades (rule entry : Data) : rule ∈ (rulesRaw.field "rules").elems → rule.isDict = true →
    normalizeRepoId py (triggerField rule) = some repo →
    (rule.field "propagate_to").isNone = true →
    entry ∈ (rule.field "cascades").elems → entry.isDict = true →
    normalizeRepoId py (entry.field "target") = some target → Declares repo target
  /-- An action of the mapping `propagation_rules`. -/
  | legacy (key rule action entry : Data) : (key, rule) ∈ (rulesRaw.field "propagation_rules").members →
    normalizeRepoId py key = some repo → rule.isDict = true →
    action ∈ ((rule.field "on_main_merge").field "automation").elems → action.isDict = true →
    entry ∈ (action.field "targets").elems → normalizeRepoId py entry = some target →
    Declares repo target

variable {py} {rule d : Data} {repo target : Repo}

def Rule.Notifies (r : Rule) (repo target : Repo) : Prop :=
  r.trigger = repo ∧ ∃ t ∈ r.propagateTo, t.repo = target

lemma exists_map_repo {o} {f : Repo → Target} (hf : ∀ r, (f r).repo = r) :
    (∃ t, o.map f = some t ∧ t.repo = target) ↔ o = some target := by
  simp only [Option.map_eq_some_iff]
  constructor
  · rintro ⟨t, ⟨r, hr, rfl⟩, rfl⟩
    rw [hr, hf]
  · intro h
    exact ⟨_, ⟨target, h, rfl⟩, hf target⟩

lemma listedTarget_repo : (∃ t, listedTarget py d = some t ∧ t.repo = target) ↔
    d.isDict = true ∧ normalizeRepoId py (d.field "repo") = some target := by
  cases d with
  | dict members => exact (exists_map_repo fun _ => rfl).trans (and_iff_right rfl).symm
  | none | bool | int | str | other | list => simp [listedTarget, Data.isDict]

lemma cascadeTarget_repo : (∃ t, cascadeTarget py d = some t ∧ t.repo = target) ↔
    d.isDict = true ∧ normalizeRepoId py (d.field "target") = some target := by
  cases d with
  | dict members => exact (exists_map_repo fun _ => rfl).trans (and_iff_right rfl).symm
  | none | bool | int | str | other | list => simp [cascadeTarget, Data.isDict]

variable (py) in
/-- A rule of the list `rules` has the target, in one of its two formats. -/
def Lists (rule : Data) (target : Repo) : Prop :=
  (∃ entry ∈ (rule.field "propagate_to").elems, entry.isDict = true ∧
    normalizeRepoId py (entry.field "repo") = some target) ∨
  (rule.field "propagate_to").isNone = true ∧ ∃ entry ∈ (rule.field "cascades").elems,
    entry.isDict = true ∧ normalizeRepoId py (entry.field "target") = some target

variable {targets : List Target}

lemma listedTargets_ok (h : listedTargets py rule = .ok targets) :
    (∃ t ∈ targets, t.repo = target) ↔ Lists py rule target := by
  obtain ⟨propagateTo, hp, h⟩ := bind_eq_ok.mp h
  rw [Lists, Data.get_eq_ok hp]
  cases hn : propagateTo.isNone with
  | true =>
    rw [hn, if_pos rfl] at h
    obtain ⟨cascades, hc, h⟩ := bind_eq_ok.mp h
    obtain ⟨entries, he, h⟩ := bind_eq_ok.mp h
    cases h
    have empty : propagateTo.elems = [] := by
      cases propagateTo with
      | none => rfl
      | bool | int | str | other | list | dict => cases hn
    rw [Data.elems_of_get hc he, empty, Lists.exists_mem_filterMap]
    simp only [cascadeTarget_repo, not_mem_nil, false_and, exists_false, false_or, true_and]
  | false =>
    rw [hn, if_neg (by decide)] at h
    obtain ⟨entries, he, h⟩ := bind_eq_ok.mp h
    cases h
    rw [Data.elems_of_iterate he, Lists.exists_mem_filterMap]
    simp only [listedTarget_repo, Bool.false_eq_true, false_and, or_false]

lemma triggerRepo_ok (h : triggerRepo rule = .ok d) : triggerField rule = d := by
  obtain ⟨trigger, ht, h⟩ := bind_eq_ok.mp h
  obtain ⟨repo, hr, h⟩ := bind_eq_ok.mp h
  rw [triggerField, Data.field_of_get ht hr]
  cases hn : repo.isNone with
  | true =>
    rw [hn, if_pos rfl] at h
    rw [if_pos rfl, Data.get_eq_ok h]
  | false =>
    rw [hn, if_neg (by decide)] at h
    rw [if_neg (by decide)]
    exact Except.ok.inj h

lemma listedRule_ok {o} (h : listedRule py rule = .ok o) :
    (∃ r, o = some r ∧ r.Notifies repo target) ↔
      rule.isDict = true ∧ normalizeRepoId py (triggerField rule) = some repo ∧ Lists py rule target := by
  unfold listedRule at h
  cases hd : rule.isDict with
  | false =>
    rw [hd, if_neg (by decide)] at h
    cases h
    simp
  | true =>
    rw [hd, if_pos rfl] at h
    obtain ⟨trigger, ht, h⟩ := bind_eq_ok.mp h
    rw [triggerRepo_ok ht]
    cases hname : normalizeRepoId py trigger with
    | none =>
      rw [hname] at h
      cases h
      simp
    | some name =>
      rw [hname] at h
      obtain ⟨targets, htargets, h⟩ := bind_eq_ok.mp h
      cases h
      rw [← listedTargets_ok htargets]
      simp only [Option.some.injEq, exists_eq_left', Rule.Notifies, true_and]

lemma legacyTargets_ok {onMainMerge action} (h : legacyTargets py onMainMerge action = .ok targets) :
    (∃ t ∈ targets, t.repo = target) ↔ action.isDict = true ∧
      ∃ entry ∈ (action.field "targets").elems, normalizeRepoId py entry = some target := by
  unfold legacyTargets at h
  cases hd : action.isDict with
  | false =>
    rw [hd, if_neg (by decide)] at h
    cases h
    simp
  | true =>
    rw [hd, if_pos rfl] at h
    obtain ⟨entries, he, h⟩ := bind_eq_ok.mp h
    obtain ⟨names, hn, h⟩ := bind_eq_ok.mp h
    cases h
    rw [Data.elems_of_get he hn]
    simp

lemma legacyRule_ok {item o} (h : legacyRule py item = .ok o) :
    (∃ r, o = some r ∧ r.Notifies repo target) ↔
      normalizeRepoId py item.1 = some repo ∧ item.2.isDict = true ∧
      ∃ action ∈ ((item.2.field "on_main_merge").field "automation").elems, action.isDict = true ∧
        ∃ entry ∈ (action.field "targets").elems, normalizeRepoId py entry = some target := by
  unfold legacyRule at h
  cases hd : item.2.isDict with
  | false =>
    rw [hd, if_neg (by decide)] at h
    cases h
    simp
  | true =>
    rw [hd, if_pos rfl] at h
    obtain ⟨onMainMerge, hm, h⟩ := bind_eq_ok.mp h
    cases hname : normalizeRepoId py item.1 with
    | none =>
      rw [hname] at h
      cases h
      simp
    | some name =>
      cases hmd : onMainMerge.isDict with
      | false =>
        rw [hname, hmd] at h
        cases h
        have hfield : item.2.field "on_main_merge" = onMainMerge := by
          rcases Data.get_cases hm with hf | ⟨-, rfl⟩
          · exact hf
          · cases hmd
        have empty : (onMainMerge.field "automation").elems = [] := by
          cases onMainMerge with
          | dict members => cases hmd
          | none | bool | int | str | other | list => rfl
        rw [hfield, empty]
        simp
      | true =>
        rw [hname, hmd] at h
        obtain ⟨automation, ha, h⟩ := bind_eq_ok.mp h
        obtain ⟨actions, hactions, h⟩ := bind_eq_ok.mp h
        obtain ⟨targets, htargets, h⟩ := bind_eq_ok.mp h
        cases h
        rw [Data.elems_of_get_get hm ha hactions]
        have each := Lists.exists_mem_iff (forall₂_of_mapM_eq_ok htargets)
          fun _ _ hts => (@legacyTargets_ok py target _ _ _ hts).symm
        rw [each]
        simp only [Option.some.injEq, exists_eq_left', Rule.Notifies, mem_flatten, true_and]
        refine and_congr_right fun _ => ?_
        constructor
        · rintro ⟨t, ⟨ts, hts, ht⟩, rfl⟩
          exact ⟨ts, hts, t, ht, rfl⟩
        · rintro ⟨ts, hts, t, ht, rfl⟩
          exact ⟨t, ⟨ts, hts, ht⟩, rfl⟩

lemma loadRules_ok {rulesRaw rules} (h : loadRules py rulesRaw = .ok rules) :
    (∃ r ∈ rules, r.Notifies repo target) ↔ Declares py rulesRaw repo target := by
  obtain ⟨listed, hl, h⟩ := bind_eq_ok.mp h
  obtain ⟨listedRaw, hlr, h⟩ := bind_eq_ok.mp h
  obtain ⟨listedRules, hlrs, h⟩ := bind_eq_ok.mp h
  obtain ⟨legacy, hg, h⟩ := bind_eq_ok.mp h
  obtain ⟨legacyRaw, hgr, h⟩ := bind_eq_ok.mp h
  obtain ⟨legacyRules, hgrs, h⟩ := bind_eq_ok.mp h
  cases h
  have listedIff := Lists.exists_mem_iff (forall₂_of_mapM_eq_ok hlrs)
    fun _ _ ho => (@listedRule_ok py _ repo target _ ho).symm
  have legacyIff := Lists.exists_mem_iff (forall₂_of_mapM_eq_ok hgrs)
    fun _ _ ho => (@legacyRule_ok py repo target _ _ ho).symm
  have split : (∃ r ∈ listedRules.reduceOption ++ legacyRules.reduceOption, r.Notifies repo target) ↔
      (∃ o ∈ listedRules, ∃ r, o = some r ∧ r.Notifies repo target) ∨
        ∃ o ∈ legacyRules, ∃ r, o = some r ∧ r.Notifies repo target := by
    simp only [mem_append, reduceOption_mem_iff]
    constructor
    · rintro ⟨r, hr | hr, hn⟩
      · exact .inl ⟨_, hr, r, rfl, hn⟩
      · exact .inr ⟨_, hr, r, rfl, hn⟩
    · rintro (⟨_, hr, r, rfl, hn⟩ | ⟨_, hr, r, rfl, hn⟩)
      · exact ⟨r, .inl hr, hn⟩
      · exact ⟨r, .inr hr, hn⟩
  rw [split, ← listedIff, ← legacyIff, ← Data.elems_of_get hl hlr, ← Data.members_of_get hg hgr]
  constructor
  · rintro (⟨rule, hr, hd, ht, ⟨e, he, hed, hn⟩ | ⟨hp, e, he, hed, hn⟩⟩ |
      ⟨⟨key, rule⟩, hr, hk, hd, action, ha, had, e, he, hn⟩)
    · exact .propagateTo rule e hr hd ht he hed hn
    · exact .cascades rule e hr hd ht hp he hed hn
    · exact .legacy key rule action e hr hk hd ha had he hn
  · rintro (⟨rule, e, hr, hd, ht, he, hed, hn⟩ | ⟨rule, e, hr, hd, ht, hp, he, hed, hn⟩ |
      ⟨key, rule, action, e, hr, hk, hd, ha, had, he, hn⟩)
    · exact .inl ⟨rule, hr, hd, ht, .inl ⟨e, he, hed, hn⟩⟩
    · exact .inl ⟨rule, hr, hd, ht, .inr ⟨hp, e, he, hed, hn⟩⟩
    · exact .inr ⟨(key, rule), hr, hk, hd, action, ha, had, e, he, hn⟩

variable (py) (engine : Engine)

def dependents (repoId : String) : List String := (dependentsOf py engine repoId).map (·.name)

/-- The loop as a search by levels. -/
def Walk.levels (w : Walk) : Levels.State String where
  visited := w.visited
  found := w.results.map fun s => (s.repo, s.depth)
  queue := w.queue.map fun q => (q.1, q.2.1)

variable {py engine}

lemma levels_seed (source : Data) (w : Walk) (t : Target) :
    (w.seed source t).levels = w.levels.meet 1 t.repo.name := by
  unfold Walk.seed Levels.State.meet
  change _ = if t.repo.name ∈ w.visited then _ else _
  split_ifs
  · rfl
  · simp [Walk.levels]

lemma levels_downstream (current : String) (depth : Nat) (source : Data) (w : Walk) (dep : Repo) :
    (w.downstream current depth source dep).levels = w.levels.meet (depth + 1) dep.name := by
  unfold Walk.downstream Levels.State.meet
  change _ = if dep.name ∈ w.visited then _ else _
  split_ifs
  · rfl
  · simp [Walk.levels]

lemma levels_foldl {α : Type*} {f : Walk → α → Walk} {name : α → String} {depth}
    (hf : ∀ w a, (f w a).levels = w.levels.meet depth (name a)) (as : List α) (w : Walk) :
    (as.foldl f w).levels = (as.map name).foldl (Levels.State.meet depth) w.levels := by
  induction as generalizing w with
  | nil => rfl
  | cons a as ih => rw [foldl_cons, ih, hf, map_cons, foldl_cons]

lemma levels_turn (maxDepth : Int) (w : Walk) : (w.turn py engine maxDepth).levels =
    step (dependents py engine) (fun d => (d : Int) < maxDepth) w.levels := by
  unfold Walk.turn
  cases hq : w.queue with
  | nil =>
    have hlevels : w.levels.queue = [] := by rw [Walk.levels, hq, map_nil]
    rw [step_nil hlevels]
  | cons q queue =>
    obtain ⟨current, depth, source⟩ := q
    have hlevels : w.levels.queue = (current, depth) :: queue.map fun q => (q.1, q.2.1) := by
      rw [Walk.levels, hq, map_cons]
    rw [step_cons hlevels]
    dsimp only
    by_cases hd : maxDepth ≤ depth
    · rw [if_pos hd, if_neg (not_lt.mpr hd)]
      rfl
    · rw [if_neg hd, if_pos (not_le.mp hd), levels_foldl (levels_downstream current depth source)]
      rfl

lemma levels_walk (repo : String) (maxDepth : Int) : (walk py engine repo maxDepth).levels =
    run (dependents py engine) (fun d => (d : Int) < depthOf py engine repo maxDepth)
      (reachable py engine repo).length [repo] ((seedTargets py engine repo).map (·.repo.name)) 1 := by
  unfold walk run
  generalize (reachable py engine repo).length = n
  induction n with
  | zero => exact levels_foldl (levels_seed _) _ _
  | succ n ih => rw [Function.iterate_succ_apply', Function.iterate_succ_apply', levels_turn, ih]

lemma dependents_subset (repo u : String) : dependents py engine u ⊆ reachable py engine repo := by
  intro v hv
  refine mem_append_right _ ?_
  obtain ⟨dep, hdep, rfl⟩ := mem_map.mp hv
  unfold dependentsOf at hdep
  cases hg : OrderedDict.get? (· == ·) engine.reverse (normalizeOr py u) with
  | none =>
    rw [hg] at hdep
    cases hdep
  | some deps =>
    rw [hg] at hdep
    obtain ⟨k, hk⟩ := OrderedDict.mem_of_get? hg
    exact mem_flatMap.mpr ⟨(k, deps), hk, mem_map_of_mem hdep⟩

lemma walk_queue (repo : String) (maxDepth : Int) : (walk py engine repo maxDepth).queue = [] := by
  have h : (walk py engine repo maxDepth).levels.queue = [] := by
    rw [levels_walk]
    exact run_queue (subset_append_left _ _) (dependents_subset repo) le_rfl
  exact map_eq_nil_iff.mp h

variable (py engine) in
/-- A chain of dependents within a depth leads from a target or a dependent of the changed repository to
another repository. -/
def Reached (repo : String) (targets : List Target) (depth : Int) (v : String) : Prop :=
  ∃ k, Levels.Within (dependents py engine) [repo]
    (targets.map (·.repo.name) ++ dependents py engine repo) k v ∧ (k = 0 ∨ (k : Int) < depth)

lemma mem_seeds {repo v} : v ∈ (seedTargets py engine repo).map (·.repo.name) ↔
    v ∈ (((getRule py engine repo).map (·.propagateTo)).getD []).map (·.repo.name) ++
      dependents py engine repo := by
  rw [seedTargets, map_append, mem_append, mem_append, dependents]
  generalize ((getRule py engine repo).map (·.propagateTo)).getD [] = explicit
  constructor
  · rintro (h | h)
    · exact .inl h
    · rw [map_map] at h
      obtain ⟨dep, hdep, rfl⟩ := mem_map.mp h
      exact .inr (mem_map_of_mem (mem_filter.mp hdep).1)
  · rintro (h | h)
    · exact .inl h
    · obtain ⟨dep, hdep, rfl⟩ := mem_map.mp h
      by_cases hex : dep ∈ explicit.map (·.repo)
      · obtain ⟨t, ht, rfl⟩ := mem_map.mp hex
        exact .inl (mem_map_of_mem ht)
      · refine .inr ?_
        rw [map_map]
        exact mem_map.mpr ⟨dep, mem_filter.mpr ⟨hdep, decide_eq_true hex⟩, rfl⟩

lemma comes_iff {depth k} : Levels.Comes (fun d => (d : Int) < depth) 1 k ↔ k = 0 ∨ (k : Int) < depth := by
  constructor
  · intro h
    cases k with
    | zero => exact .inl rfl
    | succ k =>
      have hk := h k (Nat.lt_succ_self k)
      push_cast at hk ⊢
      omega
  · rintro (rfl | h) j hj
    · omega
    · push_cast
      omega

variable (py engine) in
def Delivered (changedRepo : String) (maxDepth : Int) (v : String) : Prop :=
  ∃ s ∈ computeCascade py engine changedRepo maxDepth, s.repo = v

/-- A repository gets a step exactly if a chain leads to it from a target of the first rule or a
dependent. -/
theorem delivered_iff {changedRepo v maxDepth} :
    Delivered py engine changedRepo maxDepth v ↔
      Reached py engine (normalizeOr py changedRepo)
        (((getRule py engine (normalizeOr py changedRepo)).map (·.propagateTo)).getD [])
        (depthOf py engine (normalizeOr py changedRepo) maxDepth) v := by
  have steps : Delivered py engine changedRepo maxDepth v ↔
      ∃ d, (v, d) ∈ (walk py engine (normalizeOr py changedRepo) maxDepth).levels.found := by
    unfold Delivered computeCascade Walk.levels
    simp only [mem_insertionSort, mem_map, Prod.mk.injEq]
    constructor
    · rintro ⟨s, hs, rfl⟩
      exact ⟨s.depth, s, hs, rfl, rfl⟩
    · rintro ⟨d, s, hs, rfl, -⟩
      exact ⟨s, hs, rfl⟩
  have hq : (walk py engine (normalizeOr py changedRepo) maxDepth).levels.queue = [] := by
    rw [Walk.levels, walk_queue, map_nil]
  rw [levels_walk] at hq steps
  rw [steps, mem_run hq, Reached]
  simp only [comes_iff]
  refine exists_congr fun k => and_congr_left fun _ => ⟨?_, ?_⟩
  · exact Levels.Within.mono fun v hv => mem_seeds.mp hv
  · exact Levels.Within.mono fun v hv => mem_seeds.mpr hv

variable (py)

/-- Every target that the rules document declares for the repository, and every dependent, gets a step. -/
def NotifiesAll (registry : Registry) (changedRepo : String) (maxDepth : Int) : Prop :=
  ∀ engine, load py registry = .ok engine → ∀ target : Repo,
    target.name ≠ normalizeOr py changedRepo →
    ((∃ repo : Repo, repo.name = py.normalize changedRepo ∧
        Declares py registry.propagationRules repo target) ∨
      target ∈ dependentsOf py engine changedRepo) →
    Delivered py engine changedRepo maxDepth target.name

def firstTargets (engine : Engine) (changedRepo : String) : List Target :=
  ((getRule py engine changedRepo).map (·.propagateTo)).getD []

def laterRules (engine : Engine) (changedRepo : String) : List Rule :=
  (engine.rules.filter (·.trigger.name = py.normalize changedRepo)).tail

/-- The walk comes to every target of the later rules anyway. -/
def LaterReached (registry : Registry) (changedRepo : String) (maxDepth : Int) : Prop :=
  ∀ engine, load py registry = .ok engine → ∀ r ∈ laterRules py engine changedRepo,
    ∀ t ∈ r.propagateTo, t.repo.name ≠ normalizeOr py changedRepo →
      Reached py engine (normalizeOr py changedRepo) (firstTargets py engine changedRepo)
        (depthOf py engine changedRepo maxDepth) t.repo.name

structure Split (engine engine' : Engine) (before after : List Rule) (rule first : Rule)
    (rest : List Rule) : Prop where
  rules : engine.rules = before ++ rule :: after
  rules' : engine'.rules = before ++ (first :: rest) ++ after
  reverse : engine'.reverse = engine.reverse
  trigger : ∀ part ∈ first :: rest, part.trigger = rule.trigger
  depth : ∀ part ∈ first :: rest, part.maxCascadeDepth = rule.maxCascadeDepth
  targets : ((first :: rest).flatMap (·.propagateTo)).Perm rule.propagateTo

/-- No target of a rule that had a step loses it. -/
def KeepsTargets (engine engine' : Engine) (rule : Rule) (changedRepo : String) (maxDepth : Int) :
    Prop :=
  ∀ t ∈ rule.propagateTo, Delivered py engine changedRepo maxDepth t.repo.name →
    Delivered py engine' changedRepo maxDepth t.repo.name

/-- If the lookup finds the rule, the walk from the targets of its first part comes to all its targets. -/
def PartsReached (engine : Engine) (before : List Rule) (rule first : Rule) (changedRepo : String)
    (maxDepth : Int) : Prop :=
  rule.trigger.name = py.normalize changedRepo →
  (∀ r ∈ before, r.trigger.name ≠ py.normalize changedRepo) →
  ∀ t ∈ rule.propagateTo, t.repo.name ≠ normalizeOr py changedRepo →
    Reached py engine (normalizeOr py changedRepo) first.propagateTo
      (depthOf py engine changedRepo maxDepth) t.repo.name
end

section
variable {py : Names} {engine engine' : Engine} {changedRepo : String} {maxDepth : Int}

lemma normalize_normalizeOr : py.normalize (normalizeOr py changedRepo) = py.normalize changedRepo := by
  unfold normalizeOr
  split_ifs with h
  · rfl
  · exact py.normalize_normalize changedRepo

lemma normalizeOr_normalizeOr : normalizeOr py (normalizeOr py changedRepo) = normalizeOr py changedRepo := by
  by_cases h : py.normalize changedRepo = ""
  · have same : normalizeOr py changedRepo = changedRepo := if_pos h
    rw [same, same]
  · rw [normalizeOr, normalize_normalizeOr, if_neg h, normalizeOr, if_neg h]

lemma getRule_normalizeOr :
    getRule py engine (normalizeOr py changedRepo) = getRule py engine changedRepo := by
  rw [getRule, getRule, normalize_normalizeOr]

lemma delivered_iff_reached {v} : Delivered py engine changedRepo maxDepth v ↔
    Reached py engine (normalizeOr py changedRepo) (firstTargets py engine changedRepo)
      (depthOf py engine changedRepo maxDepth) v := by
  rw [delivered_iff, firstTargets, depthOf, depthOf, getRule_normalizeOr]

lemma dependents_normalizeOr :
    dependents py engine (normalizeOr py changedRepo) = dependents py engine changedRepo := by
  rw [dependents, dependentsOf, normalizeOr_normalizeOr]
  rfl

variable {targets : List Target}

lemma Reached.ne {repo v depth} (h : Reached py engine repo targets depth v) : v ≠ repo := by
  obtain ⟨k, within, -⟩ := h
  exact fun e => within.not_mem (mem_singleton.mpr e)

lemma Reached.target {repo depth t} (ht : t ∈ targets) (hne : t.repo.name ≠ repo) :
    Reached py engine repo targets depth t.repo.name := by
  refine ⟨0, .seed (mem_append_left _ (mem_map_of_mem ht)) ?_, .inl rfl⟩
  exact fun h => hne (mem_singleton.mp h)

lemma first_or_later {r} (hr : r ∈ engine.rules) (ht : r.trigger.name = py.normalize changedRepo) :
    getRule py engine changedRepo = some r ∨ r ∈ laterRules py engine changedRepo := by
  have hmem : r ∈ engine.rules.filter (·.trigger.name = py.normalize changedRepo) :=
    mem_filter.mpr ⟨hr, decide_eq_true ht⟩
  rw [getRule, ← head?_filter, laterRules]
  cases hf : engine.rules.filter (·.trigger.name = py.normalize changedRepo) with
  | nil =>
    rw [hf] at hmem
    cases hmem
  | cons first later =>
    rw [hf] at hmem
    rw [head?_cons, tail_cons]
    exact (mem_cons.mp hmem).imp_left fun e => by rw [e]

lemma mem_laterRules {r} (hr : r ∈ laterRules py engine changedRepo) :
    r ∈ engine.rules ∧ r.trigger.name = py.normalize changedRepo := by
  obtain ⟨hmem, ht⟩ := mem_filter.mp (mem_of_mem_tail hr)
  exact ⟨hmem, of_decide_eq_true ht⟩

lemma load_rules {registry} (h : load py registry = .ok engine) :
    loadRules py registry.propagationRules = .ok engine.rules := by
  obtain ⟨reverse, -, h⟩ := bind_eq_ok.mp h
  obtain ⟨rules, hrules, h⟩ := bind_eq_ok.mp h
  cases h
  exact hrules

variable {before after rest : List Rule}

/-- A split rule is found by the lookup exactly if the whole rule was, by its first part. -/
lemma getRule_split {rule first} (s : Split engine engine' before after rule first rest) :
    (rule.trigger.name = py.normalize changedRepo ∧
      (∀ r ∈ before, r.trigger.name ≠ py.normalize changedRepo) ∧
      getRule py engine changedRepo = some rule ∧ getRule py engine' changedRepo = some first) ∨
    (¬ (rule.trigger.name = py.normalize changedRepo ∧
      ∀ r ∈ before, r.trigger.name ≠ py.normalize changedRepo) ∧
      getRule py engine' changedRepo = getRule py engine changedRepo) := by
  have htrigger : first.trigger = rule.trigger := s.trigger first mem_cons_self
  simp only [getRule, s.rules, s.rules', find?_append]
  cases hbefore : before.find? (·.trigger.name = py.normalize changedRepo) with
  | some r =>
    have hr := find?_some hbefore
    refine .inr ⟨fun h => ?_, by simp⟩
    exact h.2 r (mem_of_find?_eq_some hbefore) (of_decide_eq_true hr)
  | none =>
    have hnone : ∀ r ∈ before, r.trigger.name ≠ py.normalize changedRepo := by
      simpa using find?_eq_none.mp hbefore
    by_cases ht : rule.trigger.name = py.normalize changedRepo
    · refine .inl ⟨ht, hnone, ?_, ?_⟩
      · simp [ht]
      · simp [htrigger, ht]
    · refine .inr ⟨fun h => ht h.1, ?_⟩
      have hparts : (first :: rest).find? (·.trigger.name = py.normalize changedRepo) = none := by
        refine find?_eq_none.mpr fun part hpart => ?_
        rw [s.trigger part hpart]
        simpa using ht
      rw [hparts, find?_cons_of_neg (by simpa using ht)]
      rfl

lemma dependents_split {rule first} (s : Split engine engine' before after rule first rest) :
    dependents py engine' = dependents py engine := by
  funext u
  rw [dependents, dependents, dependentsOf, dependentsOf, s.reverse]
end

/-- Every notification is delivered exactly if the walk comes to the targets of the later rules anyway; and
a split rule keeps its targets exactly if the walk comes to all of them from its first part. -/
theorem notifications_iff (py : Names) (registry : Registry) (changedRepo : String) (maxDepth : Int) :
    (NotifiesAll py registry changedRepo maxDepth ↔ LaterReached py registry changedRepo maxDepth) ∧
    ∀ engine engine' before after rule first rest,
      Split engine engine' before after rule first rest →
      (KeepsTargets py engine engine' rule changedRepo maxDepth ↔
        PartsReached py engine before rule first changedRepo maxDepth) := by
  refine ⟨⟨?_, ?_⟩, ?_⟩
  · intro h engine hload r hr t ht hne
    obtain ⟨hmem, htrigger⟩ := mem_laterRules hr
    refine delivered_iff_reached.mp (h engine hload t.repo hne (.inl ⟨r.trigger, htrigger, ?_⟩))
    exact (loadRules_ok (load_rules hload)).mp ⟨r, hmem, rfl, t, ht, rfl⟩
  · intro h engine hload target hne hdeclared
    rw [delivered_iff_reached]
    cases hdeclared with
    | inl hdeclared =>
      obtain ⟨repo, hrepo, hdeclares⟩ := hdeclared
      obtain ⟨r, hr, rfl, t, ht, rfl⟩ := (loadRules_ok (load_rules hload)).mpr hdeclares
      cases first_or_later hr hrepo with
      | inl hfirst =>
        refine Reached.target ?_ hne
        rw [firstTargets, hfirst]
        exact ht
      | inr hlater => exact h engine hload r hlater t ht hne
    | inr hdep =>
      refine ⟨0, .seed (mem_append_right _ ?_) ?_, .inl rfl⟩
      · rw [dependents_normalizeOr]
        exact mem_map_of_mem hdep
      · exact fun he => hne (mem_singleton.mp he)
  · intro engine engine' before after rule first rest s
    have hdependents : dependents py engine' = dependents py engine := dependents_split s
    rcases @getRule_split py engine engine' changedRepo before after rest rule first s with
      ⟨htrigger, hbefore, hrule, hfirst⟩ | ⟨hother, hsame⟩
    · have hdepth : depthOf py engine' changedRepo maxDepth = depthOf py engine changedRepo maxDepth := by
        rw [depthOf, depthOf, hrule, hfirst]
        simp only [Option.bind_some, s.depth first mem_cons_self]
      have delivered' : ∀ v, Delivered py engine' changedRepo maxDepth v ↔
          Reached py engine (normalizeOr py changedRepo) first.propagateTo
            (depthOf py engine changedRepo maxDepth) v := by
        intro v
        rw [delivered_iff_reached, hdepth, firstTargets, hfirst, Reached, Reached, hdependents]
        rfl
      constructor
      · intro h _ _ t ht hne
        refine (delivered' _).mp (h t ht (delivered_iff_reached.mpr (Reached.target ?_ hne)))
        rw [firstTargets, hrule]
        exact ht
      · intro h t ht hdelivered
        have hne := (delivered_iff_reached.mp hdelivered).ne
        exact (delivered' _).mpr (h htrigger hbefore t ht hne)
    · constructor
      · exact fun _ htrigger hbefore => absurd ⟨htrigger, hbefore⟩ hother
      · intro _ t ht hdelivered
        rw [delivered_iff_reached] at hdelivered ⊢
        rw [Reached, firstTargets, depthOf] at hdelivered ⊢
        rwa [hsame, hdependents]

def normalChar (c : Char) : Char := (if c = '_' then '-' else c).toLower

lemma normalChar_upper : ∀ n ∈ List.range 26,
    isSpace (normalChar (ofNat (65 + n))) = false ∧
      normalChar (normalChar (ofNat (65 + n))) = normalChar (ofNat (65 + n)) := by
  decide

lemma normalChar_spec (c : Char) : (isSpace c = false → isSpace (normalChar c) = false) ∧
    normalChar (normalChar c) = normalChar c := by
  by_cases hu : 65 ≤ c.toNat ∧ c.toNat ≤ 90
  · have hc : c = ofNat (65 + (c.toNat - 65)) := by
      rw [Nat.add_sub_cancel' hu.1, ofNat_toNat]
    have h := normalChar_upper (c.toNat - 65) (mem_range.mpr (by omega))
    rw [← hc] at h
    exact ⟨fun _ => h.1, h.2⟩
  · by_cases hs : c = '_'
    · subst hs
      exact ⟨fun _ => by decide, by decide⟩
    · have hlower : normalChar c = c := by
        rw [normalChar, if_neg hs, toLower, dif_neg]
        simpa [UInt32.le_iff_toNat_le] using hu
      rw [hlower]
      exact ⟨id, hlower⟩

lemma normalizeText_eq (s : String) :
    normalizeText (List.map toLower) s = .ofList ((strip s.toList).map normalChar) := by
  rw [normalizeText, map_map]
  rfl

/-- Lower case for the letters of ASCII leaves a normalised name as it is. -/
def asciiNames : Names where
  toWords := asciiWords
  normalize_normalize s := by
    change normalizeText (List.map Char.toLower) (normalizeText (List.map Char.toLower) s) =
      normalizeText (List.map Char.toLower) s
    rw [normalizeText_eq, normalizeText_eq, String.toList_ofList, strip_eq_self, List.map_map]
    · congr 1
      exact List.map_congr_left fun c _ => (normalChar_spec c).2
    · intro c hc
      rw [List.head?_map] at hc
      obtain ⟨a, ha, rfl⟩ := Option.map_eq_some_iff.mp hc
      exact (normalChar_spec a).1 ((strip_ends s.toList).1 a ha)
    · intro c hc
      rw [List.getLast?_map] at hc
      obtain ⟨a, ha, rfl⟩ := Option.map_eq_some_iff.mp hc
      exact (normalChar_spec a).1 ((strip_ends s.toList).2 a ha)

def notifyRule (id repo : String) (targets : List String) : Data :=
  .dict [
    (.str "id", .str id),
    (.str "trigger", .dict [(.str "repo", .str repo)]),
    (.str "propagate_to", .list (targets.map fun t =>
      .dict [(.str "repo", .str t), (.str "action", .str "notify")])),
    (.str "max_cascade_depth", .int 2)]

/-- The two rules of the committed registry that `superconscious` triggers. -/
def superconsciousRules : Registry where
  dependencyGraph := .dict []
  edgePacks := []
  propagationRules := .dict [(.str "rules", .list [
    notifyRule "interpretability-schema-change" "superconscious"
      ["Noetica", "noetica-impair", "ProCybernetica", "sociosphere"],
    notifyRule "lawful-learning-schema-change" "superconscious"
      ["noetica-impair", "ProCybernetica", "systems-learning-loops", "agentplane", "sociosphere"]])]

/-- A change of `superconscious` notifies the targets of the first rule only. -/
theorem superconscious_not_notified :
    (load asciiNames superconsciousRules).map (fun engine =>
        (computeCascade asciiNames engine "superconscious").map (·.repo)) =
      .ok ["noetica", "noetica-impair", "procybernetica", "sociosphere"] ∧
    ¬ NotifiesAll asciiNames superconsciousRules "superconscious" 3 := by
  have eval : (load asciiNames superconsciousRules).map (fun engine =>
        (computeCascade asciiNames engine "superconscious").map (·.repo)) =
      .ok ["noetica", "noetica-impair", "procybernetica", "sociosphere"] := by
    decide +kernel
  refine ⟨eval, fun h => ?_⟩
  cases hload : load asciiNames superconsciousRules with
  | error e =>
    rw [hload] at eval
    cases eval
  | ok engine =>
    rw [hload] at eval
    have hdeclares : Declares asciiNames superconsciousRules.propagationRules
        ⟨"superconscious", by decide⟩ ⟨"agentplane", by decide⟩ := by
      refine .propagateTo (notifyRule "lawful-learning-schema-change" "superconscious"
        ["noetica-impair", "ProCybernetica", "systems-learning-loops", "agentplane", "sociosphere"])
        (.dict [(.str "repo", .str "agentplane"), (.str "action", .str "notify")]) ?_ rfl ?_ ?_ rfl ?_
      · exact mem_cons_of_mem _ mem_cons_self
      · decide +kernel
      · exact mem_map_of_mem (mem_of_getElem? (i := 3) rfl)
      · decide +kernel
    have hname : (asciiNames.normalize "superconscious") = "superconscious" := by decide +kernel
    obtain ⟨s, hs, hrepo⟩ := h engine hload ⟨"agentplane", by decide⟩ (by decide +kernel)
      (.inl ⟨_, hname.symm, hdeclares⟩)
    have hsteps : (computeCascade asciiNames engine "superconscious").map (·.repo) =
        ["noetica", "noetica-impair", "procybernetica", "sociosphere"] := Except.ok.inj eval
    have hmem := mem_map_of_mem (f := (·.repo)) hs
    rw [hsteps, hrepo] at hmem
    exact absurd hmem (by decide)

end SocioWorkspace.Propagation
