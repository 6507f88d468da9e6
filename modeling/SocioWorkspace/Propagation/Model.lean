import SocioWorkspace.Lib.Levels
import SocioWorkspace.Lib.OrderedDict
import SocioWorkspace.Lib.PyData

/-!
# Propagation engine

Model of `engines/propagation_engine.py`: `load` reads the registry into the reverse adjacency of the
dependency graph and one list of rules, from three formats, and `compute_cascade` notifies the targets of a
rule and the dependents of the changed repository, and from there their dependents, level by level.

* The registry is three documents as `yaml.safe_load` returns them.
* `Repo` is a normalised name that is not empty. Of Python's texts it is relied on only that a normalised name
  is not changed by normalising it again (`Names`).
* Of rules and targets the fields are kept that `compute_cascade` reads, of the loops that build the levels
  and the reference edges the exceptions.
* The `while queue` loop is `Walk.turn`, repeated once for every repository (`walk_queue`).
-/

namespace SocioWorkspace.Propagation
open Python

/-- Python `s.strip().replace("_", "-").lower()`. -/
def normalizeText (lower : List Char → List Char) (s : String) : String :=
  .ofList (lower ((strip s.toList).map fun c => if c = '_' then '-' else c))

/-- Python's words, with a lower case that leaves a normalised name as it is. -/
structure Names extends Words where
  normalize_normalize : ∀ s, normalizeText lower (normalizeText lower s) = normalizeText lower s

structure Repo where
  name : String
  named : name ≠ ""
deriving DecidableEq

section
variable (py : Names)

def Names.normalize (s : String) : String := normalizeText py.lower s

/-- Python `_normalize_repo_id`, where the result is used: `None` and the empty name are skipped. -/
def normalizeRepoId : Data → Option Repo
  | .none => none
  | d =>
    if h : py.normalize (py.str d) = "" then none else some ⟨py.normalize (py.str d), h⟩

/-- Python `_reverse_adjacency`. -/
abbrev Reverse := List (String × List Repo)

/-- Python `add_edge`. -/
def addEdge (reverse : Reverse) (src dst : Data) : Reverse :=
  match normalizeRepoId py src, normalizeRepoId py dst with
  | some src, some dst =>
    let sources := (OrderedDict.get? (· == ·) reverse dst.name).getD []
    if src ∈ sources then reverse
    else OrderedDict.set (· == ·) dst.name (sources ++ [src]) reverse
  | _, _ => reverse

def addListed (reverse : Reverse) (edge : Data) : Reverse :=
  if edge.isDict then addEdge py reverse (edge.field "from") (edge.field "to") else reverse

/-- An edge of an edge pack; what is not active is skipped. -/
def addPacked (asDependency : Bool) (reverse : Reverse) : Data → Reverse
  | .dict members =>
    let state := ((Data.lookup members "state").getD (.str "active"))
    if asDependency && (py.lower (py.str state).toList = "active".toList ||
        py.lower (py.str state).toList = "in_use".toList) then
      addEdge py reverse (Data.field (.dict members) "from") (Data.field (.dict members) "to")
    else reverse
  | _ => reverse

/-- The edges of a pack are dependencies, unless the pack says otherwise. -/
def addPack (reverse : Reverse) (pack : Data) : Except PyError Reverse := do
  let nonClaims ← pack.get "non_claims"
  let nonClaims ← if nonClaims.truthy then nonClaims.iterate else .ok []
  if ! nonClaims.all Data.hashable then throw .type
  let asDependency := ! nonClaims.any (·.isStr "does_not_create_runtime_dependency")
  let edges ← (← pack.get "edges" (.list [])).iterate
  return edges.foldl (addPacked py asDependency) reverse

def depName (dep : Data) : Data := if dep.isDict then dep.field "name" else dep

def addEntry (reverse : Reverse) (item : Data × Data) : Except PyError Reverse :=
  match normalizeRepoId py item.1 with
  | none => .ok reverse
  | some repo =>
    if item.2.isDict then do
      let dependsOn ← (← item.2.get "depends_on" (.list [])).iterate
      let reverse := dependsOn.foldl (fun r dep => addEdge py r (.str repo.name) (depName dep)) reverse
      let dependents ← (← item.2.get "dependents" (.list [])).iterate
      return dependents.foldl (fun r dep => addEdge py r (depName dep) (.str repo.name)) reverse
    else .ok reverse

/-- The levels are read, but `compute_cascade` does not use them. -/
def readLevel (item : Data × Data) : Except PyError Unit := do
  if ! item.1.isStr "archived" then
    let _ ← py.int item.1
  let _ ← item.2.iterate

structure Target where
  repo : Repo
  action : Option Data
  message : Option Data
  autoPr : Option Data
  prTitle : Option Data

structure Rule where
  id : Option Data
  trigger : Repo
  propagateTo : List Target
  maxCascadeDepth : Data

def triggerRepo (rule : Data) : Except PyError Data := do
  let repo ← (← rule.get "trigger" (.dict [])).get "repo"
  if repo.isNone then rule.get "trigger_repo" else return repo

def listedTarget : Data → Option Target
  | .dict members =>
    (normalizeRepoId py (Data.field (.dict members) "repo")).map fun repo => {
      repo := repo
      action := Data.lookup members "action"
      message := Data.lookup members "message"
      autoPr := Data.lookup members "auto_pr"
      prTitle := Data.lookup members "pr_title" }
  | _ => none

def cascadeTarget : Data → Option Target
  | .dict members =>
    (normalizeRepoId py (Data.field (.dict members) "target")).map fun repo => {
      repo := repo
      action := some ((Data.lookup members "action").getD (.str "notify"))
      message := some ((Data.lookup members "reason").getD (.str ""))
      autoPr := some ((Data.lookup members "auto_pr").getD (.bool false))
      prTitle := some ((Data.lookup members "pr_title").getD (.str "")) }
  | _ => none

def listedTargets (rule : Data) : Except PyError (List Target) := do
  let propagateTo ← rule.get "propagate_to"
  if propagateTo.isNone then
    let cascades ← (← rule.get "cascades" (.list [])).iterate
    return cascades.filterMap (cascadeTarget py)
  else
    return (← propagateTo.iterate).filterMap (listedTarget py)

def listedRule (rule : Data) : Except PyError (Option Rule) :=
  if rule.isDict then do
    match normalizeRepoId py (← triggerRepo rule) with
    | none => return none
    | some trigger =>
      let targets ← listedTargets py rule
      return some {
        id := Data.lookup rule.members "id"
        trigger := trigger
        propagateTo := targets
        maxCascadeDepth := rule.field "max_cascade_depth" }
  else .ok none

def legacyTargets (onMainMerge action : Data) : Except PyError (List Target) :=
  if action.isDict then do
    let targets ← (← action.get "targets" (.list [])).iterate
    return (targets.filterMap (normalizeRepoId py)).map fun repo => {
      repo := repo
      action := some ((Data.lookup action.members "type").getD (.str "notify"))
      message := some ((Data.lookup onMainMerge.members "trigger").getD (.str ""))
      autoPr := some (.bool false)
      prTitle := some (.str "") }
  else .ok []

def legacyRule (item : Data × Data) : Except PyError (Option Rule) :=
  if item.2.isDict then do
    let onMainMerge ← item.2.get "on_main_merge" (.dict [])
    match normalizeRepoId py item.1, onMainMerge.isDict with
    | some trigger, true =>
      let actions ← (← onMainMerge.get "automation" (.list [])).iterate
      let targets ← actions.mapM (legacyTargets py onMainMerge)
      return some {
        id := some (.str ("legacy-" ++ trigger.name))
        trigger := trigger
        propagateTo := targets.flatten
        maxCascadeDepth := onMainMerge.field "max_cascade_depth" }
    | _, _ => return none
  else .ok none

/-- The documents of the registry: the dependency graph, the edge packs by their file names, and the
rules. -/
structure Registry where
  dependencyGraph : Data
  edgePacks : List Data
  propagationRules : Data

/-- Python `PropagationEngine`, loaded. -/
structure Engine where
  reverse : Reverse
  rules : List Rule

/-- The part of `load` that reads the dependency graph. -/
def loadGraph (registry : Registry) : Except PyError Reverse := do
  let edges ← (← registry.dependencyGraph.get "edges" (.list [])).iterate
  let reverse := edges.foldl (addListed py) []
  let reverse ← registry.edgePacks.foldlM (addPack py) reverse
  let dependencies ← (← registry.dependencyGraph.get "dependencies" (.dict [])).items
  let reverse ← dependencies.foldlM (addEntry py) reverse
  let levels ← (← registry.dependencyGraph.get "dependency_levels" (.dict [])).items
  levels.forM (readLevel py)
  return reverse

/-- The part of `load` that reads the rules. -/
def loadRules (rulesRaw : Data) : Except PyError (List Rule) := do
  let listed ← (← rulesRaw.get "rules" (.list [])).iterate
  let listed ← listed.mapM (listedRule py)
  let legacy ← (← rulesRaw.get "propagation_rules" (.dict [])).items
  let legacy ← legacy.mapM (legacyRule py)
  return listed.reduceOption ++ legacy.reduceOption

/-- Python `PropagationEngine.load`. -/
def load (registry : Registry) : Except PyError Engine := do
  let reverse ← loadGraph py registry
  let rules ← loadRules py registry.propagationRules
  return ⟨reverse, rules⟩

structure Step where
  depth : Nat
  repo : String
  action : Data
  message : Data
  autoPr : Data
  prTitle : Data
  sourceRule : Data

variable (engine : Engine)

/-- Python `_normalize_repo_id(repo_id) or repo_id`. -/
def normalizeOr (repoId : String) : String :=
  if py.normalize repoId = "" then repoId else py.normalize repoId

/-- Python `PropagationEngine.dependents_of`. -/
def dependentsOf (repoId : String) : List Repo :=
  (OrderedDict.get? (· == ·) engine.reverse (normalizeOr py repoId)).getD []

/-- Python `get_rule`: the first rule that the repository triggers. -/
def getRule (repoId : String) : Option Rule := engine.rules.find? (·.trigger.name = py.normalize repoId)

section
variable (changedRepo : String)

def dependentTarget (dep : Repo) : Target where
  repo := dep
  action := some (.str "notify")
  message := some (.str (changedRepo ++ " changed"))
  autoPr := none
  prTitle := none

/-- The targets of a rule and the dependents of the changed repository (Python `seed_targets`). -/
def seedTargets : List Target :=
  let explicit := ((getRule py engine changedRepo).map (·.propagateTo)).getD []
  explicit ++ ((dependentsOf py engine changedRepo).filter
    fun dep => dep ∉ explicit.map (·.repo)).map (dependentTarget changedRepo)

/-- The depth to go to: that of the caller, or less if the rule says so. -/
def depthOf (maxDepth : Int) : Int :=
  match (getRule py engine changedRepo).bind (·.maxCascadeDepth.asInt) with
  | some ruleMax => min maxDepth ruleMax
  | none => maxDepth

def sourceRule : Data :=
  ((getRule py engine changedRepo).bind (·.id)).getD (.str "dependency_graph")

structure Walk where
  visited : List String
  queue : List (String × Nat × Data)
  results : List Step

/-- A target of the rule, or a dependent of the changed repository, is notified. -/
def Walk.seed (source : Data) (w : Walk) (target : Target) : Walk :=
  if target.repo.name ∈ w.visited then w
  else {
    visited := target.repo.name :: w.visited
    queue := w.queue ++ [(target.repo.name, 1, source)]
    results := w.results ++ [{
      depth := 1
      repo := target.repo.name
      action := target.action.getD (.str "notify")
      message := target.message.getD (.str "")
      autoPr := target.autoPr.getD (.bool false)
      prTitle := target.prTitle.getD (.str "")
      sourceRule := source }] }

def Walk.downstream (current : String) (depth : Nat) (source : Data) (w : Walk) (dep : Repo) : Walk :=
  if dep.name ∈ w.visited then w
  else {
    visited := dep.name :: w.visited
    queue := w.queue ++ [(dep.name, depth + 1, source)]
    results := w.results ++ [{
      depth := depth + 1
      repo := dep.name
      action := .str "notify"
      message := .str ("Cascade from " ++ current)
      autoPr := .bool false
      prTitle := .str ""
      sourceRule := source }] }

/-- One turn of the `while queue` loop. -/
def Walk.turn (maxDepth : Int) (w : Walk) : Walk :=
  match w.queue with
  | [] => w
  | (current, depth, source) :: queue =>
    if maxDepth ≤ depth then { w with queue := queue }
    else (dependentsOf py engine current).foldl (Walk.downstream current depth source)
      { w with queue := queue }

/-- The repositories that a cascade can come to. -/
def reachable : List String :=
  (seedTargets py engine changedRepo).map (·.repo.name) ++
    engine.reverse.flatMap fun item => item.2.map (·.name)

def walk (maxDepth : Int) : Walk :=
  (Walk.turn py engine (depthOf py engine changedRepo maxDepth))^[(reachable py engine changedRepo).length]
    ((seedTargets py engine changedRepo).foldl (Walk.seed (sourceRule py engine changedRepo))
      ⟨[changedRepo], [], []⟩)

/-- Python `PropagationEngine.compute_cascade`. -/
def computeCascade (maxDepth : Int := 3) : List Step :=
  (walk py engine (normalizeOr py changedRepo) maxDepth).results.insertionSort (·.depth ≤ ·.depth)

end

end

end SocioWorkspace.Propagation
