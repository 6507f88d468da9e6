import SocioWorkspace.Drive.ReadWrites
import SocioWorkspace.Lib.Interaction
import SocioWorkspace.Lib.PyPath

/-!
# Pulling the Drive into a directory

Model of `pull_dir` of `automation/mesh_sync.py`. The paths of the listing are whatever the replicas of the
index serve. The system may answer anything and may raise, but it never writes a file at a path that ends in
`..`, and a null character in a path is a `ValueError`. Where a file lies is where its path leads, without a
look at links.
-/

namespace SocioWorkspace.Drive
open Python Holographic Interaction PyPath

inductive PullRequest where
  | mkdir (path : PyPath)
  | write (path : PyPath) (data : Bytes)

inductive PullError where
  | drive (e : DriveError)
  | python (e : PyError)
  | isADirectory (path : PyPath)
  | os (text : String)

abbrev Pulling := Interaction PullRequest Unit PullError

/-- What `pull_dir` reads. `other` is what a listed value that is no text comes to: it is not found, or
something raises. -/
structure DriveView (B : Type) where
  env : Platform B
  nodes : List String
  replicas : ℕ
  get : String → String → Answer
  getBlob : String → String → Reply B
  reachable : Option (List String)
  other : Value → Option PullError

/-- Python `path.lstrip("/")`. -/
def lstripSlashes (path : String) : String := .ofList (path.toList.dropWhile (· = '/'))

def HasNull (path : PyPath) : Prop := ∃ part ∈ path.parts, '\x00' ∈ part.toList

instance (path : PyPath) : Decidable (HasNull path) := by
  unfold HasNull
  infer_instance

def Dotted (path : PyPath) : Prop := path.parts = [] ∨ path.parts.getLast? = some ".."

instance (path : PyPath) : Decidable (Dotted path) := by
  unfold Dotted
  infer_instance

def request (path : PyPath) (q : PullRequest) : Pulling Unit :=
  if HasNull path then raise (.python .value) else question q

/-- Python `dest.parent.mkdir(parents=True, exist_ok=True)` and `dest.write_bytes(data)`. -/
def writeFile (dest : PyPath) (data : Bytes) : Pulling Unit := do
  request dest.parent (.mkdir dest.parent)
  if Dotted dest then raise (.isADirectory dest) else request dest (.write dest data)

section
variable {B : Type} (view : DriveView B) (localDir : PyPath)

def destination (path : String) : PyPath := localDir.join (.ofText (lstripSlashes path))

def delivery (v : Value) : Except PullError (Option (String × Bytes)) :=
  match v.asStr with
  | none =>
    match view.other v with
    | none => .ok none
    | some e => .error e
  | some path =>
    match getFile view.env view.nodes view.replicas view.get view.getBlob view.reachable path with
    | .ok (data, _) => .ok (some (path, data))
    | .error (.fileNotFound _) => .ok none
    | .error e => .error (.drive e)

/-- The loop over the listing, with `pulled`. -/
def pullFiles : List Value → Pulling (List String)
  | [] => return []
  | v :: vs =>
    match delivery view v with
    | .error e => raise e
    | .ok none => pullFiles vs
    | .ok (some (path, data)) => do
      writeFile (destination localDir path) data
      let pulled ← pullFiles vs
      return path :: pulled

/-- Python `pull_dir`. -/
def pullDir : Pulling (List String) :=
  match listFiles view.env view.nodes view.replicas view.getBlob view.reachable with
  | .error e => raise (.drive e)
  | .ok paths => pullFiles view localDir paths

def PullConfined (cwd : List String) : Prop :=
  ∀ world, ∀ dest data, .write dest data ∈ (pullDir view localDir).trace world [] →
    PyPath.Beneath cwd localDir dest

def Refused (dest : PyPath) : Prop := HasNull dest ∨ Dotted dest

instance (dest : PyPath) : Decidable (Refused dest) := by
  unfold Refused
  infer_instance

/-- The paths that are written if the system does not refuse, up to the first that raises. -/
def reached : List Value → List String
  | [] => []
  | v :: vs =>
    match delivery view v with
    | .error _ => []
    | .ok none => reached vs
    | .ok (some (path, _)) => if Refused (destination localDir path) then [] else path :: reached vs

lemma hasNull_parent {dest} (h : HasNull dest.parent) : HasNull dest := by
  obtain ⟨part, hpart, hnull⟩ := h
  exact ⟨part, List.dropLast_subset _ hpart, hnull⟩

lemma mayAsk_request {path q q'} : (request path q).MayAsk q' ↔ ¬HasNull path ∧ q' = q := by
  rw [request]
  split_ifs with hnull
  · exact iff_of_false (mayAsk_raise _ _) fun h => h.1 hnull
  · rw [mayAsk_question, and_iff_right hnull]

lemma mayReturn_request {path q u} : (request path q).MayReturn u ↔ ¬HasNull path := by
  rw [request]
  split_ifs with hnull
  · exact iff_of_false (mayReturn_raise _ _) fun h => h hnull
  · exact iff_of_true (mayReturn_question _ _) hnull

lemma mayAsk_writeFile_write {dest dest' data data'} :
    (writeFile dest data).MayAsk (.write dest' data') ↔
      ¬Refused dest ∧ dest' = dest ∧ data' = data := by
  rw [writeFile, mayAsk_bind, mayAsk_request, Refused, not_or]
  constructor
  · rintro (⟨-, h⟩ | ⟨u, -, h⟩)
    · cases h
    · split_ifs at h with hdotted
      · exact absurd h (mayAsk_raise _ _)
      · obtain ⟨hnull, h⟩ := mayAsk_request.1 h
        cases h
        exact ⟨⟨hnull, hdotted⟩, rfl, rfl⟩
  · rintro ⟨⟨hnull, hdotted⟩, rfl, rfl⟩
    refine .inr ⟨(), mayReturn_request.2 (mt hasNull_parent hnull), ?_⟩
    rw [if_neg hdotted, mayAsk_request]
    exact ⟨hnull, rfl⟩

lemma mayReturn_writeFile {dest data u} : (writeFile dest data).MayReturn u ↔ ¬Refused dest := by
  rw [writeFile, mayReturn_bind, Refused, not_or]
  constructor
  · rintro ⟨u, -, h⟩
    split_ifs at h with hdotted
    · exact absurd h (mayReturn_raise _ _)
    · exact ⟨mayReturn_request.1 h, hdotted⟩
  · rintro ⟨hnull, hdotted⟩
    refine ⟨(), mayReturn_request.2 (mt hasNull_parent hnull), ?_⟩
    rw [if_neg hdotted, mayReturn_request]
    exact hnull

variable {view localDir} {dest : PyPath}

/-- The files that can be written are those of the paths that are reached. -/
lemma mayAsk_pullFiles_write {vs} :
    (∃ data, (pullFiles view localDir vs).MayAsk (.write dest data)) ↔
      ∃ path ∈ reached view localDir vs, dest = destination localDir path := by
  induction vs with
  | nil => simp [pullFiles, reached]
  | cons v vs ih =>
    rw [pullFiles, reached]
    cases hv : delivery view v with
    | error e => simp
    | ok found =>
      cases found with
      | none => exact ih
      | some found =>
        obtain ⟨path, data⟩ := found
        simp only [mayAsk_bind, mayAsk_writeFile_write, mayReturn_writeFile, mayAsk_pure, and_false,
          exists_false, or_false]
        by_cases hrefused : Refused (destination localDir path)
        · simp [hrefused]
        · rw [if_neg hrefused]
          simp only [hrefused, not_false_eq_true, true_and, exists_const, exists_or, ih,
            List.exists_mem_cons_iff]
          simp

lemma delivery_of_ok {path data ref}
    (h : getFile view.env view.nodes view.replicas view.get view.getBlob view.reachable path =
      .ok (data, ref)) : delivery view (.str path) = .ok (some (path, data)) := by
  rw [delivery, Value.asStr_str]
  simp only [h]

lemma pullFiles_delivered {content : String → Bytes} {paths : List String}
    (h : ∀ path ∈ paths, delivery view (.str path) = .ok (some (path, content path)) ∧
      ¬Refused (destination localDir path)) :
    (∀ pulled, (pullFiles view localDir (paths.map .str)).MayReturn pulled ↔ pulled = paths) ∧
      ∀ dest data, (pullFiles view localDir (paths.map .str)).MayAsk (.write dest data) ↔
        ∃ path ∈ paths, destination localDir path = dest ∧ content path = data := by
  induction paths with
  | nil => simp [pullFiles]
  | cons path paths ih =>
    obtain ⟨⟨hpath, hrefused⟩, h⟩ := List.forall_mem_cons.1 h
    obtain ⟨hreturn, hask⟩ := ih h
    simp only [List.map_cons, pullFiles, hpath, mayReturn_bind, mayAsk_bind, mayReturn_writeFile,
      mayAsk_writeFile_write, hrefused, hreturn, hask, not_false_eq_true, true_and, exists_const]
    simp [eq_comm]

lemma absolute_lstripSlashes (path : String) : (ofText (lstripSlashes path)).absolute = false := by
  rw [ofText, lstripSlashes, String.toList_ofList]
  refine decide_eq_false fun h => ?_
  have hhead := List.head?_dropWhile_not (fun c => decide (c = '/')) path.toList
  rw [h] at hhead
  simp at hhead

end

/-- The files lie beneath the directory exactly if every path that is reached goes down again through as
many names of the directory as it climbs. -/
theorem pullDir_confined_iff {B : Type} (view : DriveView B) (localDir : PyPath) (cwd : List String) :
    PullConfined view localDir cwd ↔
      ∀ paths, listFiles view.env view.nodes view.replicas view.getBlob view.reachable = .ok paths →
        ∀ path ∈ reached view localDir paths,
          (localDir.location cwd).drop ((localDir.location cwd).length -
              (PyPath.climb (PyPath.ofText (lstripSlashes path)).parts).1) <+:
            (PyPath.climb (PyPath.ofText (lstripSlashes path)).parts).2 := by
  have hask : PullConfined view localDir cwd ↔ ∀ q, (pullDir view localDir).MayAsk q →
      ∀ dest data, q = .write dest data → PyPath.Beneath cwd localDir dest := by
    rw [← forall_mem_trace_iff (.os "")]
    refine ⟨fun h world q hq dest data hdest => ?_, fun h world dest data hq => ?_⟩
    · subst hdest
      exact h world dest data hq
    · exact h world _ hq dest data rfl
  rw [hask, pullDir]
  cases hlist : listFiles view.env view.nodes view.replicas view.getBlob view.reachable with
  | error e =>
    refine iff_of_true (fun q hq => absurd hq (mayAsk_raise _ _)) fun paths hpaths => ?_
    cases hpaths
  | ok paths =>
    refine ⟨fun h paths' hpaths path hpath => ?_, fun h q hq dest data hdest => ?_⟩
    · cases hpaths
      obtain ⟨data, hwrite⟩ := mayAsk_pullFiles_write.2 ⟨path, hpath, rfl⟩
      have hbeneath := h _ hwrite _ data rfl
      exact (beneath_join_climb_iff (absolute_lstripSlashes path)).1 hbeneath
    · subst hdest
      obtain ⟨path, hpath, rfl⟩ := mayAsk_pullFiles_write.1 ⟨data, hq⟩
      exact (beneath_join_climb_iff (absolute_lstripSlashes path)).2 (h paths rfl path hpath)

/-- What was put on the Drive is pulled: all paths, and their last contents only. -/
theorem pullDir_putAll {σ B env} {store : MeshStore σ B} {nodes replicas writes s} (other)
    (localDir : PyPath) (hreplicas : 1 ≤ replicas ∧ replicas ≤ nodes.length)
    (haccepted : ∀ w ∈ writes, Accepted nodes w.placement) (hpaths : ∀ w ∈ writes, w.path ≠ INDEX)
    (hroots : ∀ w ∈ writes, ∀ v ∈ writes,
      merkleRoot env.sha256Hex w.data = merkleRoot env.sha256Hex v.data → w.data = v.data)
    (hfresh : ∀ node key, store.getBlob s node key = .nothing)
    (hplain : ∀ w ∈ writes, ¬Refused (destination localDir w.path)) :
    let s' := putAll env store nodes replicas writes s
    let view : DriveView B := ⟨env, nodes, replicas, store.get s', store.getBlob s', none, other⟩
    (∀ pulled, (pullDir view localDir).MayReturn pulled ↔ pulled = (pathsOf writes).sort (· ≤ ·)) ∧
      ∀ dest data, (pullDir view localDir).MayAsk (.write dest data) ↔
        ∃ path w, lastTo writes path = some w ∧ destination localDir path = dest ∧ w.data = data := by
  intro s' view
  have hkeeps : Keeps env store nodes replicas ⟨writes, writes, pathsOf writes⟩ s' :=
    logOf_eq haccepted hpaths ▸ keeps_putAll hreplicas hroots hfresh
  have hlisted {path} : path ∈ (pathsOf writes).sort (· ≤ ·) ↔ ∃ w, lastTo writes path = some w := by
    simp [pathsOf, lastTo, ← Option.isSome_iff_exists]
  have hdelivered : ∀ path ∈ (pathsOf writes).sort (· ≤ ·), delivery view (.str path) =
      .ok (some (path, (lastTo writes path).elim [] (·.data))) ∧ ¬Refused (destination localDir path) := by
    intro path hpath
    obtain ⟨w, hw⟩ := hlisted.1 hpath
    obtain ⟨hmem, rfl⟩ := mem_of_lastTo hw
    have hread := hkeeps.getFile_eq hreplicas w.path
    simp only [DriveLog.read, if_neg (hpaths w hmem), hw] at hread
    rw [hw]
    exact ⟨delivery_of_ok hread, hplain w hmem⟩
  obtain ⟨hreturn, hask⟩ := pullFiles_delivered hdelivered
  simp only [view, pullDir, hkeeps.listFiles_eq hreplicas (exists_replicaNode hreplicas _)]
  refine ⟨hreturn, fun dest data => (hask dest data).trans (exists_congr fun path => ?_)⟩
  rw [hlisted]
  constructor
  · rintro ⟨⟨w, hw⟩, hdest, hdata⟩
    exact ⟨w, hw, hdest, by rwa [hw] at hdata⟩
  · rintro ⟨w, hw, hdest, hdata⟩
    exact ⟨⟨w, hw⟩, hdest, by rwa [hw]⟩

def climbingFile : List FileWrite :=
  [⟨"/../evil", [⟨0x61⟩], "laptop", ⟨1, 0, 1⟩, "2026-01-01T00:00:00+00:00"⟩]

noncomputable def climbingView : DriveView ByteArray where
  env := textPlatform
  nodes := ["a", "b"]
  replicas := 2
  get := (inMemoryMesh ByteArray).get
    (putAll textPlatform (inMemoryMesh ByteArray) ["a", "b"] 2 climbingFile ([], []))
  getBlob := (inMemoryMesh ByteArray).getBlob
    (putAll textPlatform (inMemoryMesh ByteArray) ["a", "b"] 2 climbingFile ([], []))
  reachable := none
  other _ := none

lemma climbingView_keeps :
    Keeps textPlatform (inMemoryMesh ByteArray) ["a", "b"] 2 (logOf ["a", "b"] climbingFile)
      (putAll textPlatform (inMemoryMesh ByteArray) ["a", "b"] 2 climbingFile ([], [])) := by
  refine keeps_putAll (by decide) ?_ fun _ _ => rfl
  intro w hw v hv _
  rw [List.mem_singleton.1 hw, List.mem_singleton.1 hv]

lemma listFiles_climbingView :
    listFiles climbingView.env climbingView.nodes climbingView.replicas climbingView.getBlob
      climbingView.reachable = .ok [.str "/../evil"] := by
  refine (climbingView_keeps.listFiles_eq (by decide) (exists_replicaNode (by decide) _)).trans ?_
  rw [logOf_eq (by decide) (by decide)]
  simp [pathsOf, climbingFile]

lemma delivery_climbingView : delivery climbingView (.str "/../evil") = .ok (some ("/../evil", [⟨0x61⟩])) :=
  delivery_of_ok ((climbingView_keeps.getFile_eq (by decide) "/../evil").trans rfl)

/-- A file put as `/../evil` is written beside the directory. -/
theorem climbingFile_not_confined :
    ¬PyPath.Beneath [] (.ofText "/srv/drive") (destination (.ofText "/srv/drive") "/../evil") ∧
    (pullDir climbingView (.ofText "/srv/drive")).trace (fun _ => .ok ()) [] =
      [.mkdir ⟨true, ["srv", "drive", ".."]⟩, .write ⟨true, ["srv", "drive", "..", "evil"]⟩ [⟨0x61⟩]] := by
  have hdest : destination (.ofText "/srv/drive") "/../evil" = ⟨true, ["srv", "drive", "..", "evil"]⟩ := by
    decide
  refine ⟨by rw [hdest]; decide, ?_⟩
  rw [pullDir, listFiles_climbingView]
  show (pullFiles climbingView _ [.str "/../evil"]).trace _ [] = _
  rw [pullFiles, delivery_climbingView]
  show ((writeFile (destination _ _) _ >>= fun _ => _).trace _ []) = _
  rw [hdest]
  rfl

/-- Two devices write three times, the second one over a file of the first. -/
def sharedFiles : List FileWrite :=
  [⟨"/a", [⟨0x61⟩], "laptop", ⟨1, 0, 1⟩, "2026-01-01T00:00:00+00:00"⟩,
    ⟨"/notes/b", [⟨0x62⟩, ⟨0x63⟩], "laptop", ⟨2, 0, 1⟩, "2026-01-01T00:00:01+00:00"⟩,
    ⟨"/a", [⟨0x64⟩], "phone", ⟨1, 1, 1⟩, "2026-01-01T00:00:02+00:00"⟩]

noncomputable def sharedView : DriveView ByteArray where
  env := textPlatform
  nodes := ["a", "b"]
  replicas := 2
  get := (inMemoryMesh ByteArray).get
    (putAll textPlatform (inMemoryMesh ByteArray) ["a", "b"] 2 sharedFiles ([], []))
  getBlob := (inMemoryMesh ByteArray).getBlob
    (putAll textPlatform (inMemoryMesh ByteArray) ["a", "b"] 2 sharedFiles ([], []))
  reachable := none
  other _ := none

/-- The phone's content of `/a` is pulled, and the laptop's notes. -/
theorem pullDir_putAll_sharedFiles :
    (pullDir sharedView (.ofText "/srv/drive")).MayReturn ["/a", "/notes/b"] ∧
      (pullDir sharedView (.ofText "/srv/drive")).MayAsk (.write ⟨true, ["srv", "drive", "a"]⟩ [⟨0x64⟩]) := by
  have hroots : ∀ w ∈ sharedFiles, ∀ v ∈ sharedFiles,
      sha256HexDigest w.data = sha256HexDigest v.data → w.data = v.data := by decide +kernel
  have hlast : lastTo sharedFiles "/a" =
      some ⟨"/a", [⟨0x64⟩], "phone", ⟨1, 1, 1⟩, "2026-01-01T00:00:02+00:00"⟩ := by simp [lastTo, sharedFiles]
  have hset : pathsOf sharedFiles = insert "/a" {"/notes/b"} := by decide +kernel
  have hsorted : ["/a", "/notes/b"] = (pathsOf sharedFiles).sort (· ≤ ·) := by
    rw [hset, Finset.sort_insert _ (by simp) (by simp), Finset.sort_singleton]
  have hdest : destination (.ofText "/srv/drive") "/a" = ⟨true, ["srv", "drive", "a"]⟩ := by decide
  have hpull : (∀ pulled, (pullDir sharedView (.ofText "/srv/drive")).MayReturn pulled ↔
      pulled = (pathsOf sharedFiles).sort (· ≤ ·)) ∧
      ∀ dest data, (pullDir sharedView (.ofText "/srv/drive")).MayAsk (.write dest data) ↔
        ∃ path w, lastTo sharedFiles path = some w ∧ destination (.ofText "/srv/drive") path = dest ∧
          w.data = data :=
    pullDir_putAll _ _ (by decide) (by decide) (by decide)
      (fun w hw v hv h => hroots w hw v hv ((String.append_right_inj _).1 h)) (fun _ _ => rfl) (by decide)
  rw [hpull.1, hpull.2]
  exact ⟨hsorted, "/a", _, hlast, hdest, rfl⟩

end SocioWorkspace.Drive
