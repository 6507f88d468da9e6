import SocioWorkspace.Drive.ReadWrites

/-!
# What a write leaves alone

A write should change what is read at its own path and add that path to the listing. The first write
makes the index, which is then read at the path of the index, and a first write to that path leaves the
keys of its ref in the listing.
-/

namespace SocioWorkspace.Drive
open Python Holographic Threads List Except DriveLog

section
variable {nodes : List String} {writes : List FileWrite} {w : FileWrite} {log : DriveLog}

lemma listed_put_eq_empty : (log.put nodes w).listed = ∅ ↔ ¬Accepted nodes w.placement ∧ log.listed = ∅ := by
  rw [put]
  split_ifs with haccepted hpath hlisted
  · simp [haccepted]
  · simp [haccepted, hlisted]
  · simp [haccepted]
  · simp [haccepted]

lemma listed_logOf_eq_empty :
    (logOf nodes writes).listed = ∅ ↔ ∀ v ∈ writes, ¬Accepted nodes v.placement := by
  induction writes using reverseRecOn with
  | nil => exact iff_of_true rfl fun v hv => absurd hv not_mem_nil
  | append_singleton writes w ih =>
    rw [logOf_append, listed_put_eq_empty, ih, forall_mem_append, forall_mem_singleton, and_comm]

instance : Decidable (log.Returns nodes w) := inferInstanceAs (Decidable (_ ∧ _))

/-- The files of other paths are read as before, but the first write makes an index. -/
lemma read_put_iff {sha256Hex : Bytes → String} :
    (∀ q, q ≠ w.path → (log.put nodes w).read sha256Hex q = log.read sha256Hex q) ↔
      ¬Accepted nodes w.placement ∨ w.path = INDEX ∨ log.listed ≠ ∅ := by
  constructor
  · intro h
    by_contra hnot
    rw [not_or, not_or, not_not, not_not] at hnot
    obtain ⟨haccepted, hpath, hempty⟩ := hnot
    have hread := h INDEX (Ne.symm hpath)
    rw [DriveLog.read, DriveLog.read, if_pos rfl, if_pos rfl, if_pos hempty,
      if_neg fun hput => (listed_put_eq_empty.1 hput).1 haccepted] at hread
    cases hread
  · intro h q hq
    by_cases haccepted : Accepted nodes w.placement
    · by_cases hpath : w.path = INDEX
      · rw [DriveLog.read, DriveLog.read, if_neg (hpath ▸ hq), if_neg (hpath ▸ hq), DriveLog.put,
          if_pos haccepted, if_pos hpath]
      · have hlisted := (h.resolve_left (not_not.2 haccepted)).resolve_left hpath
        by_cases hindex : q = INDEX
        · rw [DriveLog.read, DriveLog.read, if_pos hindex, if_pos hindex, if_neg hlisted,
            if_neg fun hput => (listed_put_eq_empty.1 hput).1 haccepted]
        · have hlast : lastTo (log.refs ++ [w]) q = lastTo log.refs q := by
            rw [lastTo_append, if_neg hq.symm]
          have hcount : (log.refs ++ [w]).countP (fun v => v.path = q) =
              log.refs.countP fun v => v.path = q := by
            simp [hq.symm]
          rw [DriveLog.read, DriveLog.read, if_neg hindex, if_neg hindex, DriveLog.put, if_pos haccepted,
            if_neg hpath, hlast, hcount]
    · rw [DriveLog.put, if_neg haccepted]

/-- The listing gains the path of a write that returns; the first write to the path of the index leaves the
keys of its ref there. -/
lemma listed_put_iff :
    ((log.put nodes w).listed = if log.Returns nodes w then insert w.path log.listed else log.listed) ↔
      ¬Accepted nodes w.placement ∨ w.path ≠ INDEX ∨ log.listed ≠ ∅ := by
  by_cases haccepted : Accepted nodes w.placement
  · by_cases hpath : w.path = INDEX
    · by_cases hlisted : log.listed = ∅
      · have hreturns : log.Returns nodes w := ⟨haccepted, fun _ => hlisted⟩
        rw [put, if_pos haccepted, if_pos hpath, if_pos hreturns, if_pos hlisted, hlisted, hpath]
        refine iff_of_false (fun h => ?_) (by simp [haccepted])
        have hkey : "path" ∈ insert INDEX refKeys := by decide
        rw [show insert INDEX refKeys = insert INDEX ∅ from h] at hkey
        exact absurd hkey (by decide)
      · have hreturns : ¬log.Returns nodes w := fun h => hlisted (h.2 hpath)
        rw [put, if_pos haccepted, if_pos hpath, if_neg hreturns]
        exact iff_of_true (if_neg hlisted) (.inr (.inr hlisted))
    · have hreturns : log.Returns nodes w := ⟨haccepted, fun h => absurd h hpath⟩
      rw [put, if_pos haccepted, if_neg hpath, if_pos hreturns]
      exact iff_of_true rfl (.inr (.inl hpath))
  · have hreturns : ¬log.Returns nodes w := fun h => haccepted h.1
    rw [put, if_neg haccepted, if_neg hreturns]
    exact iff_of_true rfl (.inl haccepted)

end

section
variable {σ B : Type} {env : Platform B} {store : MeshStore σ B} {nodes : List String} {replicas : ℕ}
  {s : σ}

/-- A write leaves other paths as they are, and the listing gains its path just when it returns. -/
def Undisturbed (env : Platform B) (store : MeshStore σ B) (nodes : List String) (replicas : ℕ)
    (w : FileWrite) (s : σ) : Prop :=
  let after := run store.step (putFile env nodes replicas w).run s
  (∀ q, q ≠ w.path → getFile env nodes replicas (store.get after.2) (store.getBlob after.2) none q =
      getFile env nodes replicas (store.get s) (store.getBlob s) none q) ∧
    (listFiles env nodes replicas (store.getBlob after.2) none).map List.toFinset =
      (listFiles env nodes replicas (store.getBlob s) none).map fun l =>
        if after.1.toOption.isSome then insert (.str w.path) l.toFinset else l.toFinset

lemma toFinset_sorted_texts (paths : Finset String) :
    ((paths.sort (· ≤ ·)).map Value.str).toFinset = paths.image .str := by
  ext v
  simp

lemma isSome_toOption_iff {ε α : Type} {x : Except ε α} : x.toOption.isSome = true ↔ ∃ a, x = .ok a := by
  cases x with
  | error e | ok a => simp [Except.toOption]

lemma undisturbed_of_replicas (h : ¬(1 ≤ replicas ∧ replicas ≤ nodes.length)) (w : FileWrite) (s : σ) :
    Undisturbed env store nodes replicas w s := by
  have hraises : ∀ key, rendezvous env key nodes replicas = .error (.replicas nodes.length) := by
    intro key
    rw [rendezvous, if_pos (by omega)]
  have hget : ∀ get getBlob q, getFile env nodes replicas get getBlob none q =
      .error (.replicas nodes.length) := by
    intro get getBlob q
    rw [getFile, resolveRef, readAll, refNodes, hraises]
    rfl
  have hlist : ∀ getBlob, listFiles env nodes replicas getBlob none = .error (.replicas nodes.length) := by
    intro getBlob
    rw [listFiles, readAll, refNodes, hraises]
    rfl
  refine ⟨fun q _ => ?_, ?_⟩
  · rw [hget, hget]
  · rw [hlist, hlist]
    rfl

lemma Keeps.undisturbed_iff_log {log : DriveLog} (h : Keeps env store nodes replicas log s) {w}
    (hreplicas : 1 ≤ replicas ∧ replicas ≤ nodes.length)
    (hroots : ∀ v ∈ log.contents, merkleRoot env.sha256Hex w.data = merkleRoot env.sha256Hex v.data →
      w.data = v.data) :
    Undisturbed env store nodes replicas w s ↔ ¬Accepted nodes w.placement ∨ log.listed ≠ ∅ := by
  obtain ⟨hput, hreturns⟩ := h.put hreplicas hroots
  have hfiles : (∀ q, q ≠ w.path →
      getFile env nodes replicas (store.get (run store.step (Drive.putFile env nodes replicas w).run s).2)
        (store.getBlob (run store.step (Drive.putFile env nodes replicas w).run s).2) none q =
      getFile env nodes replicas (store.get s) (store.getBlob s) none q) ↔
      ¬Accepted nodes w.placement ∨ w.path = INDEX ∨ log.listed ≠ ∅ := by
    simp only [hput.getFile_eq hreplicas, h.getFile_eq hreplicas]
    exact read_put_iff
  have hlisting : ((listFiles env nodes replicas
      (store.getBlob (run store.step (Drive.putFile env nodes replicas w).run s).2) none).map
        toFinset = (listFiles env nodes replicas (store.getBlob s) none).map fun l =>
          if (run store.step (Drive.putFile env nodes replicas w).run s).1.toOption.isSome then
            insert (.str w.path) l.toFinset else l.toFinset) ↔
      ¬Accepted nodes w.placement ∨ w.path ≠ INDEX ∨ log.listed ≠ ∅ := by
    have hsome : (run store.step (Drive.putFile env nodes replicas w).run s).1.toOption.isSome = true ↔
        log.Returns nodes w := by
      rw [← hreturns, isSome_toOption_iff]
    have hasks := @exists_replicaNode _ env _ _ hreplicas INDEX
    rw [hput.listFiles_eq hreplicas hasks, h.listFiles_eq hreplicas hasks, ← listed_put_iff]
    show ok _ = ok _ ↔ _
    simp only [ok.injEq, hsome, toFinset_sorted_texts, ← Finset.image_insert, ← apply_ite]
    exact (Finset.image_injective Value.str_injective).eq_iff
  refine Iff.trans (and_congr hfiles hlisting) ?_
  rw [← or_and_left, ← and_or_right, Ne, and_not_self_iff, false_or]

end

/-- A write after others disturbs nothing. The first one makes an index, and leaves other names in the
listing if it is to the path of the index. -/
theorem undisturbed_iff {σ B : Type} (env : Platform B) (store : MeshStore σ B) (nodes : List String)
    (replicas : ℕ) (writes : List FileWrite) (w : FileWrite) (s : σ)
    (hroots : ∀ u ∈ writes ++ [w], ∀ v ∈ writes ++ [w],
      merkleRoot env.sha256Hex u.data = merkleRoot env.sha256Hex v.data → u.data = v.data)
    (hfresh : ∀ node key, store.getBlob s node key = .nothing) :
    Undisturbed env store nodes replicas w (putAll env store nodes replicas writes s) ↔
      ¬(1 ≤ replicas ∧ replicas ≤ nodes.length) ∨ ¬Accepted nodes w.placement ∨
        ∃ v ∈ writes, Accepted nodes v.placement := by
  by_cases hreplicas : 1 ≤ replicas ∧ replicas ≤ nodes.length
  · have hbefore : ∀ v ∈ writes, v ∈ writes ++ [w] := fun v hv => mem_append_left _ hv
    have hlast : w ∈ writes ++ [w] := mem_append_right _ (mem_singleton_self w)
    have hkeeps := keeps_putAll hreplicas (fun u hu v hv => hroots u (hbefore u hu) v (hbefore v hv)) hfresh
    have hlog := hkeeps.undisturbed_iff_log hreplicas fun v hv =>
      hroots w hlast v (hbefore v (mem_of_mem_contents hv))
    rw [hlog, or_iff_right (not_not.2 hreplicas), Ne, listed_logOf_eq_empty]
    simp only [not_forall, not_not, exists_prop]
  · exact iff_of_true (undisturbed_of_replicas hreplicas w _) (.inl hreplicas)

def oneByteTo (path : String) : FileWrite :=
  ⟨path, [⟨0x61⟩], "laptop", ⟨1, 0, 1⟩, "2026-01-01T00:00:00+00:00"⟩

/-- A second file disturbs nothing. -/
theorem secondFile_undisturbed :
    Undisturbed textPlatform (inMemoryMesh ByteArray) ["a", "b"] 2 (oneByteTo "/b")
      (putAll textPlatform (inMemoryMesh ByteArray) ["a", "b"] 2 [oneByteTo "/a"] ([], [])) := by
  refine (undisturbed_iff textPlatform (inMemoryMesh ByteArray) ["a", "b"] 2 [oneByteTo "/a"]
    (oneByteTo "/b") ([], []) ?_ fun _ _ => rfl).2 (.inr (.inr ⟨_, mem_singleton_self _, by decide⟩))
  intro u hu v hv _
  have hdata : ∀ u ∈ [oneByteTo "/a"] ++ [oneByteTo "/b"], u.data = [⟨0x61⟩] := by
    decide
  rw [hdata u hu, hdata v hv]

/-- A first file put as `__index__` is listed with five other names. -/
theorem indexPath_disturbs :
    listFiles textPlatform ["a", "b"] 2 ((inMemoryMesh ByteArray).getBlob ([], [])) none = .ok [] ∧
      listFiles textPlatform ["a", "b"] 2 ((inMemoryMesh ByteArray).getBlob
          (run (inMemoryMesh ByteArray).step
            (putFile textPlatform ["a", "b"] 2 (oneByteTo "__index__")).run ([], [])).2) none =
        .ok (["__index__", "path", "root", "updated_at", "version", "writer"].map .str) := by
  have hreplicas : 1 ≤ 2 ∧ 2 ≤ ["a", "b"].length := by decide
  have hfresh : Keeps textPlatform (inMemoryMesh ByteArray) ["a", "b"] 2 (logOf ["a", "b"] [])
      (putAll textPlatform (inMemoryMesh ByteArray) ["a", "b"] 2 [] ([], [])) :=
    keeps_putAll hreplicas (fun w hw => absurd hw not_mem_nil) fun _ _ => rfl
  have hput := (hfresh.put (w := oneByteTo "__index__") hreplicas fun v hv =>
    absurd hv not_mem_nil).1
  have hlisted : (logOf ["a", "b"] [oneByteTo "__index__"]).listed.sort (· ≤ ·) =
      ["__index__", "path", "root", "updated_at", "version", "writer"] := by
    have hset : (logOf ["a", "b"] [oneByteTo "__index__"]).listed =
        ["__index__", "path", "root", "updated_at", "version", "writer"].toFinset := by decide
    rw [hset, toFinset_sort _ (by decide)]
    decide
  have hasks := @exists_replicaNode _ textPlatform _ _ hreplicas INDEX
  refine ⟨(hfresh.listFiles_eq hreplicas hasks).trans ?_, (hput.listFiles_eq hreplicas hasks).trans ?_⟩
  · exact congrArg (fun l : List String => ok (l.map Value.str)) (Finset.sort_empty _)
  · exact congrArg (fun l : List String => ok (l.map Value.str)) hlisted

end SocioWorkspace.Drive
