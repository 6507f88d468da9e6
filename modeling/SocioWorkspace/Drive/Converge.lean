import SocioWorkspace.Drive.Sync

/-!
# Publishing one name from many devices

Calls of `publish_ref` and `put_file` for one path, interleaved at single operations of an honest
store. A reader takes the greatest of the refs on the replicas, but a replica has the ref that was
published there last, whatever its key.

`returns_refCall` says what a call has put where when it returns, in any interleaving, and
`Published.resolve_after` what a reader finds then; `last_writer_wins_iff` follows.
-/

namespace SocioWorkspace.Drive
open Python Holographic Threads List Value

inductive RefCall where
  | publish (ref : NamespaceRef String)
  | put (w : FileWrite)

def RefCall.path : RefCall → String
  | .publish ref => ref.path
  | .put w => w.path

def RefCall.prog {B : Type} (env : Platform B) (nodes : List String) (replicas : ℕ) :
    RefCall → Action B (NamespaceRef String)
  | .publish ref => do
    let _ ← publishRef env nodes replicas ref
    return ref
  | .put w => putFile env nodes replicas w

section
variable {B : Type} {env : Platform B} {nodes : List String} {replicas : ℕ} {path : String}
  {h : List (StoreOp B × Reply B)}

variable {key : String}

lemma mem_putBlobs {ts : List String} {blob}
    (hops : h.map Prod.fst = ts.map (.putBlob · key blob)) {node b} :
    (∃ r, (.putBlob node key b, r) ∈ h) ↔ node ∈ ts ∧ b = blob := by
  have hmem : (∃ r, (StoreOp.putBlob node key b, r) ∈ h) ↔
      StoreOp.putBlob node key b ∈ h.map Prod.fst := by
    simp
  rw [hmem, hops, mem_map]
  constructor
  · intro hm
    obtain ⟨n, hn, he⟩ := hm
    cases he
    exact ⟨hn, rfl⟩
  · intro hm
    obtain ⟨hn, rfl⟩ := hm
    exact ⟨node, hn, rfl⟩

lemma not_mem_of_key (hkeys : ∀ e ∈ h, e.1.key? ≠ some key) {node b} :
    ¬∃ r, (.putBlob node key b, r) ∈ h := by
  rintro ⟨r, hr⟩
  exact hkeys _ hr rfl

lemma key_of_map {ts : List String} {op : String → StoreOp B}
    (hops : h.map Prod.fst = ts.map op) (hkeys : ∀ node, (op node).key? ≠ some key) :
    ∀ e ∈ h, e.1.key? ≠ some key := by
  intro e he
  have hop := mem_map_of_mem (f := Prod.fst) he
  rw [hops] at hop
  obtain ⟨node, -, hnode⟩ := mem_map.1 hop
  rw [← hnode]
  exact hkeys node

lemma key_of_indexAdd (hr : Returns (indexAdd env nodes replicas path).run h (.ok ())) {name : String}
    (hname : name ≠ INDEX) : ∀ e ∈ h, e.1.key? ≠ some (blobKey name) := by
  obtain ⟨ts, hread, hput, paths, listing, rfl, -, hreads, -, -, hputs⟩ := returns_indexAdd hr
  have hne : ¬some (blobKey INDEX) = some (blobKey name) :=
    fun h => hname (blobKey_inj (Option.some.inj h)).symm
  rw [forall_mem_append]
  exact ⟨key_of_map hreads fun _ => hne, key_of_map hputs fun _ => hne⟩

/-- A call that returns has put its ref on every replica of the name, and nothing else under it. -/
theorem returns_refCall {call : RefCall} (hindex : ∀ w, call = .put w → w.path ≠ INDEX)
    {ref} (hr : Returns (call.prog env nodes replicas).run h (.ok ref)) :
    ref.path = call.path ∧ ∃ ts, refNodes env call.path nodes replicas = .ok ts ∧
      ∀ node b, (∃ r, (.putBlob node (blobKey call.path) b, r) ∈ h) ↔
        node ∈ ts ∧ b = ref.toBytes env := by
  cases call with
  | publish ref' =>
    obtain ⟨h₁, h₂, ts, rfl, hpublish, hret⟩ := returns_bind_ok_iff.1 hr
    obtain ⟨rfl, he⟩ := returns_ret_iff.1 hret
    obtain rfl := Except.ok.inj he
    obtain ⟨hts, hops⟩ := returns_publishBlob hpublish
    rw [append_nil]
    exact ⟨rfl, ts, hts, fun node b => mem_putBlobs hops⟩
  | put w =>
    obtain ⟨hother, hread, hput, hadd, ts, rfl, hkeys, hts, hreads, hpath, hputs, hr'⟩ := returns_putFile hr
    refine ⟨hpath, ts, hts, fun node b => ?_⟩
    have hnot : ¬∃ r, (.putBlob node (blobKey w.path) b, r) ∈ hread := by
      rintro ⟨r, hmem⟩
      have hop := mem_map_of_mem (f := Prod.fst) hmem
      rw [hreads] at hop
      obtain ⟨n, -, he⟩ := mem_map.1 hop
      cases he
    have hnot' := @not_mem_of_key B _ _ (fun e he => hkeys e he w.path) node b
    have hnot'' := @not_mem_of_key B _ _ (key_of_indexAdd hr' (hindex w rfl)) node b
    -- only the third part of the history has puts under the name
    rw [← mem_putBlobs hputs]
    simp only [mem_append, exists_or, RefCall.path]
    constructor
    · intro hmem
      rcases hmem with hmem | hmem | hmem | hmem
      · exact absurd hmem hnot'
      · exact absurd hmem hnot
      · exact hmem
      · exact absurd hmem hnot''
    · intro hmem
      exact .inr (.inr (.inl hmem))

end

section
variable {ι σ B : Type} [DecidableEq ι] {env : Platform B} {store : MeshStore σ B}
  {nodes ts : List String} {replicas : ℕ} {path : String} {calls : ι → RefCall} {s : σ}
  {sched : List ι} {refs : ι → NamespaceRef String}

def callPool (env : Platform B) (nodes : List String) (replicas : ℕ) (calls : ι → RefCall) (s : σ) :
    Pool ι (StoreOp B) (Reply B) σ (Except DriveError (NamespaceRef String)) :=
  ⟨fun i => ((calls i).prog env nodes replicas).run, s⟩

structure Published (env : Platform B) (store : MeshStore σ B) (nodes : List String) (replicas : ℕ)
    (path : String) (calls : ι → RefCall) (s : σ) (sched : List ι)
    (refs : ι → NamespaceRef String) : Prop where
  same : ∀ i, (calls i).path = path
  index : ∀ i w, calls i = .put w → path ≠ INDEX
  returned : ∀ i,
    (exec store.step sched (callPool env nodes replicas calls s)).threads i = .ret (.ok (refs i))

lemma NamespaceRef.map_str_inj {r r' : NamespaceRef String} (h : r.map str = r'.map str) : r = r' := by
  cases r
  cases r'
  simp only [NamespaceRef.map, NamespaceRef.mk.injEq] at h ⊢
  exact ⟨str_inj h.1, str_inj h.2.1, h.2.2.1, str_inj h.2.2.2.1, str_inj h.2.2.2.2⟩

variable (hpub : Published env store nodes replicas path calls s sched refs)
include hpub

lemma Published.puts (hts : refNodes env path nodes replicas = .ok ts) (i : ι) :
    (refs i).path = path ∧ ∀ node b,
      (∃ r, (i, .putBlob node (blobKey path) b, r) ∈
        trace store.step sched (callPool env nodes replicas calls s)) ↔
      node ∈ ts ∧ b = (refs i).toBytes env := by
  have hcall := returns_refCall (fun w hw => ?_) (returns_part store.step (hpub.returned i))
  · obtain ⟨hpath, ts', hts', hputs⟩ := hcall
    rw [hpub.same i] at hpath hts' hputs
    obtain rfl := Except.ok.inj (hts.symm.trans hts')
    refine ⟨hpath, fun node b => ?_⟩
    rw [← hputs node b]
    exact exists_congr fun r => mem_part.symm
  · have hw' := hpub.index i w hw
    rw [← hpub.same i, hw] at hw'
    exact hw'

lemma Published.holder [Nonempty ι] (hts : refNodes env path nodes replicas = .ok ts) {node}
    (hnode : node ∈ ts) :
    ∃ i, lastWrite (blobKey path) node
        (trace store.step sched (callPool env nodes replicas calls s)) = some (i, (refs i).toBytes env) ∧
      store.getBlob (exec store.step sched (callPool env nodes replicas calls s)).state node
        (blobKey path) = .blob ((refs i).toBytes env) := by
  obtain ⟨i₀⟩ := ‹Nonempty ι›
  obtain ⟨r, hput⟩ := ((hpub.puts hts i₀).2 node _).2 ⟨hnode, rfl⟩
  obtain ⟨⟨i, b⟩, hlast⟩ := lastWrite_ne_none hput
  obtain ⟨-, rfl⟩ := ((hpub.puts hts i).2 node b).1 (mem_of_lastWrite hlast)
  refine ⟨i, hlast, ?_⟩
  rw [exec_state, getBlob_replay, hlast]
  rfl

/-- The greatest of the refs that the replicas have is read. -/
theorem Published.resolve_after [Nonempty ι] (hts : refNodes env path nodes replicas = .ok ts)
    (hne : ts ≠ []) :
    ∃ node ∈ ts, ∃ i, lastWrite (blobKey path) node
        (trace store.step sched (callPool env nodes replicas calls s)) = some (i, (refs i).toBytes env) ∧
      (∀ node' ∈ ts, ∀ j b, lastWrite (blobKey path) node'
        (trace store.step sched (callPool env nodes replicas calls s)) = some (j, b) →
          (refs j).key ≤ (refs i).key) ∧
      resolveRef env
        (store.getBlob (exec store.step sched (callPool env nodes replicas calls s)).state) none path
        nodes replicas = .ok (some ((refs i).map .str)) := by
  choose! holder hlast hget using fun node (h : node ∈ ts) => hpub.holder hts h
  have hanswers : answers
      (store.getBlob (exec store.step sched (callPool env nodes replicas calls s)).state ·
        (blobKey path)) none ts =
      (ts.map fun node => refs (holder node)).map (·.toBytes env) := by
    rw [answers_map hget, map_map]
    rfl
  have hpaths : ∀ r ∈ ts.map fun node => refs (holder node), r.path = path := by
    intro r hr
    obtain ⟨node, -, rfl⟩ := mem_map.1 hr
    exact (hpub.puts hts _).1
  obtain ⟨x, hx, hmax, hwinner⟩ := @winner_published _ env path
    (ts.map fun node => refs (holder node)) (by simpa using hne) hpaths
  obtain ⟨node, hnode, rfl⟩ := mem_map.1 hx
  refine ⟨node, hnode, holder node, hlast node hnode, ?_, ?_⟩
  · intro node' hnode' j b hj
    obtain ⟨rfl, -⟩ := Prod.mk.inj (Option.some.inj ((hlast node' hnode').symm.trans hj))
    exact hmax _ (mem_map_of_mem hnode')
  · rw [resolveRef_eq_ok hts, hanswers]
    exact hwinner

/-- The greatest ref is read just when it was the last one to be published on some replica. -/
theorem last_writer_wins_iff (hts : refNodes env path nodes replicas = .ok ts) :
    (∃ i, resolveRef env
        (store.getBlob (exec store.step sched (callPool env nodes replicas calls s)).state) none path
        nodes replicas = .ok (some ((refs i).map .str)) ∧ ∀ j, (refs j).key ≤ (refs i).key) ↔
      ∃ node ∈ ts, ∃ i b, lastWrite (blobKey path) node
        (trace store.step sched (callPool env nodes replicas calls s)) = some (i, b) ∧
          ∀ j, (refs j).key ≤ (refs i).key := by
  constructor
  · intro h
    obtain ⟨i, hres, hmax⟩ := h
    have : Nonempty ι := ⟨i⟩
    obtain ⟨node, hnode, k, hlast, -, hres'⟩ := hpub.resolve_after hts (targets_ne_nil hts)
    rw [hres'] at hres
    have hik : refs k = refs i := NamespaceRef.map_str_inj (Option.some.inj (Except.ok.inj hres))
    exact ⟨node, hnode, k, _, hlast, fun j => hik ▸ hmax j⟩
  · intro h
    obtain ⟨node, hnode, i, b, hlast, hmax⟩ := h
    have : Nonempty ι := ⟨i⟩
    obtain ⟨-, -, k, -, hgreatest, hres⟩ := hpub.resolve_after hts (targets_ne_nil hts)
    exact ⟨k, hres, fun j => (hmax j).trans (hgreatest node hnode i b hlast)⟩

end

def twoRefs : Bool → NamespaceRef String
  | false => sampleRef
  | true => ⟨"/a", "sha256:1", 2, "2026-01-02T00:00:00+00:00", "phone"⟩

lemma path_twoRefs (i : Bool) : (twoRefs i).path = "/a" := by
  cases i <;> rfl

lemma callPool_twoRefs (s : MeshMemory ByteArray) :
    callPool textPlatform ["a", "b"] 2 (fun i => .publish (twoRefs i)) s =
      ⟨fun i => .call (.putBlob "b" (blobKey "/a") ((twoRefs i).toBytes textPlatform)) fun _ =>
        .call (.putBlob "a" (blobKey "/a") ((twoRefs i).toBytes textPlatform)) fun _ =>
        .ret (.ok (twoRefs i)), s⟩ := by
  refine congrArg (fun threads => Pool.mk threads s) (funext fun i => ?_)
  show (do
    let _ ← publishRef textPlatform ["a", "b"] 2 (twoRefs i)
    return twoRefs i : Action ByteArray (NamespaceRef String)).run = _
  rw [publishRef, publishBlob, path_twoRefs, refNodes_sample]
  rfl

lemma published_twoRefs {first second} (h : first ≠ second) :
    Published textPlatform (inMemoryMesh ByteArray) ["a", "b"] 2 "/a"
      (fun i => .publish (twoRefs i)) ([], []) [first, first, second, second] twoRefs where
  same := path_twoRefs
  index i w hw := by cases hw
  returned i := by
    rw [callPool_twoRefs]
    cases first <;> cases second <;> cases i <;> first | rfl | exact absurd rfl h

/-- The greater ref is published last. -/
theorem last_writer_wins_iff_inOrder :
    ∃ i, resolveRef textPlatform ((inMemoryMesh ByteArray).getBlob
        (exec (inMemoryMesh ByteArray).step [false, false, true, true]
          (callPool textPlatform ["a", "b"] 2 (fun i => .publish (twoRefs i)) ([], []))).state) none
        "/a" ["a", "b"] 2 = .ok (some ((twoRefs i).map .str)) ∧
      ∀ j, (twoRefs j).key ≤ (twoRefs i).key := by
  refine (last_writer_wins_iff (published_twoRefs (by decide)) refNodes_sample).2
    ⟨"a", by decide, true, (twoRefs true).toBytes textPlatform, ?_, by decide⟩
  rw [callPool_twoRefs]
  rfl

/-- The greater ref is published first, and the other one is read. -/
theorem greater_ref_overwritten :
    (∀ i, (exec (inMemoryMesh ByteArray).step [true, true, false, false]
        (callPool textPlatform ["a", "b"] 2 (fun i => .publish (twoRefs i)) ([], []))).threads i =
          .ret (.ok (twoRefs i))) ∧
      resolveRef textPlatform ((inMemoryMesh ByteArray).getBlob
        (exec (inMemoryMesh ByteArray).step [true, true, false, false]
          (callPool textPlatform ["a", "b"] 2 (fun i => .publish (twoRefs i)) ([], []))).state) none
        "/a" ["a", "b"] 2 = .ok (some ((twoRefs false).map .str)) ∧
      (twoRefs false).key < (twoRefs true).key := by
  refine ⟨(published_twoRefs (by decide)).returned, ?_, by decide⟩
  rw [resolveRef_eq_ok refNodes_sample, callPool_twoRefs]
  exact winner_replicate rfl 1

end SocioWorkspace.Drive
