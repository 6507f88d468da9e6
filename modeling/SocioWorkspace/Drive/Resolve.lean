import SocioWorkspace.Drive.Namespace

/-!
# Reading from lying replicas

`resolve_ref` and `resolve_manifest` against replicas that serve any bytes. A reader of a name passes over
what raises `ValueError` or `KeyError`; a JSON document that is no dict raises `TypeError`. A reader of a
root passes over manifests for other roots only.

`winner_eq_ok_iff` and `firstManifest_eq_ok` say what the two readers return for any answers;
`resolution_tolerates_iff` puts the replicas of the rendezvous hashing in.
-/

namespace SocioWorkspace.Drive
open Python Holographic List Except Option

section
variable {B : Type} (env : Platform B)

/-- A blob with an exception that `resolve_ref` does not catch. -/
def Crashes (b : B) : Prop := ∃ e, fromBytes env b = .error e ∧ e ≠ .value ∧ e ≠ .key

def candidate (path : String) (b : B) : Option (NamespaceRef Value) :=
  (fromBytes env b).toOption.filter fun r => r.path = .str path

/-- Every ref compares with the best one before it. -/
def Comparable : Option (NamespaceRef Value) → List (NamespaceRef Value) → Prop
  | _, [] => True
  | best, r :: rs => ∃ x, better env best r = .ok x ∧ Comparable (some x) rs

variable {env} {path : String} {best : Option (NamespaceRef Value)}

lemma candidate_eq_some {b r} :
    candidate env path b = some r ↔ fromBytes env b = .ok r ∧ r.path = .str path := by
  rw [candidate, filter_eq_some_iff, decide_eq_true_eq]
  refine and_congr_left fun _ => ?_
  cases fromBytes env b with
  | error e => exact iff_of_false nofun nofun
  | ok r' => simp [Except.toOption]

variable {r : NamespaceRef String}

lemma candidate_toBytes (hpath : r.path = path) : candidate env path (r.toBytes env) = some (r.map .str) :=
  candidate_eq_some.2 ⟨fromBytes_toBytes env r, congrArg Value.str hpath⟩

lemma winner_cons (b : B) (blobs : List B) :
    (¬Crashes env b ∧ candidate env path b = none ∧
        winner env path best (b :: blobs) = winner env path best blobs) ∨
      (¬Crashes env b ∧ ∃ r, candidate env path b = some r ∧
        winner env path best (b :: blobs) = (better env best r >>= fun x => winner env path (some x) blobs)) ∨
      Crashes env b ∧ ∃ e, winner env path best (b :: blobs) = .error e := by
  have hcaught : ∀ {e}, fromBytes env b = .error e → (e = .value ∨ e = .key) →
      ¬Crashes env b ∧ candidate env path b = none := by
    intro e he hcaught
    refine ⟨?_, ?_⟩
    · rintro ⟨e', he', hvalue, hkey⟩
      obtain rfl := error.inj (he.symm.trans he')
      exact hcaught.elim hvalue hkey
    · rw [candidate, he]
      rfl
  rw [winner]
  cases hb : fromBytes env b with
  | error e =>
    -- `resolve_ref` catches `ValueError` and `KeyError` only
    cases e with
    | value => exact .inl ⟨(hcaught hb (.inl rfl)).1, (hcaught hb (.inl rfl)).2, rfl⟩
    | key => exact .inl ⟨(hcaught hb (.inr rfl)).1, (hcaught hb (.inr rfl)).2, rfl⟩
    | type | attr | overflow | recursion => exact .inr (.inr ⟨⟨_, hb, nofun, nofun⟩, _, rfl⟩)
  | ok r =>
    have hsafe : ¬Crashes env b := by
      rintro ⟨e, he, -⟩
      rw [hb] at he
      cases he
    by_cases hpath : r.path = .str path
    · refine .inr (.inl ⟨hsafe, r, candidate_eq_some.2 ⟨hb, hpath⟩, ?_⟩)
      simp only [hpath, ne_eq, not_true_eq_false, if_false]
    · refine .inl ⟨hsafe, ?_, ?_⟩
      · rw [candidate, hb]
        simp [Except.toOption, hpath]
      · simp only [hpath, ne_eq, not_false_eq_true, if_true]

variable {blobs : List B}

lemma winner_eq_ok_iff :
    (∃ res, winner env path best blobs = .ok res) ↔
      (∀ b ∈ blobs, ¬Crashes env b) ∧ Comparable env best (blobs.filterMap (candidate env path)) := by
  induction blobs generalizing best with
  | nil => exact iff_of_true ⟨best, rfl⟩ ⟨nofun, trivial⟩
  | cons b blobs ih =>
    rw [forall_mem_cons, filterMap_cons]
    rcases @winner_cons _ env path best b blobs with
      ⟨hsafe, hnone, hw⟩ | ⟨hsafe, r, hr, hw⟩ | ⟨hcrash, e, hw⟩
    · rw [hw, hnone, and_iff_right hsafe]
      exact ih
    · rw [hw, hr, and_iff_right hsafe]
      simp only [bind_eq_ok, Comparable]
      constructor
      · intro h
        obtain ⟨res, x, hx, h⟩ := h
        obtain ⟨hall, hcomp⟩ := ih.1 ⟨res, h⟩
        exact ⟨hall, x, hx, hcomp⟩
      · intro h
        obtain ⟨hall, x, hx, hcomp⟩ := h
        obtain ⟨res, h⟩ := ih.2 ⟨hall, hcomp⟩
        exact ⟨res, x, hx, h⟩
    · rw [hw]
      exact iff_of_false nofun fun h => h.1.1 hcrash

lemma better_mem {r x} (h : better env best r = .ok x) : x = r ∨ best = some x := by
  cases best with
  | none => exact .inl (ok.inj h).symm
  | some y =>
    obtain ⟨gt, -, h⟩ := bind_eq_ok.1 h
    cases gt with
    | true => exact .inl (ok.inj h).symm
    | false => exact .inr (congrArg some (ok.inj h))

lemma winner_mem {res} (h : winner env path best blobs = .ok res) :
    (res = none → best = none ∧ ∀ b ∈ blobs, candidate env path b = none) ∧
      ∀ r, res = some r → best = some r ∨ ∃ b ∈ blobs, candidate env path b = some r := by
  induction blobs generalizing best with
  | nil =>
    obtain rfl := ok.inj h
    exact ⟨fun hn => ⟨hn, nofun⟩, fun r hr => .inl hr⟩
  | cons b blobs ih =>
    rcases @winner_cons _ env path best b blobs with
      ⟨-, hnone, hw⟩ | ⟨-, r, hr, hw⟩ | ⟨-, e, hw⟩
    · rw [hw] at h
      obtain ⟨hempty, hmem⟩ := ih h
      refine ⟨fun hn => ?_, fun r hr => ?_⟩
      · exact ⟨(hempty hn).1, forall_mem_cons.2 ⟨hnone, (hempty hn).2⟩⟩
      · exact (hmem r hr).imp_right fun ⟨b', hb', hc⟩ => ⟨b', mem_cons_of_mem b hb', hc⟩
    · rw [hw] at h
      obtain ⟨x, hx, h⟩ := bind_eq_ok.1 h
      obtain ⟨hempty, hmem⟩ := ih h
      refine ⟨fun hn => ?_, fun y hy => ?_⟩
      · cases (hempty hn).1
      · cases hmem y hy with
        | inr hb =>
          obtain ⟨b', hb', hc⟩ := hb
          exact .inr ⟨b', mem_cons_of_mem b hb', hc⟩
        | inl hxy =>
          obtain rfl := some.inj hxy
          cases better_mem hx with
          | inl hxr => exact .inr ⟨b, mem_cons_self .., hxr ▸ hr⟩
          | inr hbest => exact .inl hbest
    · rw [hw] at h
      cases h

/-- The order of the refs that are published. -/
def NamespaceRef.key (r : NamespaceRef String) : ℤ ×ₗ String ×ₗ String :=
  toLex (r.version, toLex (r.updatedAt, r.writer))

lemma keyGt_published (r x : NamespaceRef String) :
    keyGt env (r.map .str) (x.map .str) = .ok (x.key < r.key) := by
  have hlex : x.key < r.key ↔ x.version < r.version ∨ x.version = r.version ∧
      (x.updatedAt < r.updatedAt ∨ x.updatedAt = r.updatedAt ∧ x.writer < r.writer) := by
    rw [NamespaceRef.key, NamespaceRef.key, Prod.Lex.toLex_lt_toLex, Prod.Lex.toLex_lt_toLex]
  -- tuples are compared at the first place where they differ
  rw [keyGt]
  simp only [NamespaceRef.map, env.cmp.eq_str, env.cmp.gt_str]
  by_cases hversion : r.version = x.version
  · rw [if_neg (not_not.2 hversion)]
    by_cases hat : r.updatedAt = x.updatedAt
    · by_cases hwriter : r.writer = x.writer
      · simp [bind, Except.bind, pure, Except.pure, hlex, hversion, hat, hwriter]
      · simp [bind, Except.bind, hlex, hversion, hat, hwriter]
    · simp [bind, Except.bind, hlex, hversion, hat, Ne.symm hat]
  · rw [if_pos hversion]
    refine congrArg ok (decide_eq_decide.2 ?_)
    rw [hlex]
    exact ⟨.inl, fun h => h.resolve_right fun h' => hversion h'.1.symm⟩

lemma better_published (best : Option (NamespaceRef String)) (r : NamespaceRef String) :
    ∃ x : NamespaceRef String, (x = r ∨ best = some x) ∧ r.key ≤ x.key ∧
      (∀ y, best = some y → y.key ≤ x.key) ∧
      better env (best.map fun y => y.map .str) (r.map .str) = .ok (x.map .str) := by
  cases best with
  | none => exact ⟨r, .inl rfl, le_rfl, nofun, rfl⟩
  | some y =>
    have hbetter : better env (some (y.map .str)) (r.map .str) =
        if y.key < r.key then .ok (r.map .str) else .ok (y.map .str) := by
      rw [better, keyGt_published]
      by_cases h : y.key < r.key
      · rw [if_pos h, decide_eq_true h]
        rfl
      · rw [if_neg h, decide_eq_false h]
        rfl
    by_cases h : y.key < r.key
    · refine ⟨r, .inl rfl, le_rfl, ?_, hbetter.trans (if_pos h)⟩
      intro z hz
      obtain rfl := some.inj hz
      exact h.le
    · refine ⟨y, .inr rfl, not_lt.1 h, ?_, hbetter.trans (if_neg h)⟩
      intro z hz
      obtain rfl := some.inj hz
      exact le_rfl

lemma winner_toBytes_cons (hpath : r.path = path) (blobs : List B) :
    winner env path best (r.toBytes env :: blobs) =
      (better env best (r.map .str) >>= fun x => winner env path (some x) blobs) := by
  have hmap : (r.map Value.str).path = .str path := congrArg Value.str hpath
  rw [winner, fromBytes_toBytes]
  simp only [hmap, ne_eq, not_true_eq_false, if_false]

lemma winner_published_best (y : NamespaceRef String) {refs} (hpaths : ∀ r ∈ refs, r.path = path) :
    ∃ x ∈ y :: refs, (∀ r ∈ y :: refs, r.key ≤ x.key) ∧
      winner env path (some (y.map .str)) (refs.map (·.toBytes env)) = .ok (some (x.map .str)) := by
  induction refs generalizing y with
  | nil =>
    refine ⟨y, mem_cons_self .., ?_, rfl⟩
    intro r hr
    rw [mem_singleton.1 hr]
  | cons r refs ih =>
    rw [forall_mem_cons] at hpaths
    obtain ⟨x, hx, hrx, hyx, hbetter⟩ := @better_published _ env (some y) r
    obtain ⟨z, hz, hmax, hwinner⟩ := ih x hpaths.2
    have hxz := hmax x (mem_cons_self ..)
    refine ⟨z, ?_, ?_, ?_⟩
    · cases mem_cons.1 hz with
      | inr hz => exact mem_cons_of_mem y (mem_cons_of_mem r hz)
      | inl hzx =>
        rw [hzx]
        cases hx with
        | inl hxr => exact hxr ▸ mem_cons_of_mem y (mem_cons_self ..)
        | inr hyx' => exact some.inj hyx' ▸ mem_cons_self ..
    · refine forall_mem_cons.2 ⟨(hyx y rfl).trans hxz, forall_mem_cons.2 ⟨hrx.trans hxz, ?_⟩⟩
      exact fun r' hr' => hmax r' (mem_cons_of_mem x hr')
    · rw [map_cons, winner_toBytes_cons hpaths.1]
      exact bind_eq_ok.2 ⟨_, hbetter, hwinner⟩

/-- Of published refs the greatest wins. -/
theorem winner_published {refs : List (NamespaceRef String)} (hne : refs ≠ [])
    (hpaths : ∀ r ∈ refs, r.path = path) :
    ∃ x ∈ refs, (∀ r ∈ refs, r.key ≤ x.key) ∧
      winner env path none (refs.map (·.toBytes env)) = .ok (some (x.map .str)) := by
  cases refs with
  | nil => exact absurd rfl hne
  | cons r refs =>
    rw [forall_mem_cons] at hpaths
    obtain ⟨x, hx, hmax, hwinner⟩ := @winner_published_best _ env path r refs hpaths.2
    refine ⟨x, hx, hmax, ?_⟩
    rw [map_cons, winner_toBytes_cons hpaths.1]
    exact hwinner

lemma winner_replicate (hpath : r.path = path) (n : ℕ) :
    winner env path none (replicate (n + 1) (r.toBytes env)) = .ok (some (r.map .str)) := by
  have hall : ∀ x ∈ replicate (n + 1) r, x = r := fun x hx => eq_of_mem_replicate hx
  obtain ⟨x, hx, -, hwinner⟩ := @winner_published _ env path (replicate (n + 1) r)
    (by simp) (fun x hx => hall x hx ▸ hpath)
  rw [map_replicate, hall x hx] at hwinner
  exact hwinner

def Serves (env : Platform B) (root : String) (b : B) : Prop :=
  ∃ m, deserialize env b = .ok m ∧ m.root = .str root

def Malformed (env : Platform B) (b : B) : Prop := ∃ e, deserialize env b = .error e

lemma serves_serialize {m} (hnodup : (m.fragmentNodes.map Prod.fst).Nodup) :
    Serves env m.root (serialize env m) :=
  ⟨_, deserialize_serialize env hnodup, rfl⟩

variable {root : String}

lemma Serves.not_malformed {b} (h : Serves env root b) : ¬Malformed env b := by
  obtain ⟨m, hm, -⟩ := h
  rintro ⟨e, he⟩
  rw [hm] at he
  cases he

/-- The first manifest for the root is found if all blobs before it are manifests. -/
lemma firstManifest_eq_ok :
    (∃ m, firstManifest env root blobs = .ok (some m) ∧ m.root = .str root) ↔
      ∃ pre b post, blobs = pre ++ b :: post ∧ Serves env root b ∧ ∀ b' ∈ pre, ¬Malformed env b' := by
  induction blobs with
  | nil =>
    refine iff_of_false ?_ ?_
    · rintro ⟨m, hm, -⟩
      cases hm
    · rintro ⟨pre, b, post, h, -⟩
      cases pre <;> cases h
  | cons b blobs ih =>
    rw [firstManifest]
    cases hb : deserialize env b with
    | error e =>
      -- `_deserialize` is not in the `try`, so the loop ends here
      refine iff_of_false ?_ ?_
      · rintro ⟨m, hm, -⟩
        cases hm
      · rintro ⟨pre, b', post, h, hserves, hpre⟩
        have hmal : Malformed env b := ⟨e, hb⟩
        cases pre with
        | nil =>
          obtain ⟨rfl, -⟩ := cons.inj h
          exact hserves.not_malformed hmal
        | cons c pre =>
          obtain ⟨rfl, -⟩ := cons.inj h
          exact hpre _ (mem_cons_self ..) hmal
    | ok m =>
      have hsafe : ¬Malformed env b := by
        rintro ⟨e, he⟩
        rw [hb] at he
        cases he
      by_cases hroot : m.root = .str root
      · refine iff_of_true ⟨m, if_neg (not_not.2 hroot), hroot⟩ ?_
        exact ⟨[], b, blobs, rfl, ⟨m, hb, hroot⟩, nofun⟩
      · have hskip : (ok m >>= fun m : StoredManifest =>
            if m.root ≠ .str root then firstManifest env root blobs else pure (some m)) =
              firstManifest env root blobs := if_pos hroot
        rw [hskip, ih]
        constructor
        · intro h
          obtain ⟨pre, c, post, rfl, hserves, hpre⟩ := h
          exact ⟨b :: pre, c, post, rfl, hserves, forall_mem_cons.2 ⟨hsafe, hpre⟩⟩
        · intro h
          obtain ⟨pre, c, post, h, hserves, hpre⟩ := h
          cases pre with
          | nil =>
            obtain ⟨rfl, -⟩ := cons.inj h
            obtain ⟨m', hm', hroot'⟩ := hserves
            obtain rfl := ok.inj (hb.symm.trans hm')
            exact absurd hroot' hroot
          | cons d pre =>
            obtain ⟨rfl, rfl⟩ := cons.inj h
            exact ⟨pre, c, post, rfl, hserves, fun b' hb' => hpre b' (mem_cons_of_mem _ hb')⟩

/-- Every malformed blob comes after a manifest for the root. -/
def Outranked (env : Platform B) (root : String) (blobs : List B) : Prop :=
  ∀ pre b post, blobs = pre ++ b :: post → Malformed env b → ∃ b' ∈ pre, Serves env root b'

lemma outranked_iff (hserved : ∃ b ∈ blobs, Serves env root b) :
    (∃ pre b post, blobs = pre ++ b :: post ∧ Serves env root b ∧ ∀ b' ∈ pre, ¬Malformed env b') ↔
      Outranked env root blobs := by
  constructor
  · rintro ⟨pre, b, post, rfl, hserves, hpre⟩ pre' b' post' h hmal
    -- the malformed blob is behind the manifest
    rcases append_eq_append_iff.1 h with ⟨mid, rfl, hmid⟩ | ⟨mid, rfl, hmid⟩
    · cases mid with
      | nil =>
        obtain ⟨rfl, -⟩ := cons.inj hmid
        exact absurd hmal hserves.not_malformed
      | cons c mid =>
        obtain ⟨rfl, -⟩ := cons.inj hmid
        exact ⟨b, by simp, hserves⟩
    · cases mid with
      | nil =>
        obtain ⟨rfl, -⟩ := cons.inj hmid
        exact absurd hmal hserves.not_malformed
      | cons c mid =>
        obtain ⟨rfl, -⟩ := cons.inj hmid
        exact absurd hmal (hpre _ (by simp))
  · intro hout
    classical
    -- the first manifest for the root
    obtain ⟨b, hb⟩ : ∃ b, blobs.find? (fun b => Serves env root b) = some b := by
      obtain ⟨b, hmem, hserves⟩ := hserved
      rw [← isSome_iff_exists, find?_isSome]
      exact ⟨b, hmem, by simpa using hserves⟩
    obtain ⟨hserves, pre, post, rfl, hpre⟩ := find?_eq_some_iff_append.1 hb
    refine ⟨pre, b, post, rfl, by simpa using hserves, fun b' hb' hmal => ?_⟩
    obtain ⟨pre', post', rfl⟩ := append_of_mem hb'
    obtain ⟨b'', hb'', hserves'⟩ := hout pre' b' (post' ++ b :: post) (by simp) hmal
    have hnot := hpre b'' (mem_append_left _ hb'')
    simp [hserves'] at hnot

section
variable {getBlob : String → String → Reply B} {reachable : Option (List String)} {root : String}
  {nodes targets : List String} {replicas : ℕ}

lemma resolveRef_eq_ok (htargets : refNodes env path nodes replicas = .ok targets) {res} :
    resolveRef env getBlob reachable path nodes replicas = .ok res ↔
      winner env path none (answers (getBlob · (blobKey path)) reachable targets) = .ok res := by
  rw [resolveRef, readAll, htargets]
  exact mapError_eq_ok

lemma resolveManifest_eq_ok (htargets : manifestNodes env root nodes replicas = .ok targets) {m} :
    resolveManifest env getBlob reachable root nodes replicas = .ok m ↔
      firstManifest env root (answers (getBlob · (manifestKey root)) reachable targets) =
        .ok (some m) := by
  constructor
  · intro h
    obtain ⟨_, ht, h⟩ := bind_eq_ok.1 h
    obtain rfl := ok.inj (htargets.symm.trans ht)
    obtain ⟨res, hres, h⟩ := bind_eq_ok.1 h
    cases res with
    | none => cases h
    | some m' =>
      obtain rfl := ok.inj h
      exact mapError_eq_ok.1 hres
  · intro h
    refine bind_eq_ok.2 ⟨targets, htargets, bind_eq_ok.2 ⟨some m, ?_, rfl⟩⟩
    exact mapError_eq_ok.2 h

/-- With a reachable honest replica a name is resolved just when every blob is read or its exception caught
and all refs compare, and a root just when a manifest for it outranks all malformed blobs. -/
theorem resolution_tolerates_iff :
    (∀ path targets, refNodes env path nodes replicas = .ok targets →
      (∃ node ∈ targets, Asks reachable node ∧ ∃ r : NamespaceRef String, r.path = path ∧
        getBlob node (blobKey path) = .blob (r.toBytes env)) →
      ((∃ r, resolveRef env getBlob reachable path nodes replicas = .ok (some r) ∧ r.path = .str path) ↔
        (∀ b ∈ answers (getBlob · (blobKey path)) reachable targets, ¬Crashes env b) ∧
          Comparable env none ((answers (getBlob · (blobKey path)) reachable targets).filterMap
            (candidate env path)))) ∧
    ∀ root targets, manifestNodes env root nodes replicas = .ok targets →
      (∃ node ∈ targets, Asks reachable node ∧ ∃ m : PropagationManifest,
        m.root = root ∧ (m.fragmentNodes.map Prod.fst).Nodup ∧
        getBlob node (manifestKey root) = .blob (serialize env m)) →
      ((∃ m, resolveManifest env getBlob reachable root nodes replicas = .ok m ∧ m.root = .str root) ↔
        Outranked env root (answers (getBlob · (manifestKey root)) reachable targets)) := by
  refine ⟨?_, ?_⟩
  · intro path targets htargets href
    obtain ⟨node, hnode, hasks, ref, hpath, hget⟩ := href
    have hmem : ref.toBytes env ∈ answers (getBlob · (blobKey path)) reachable targets :=
      mem_answers.2 ⟨node, hnode, hasks, by rw [hget]; rfl⟩
    simp only [resolveRef_eq_ok htargets]
    rw [← winner_eq_ok_iff]
    constructor
    · intro h
      obtain ⟨r, hr, -⟩ := h
      exact ⟨_, hr⟩
    · intro h
      obtain ⟨res, hres⟩ := h
      obtain ⟨hempty, hcand⟩ := winner_mem hres
      cases res with
      | none =>
        have hnone := (hempty rfl).2 _ hmem
        rw [candidate_toBytes hpath] at hnone
        cases hnone
      | some r =>
        refine ⟨r, hres, ?_⟩
        cases hcand r rfl with
        | inl h => cases h
        | inr h =>
          obtain ⟨b, -, hb⟩ := h
          exact (candidate_eq_some.1 hb).2
  · intro root targets htargets hmanifest
    obtain ⟨node, hnode, hasks, m, rfl, hnodup, hget⟩ := hmanifest
    have hmem : serialize env m ∈ answers (getBlob · (manifestKey m.root)) reachable targets :=
      mem_answers.2 ⟨node, hnode, hasks, by rw [hget]; rfl⟩
    simp only [resolveManifest_eq_ok htargets]
    rw [firstManifest_eq_ok, outranked_iff ⟨_, hmem, serves_serialize hnodup⟩]

end

end

noncomputable def textPlatform : Platform ByteArray :=
  ⟨sha256HexDigest, sha256Weight, textJson, decimalInts, textCompare⟩

def sampleRef : NamespaceRef String :=
  ⟨"/a", "sha256:0", 1, "2026-01-01T00:00:00+00:00", "laptop"⟩

def sampleManifest (root : String) : PropagationManifest := ⟨root, 1, 1, 0, "runtime", 1, [(1, ["a"])]⟩

noncomputable def lyingReplica (lie : ByteArray) (node key : String) : Reply ByteArray :=
  .blob (if node = "b" then lie
    else if key = blobKey "/a" then sampleRef.toBytes textPlatform
    else serialize textPlatform (sampleManifest "sha256:0"))

lemma refNodes_sample : refNodes textPlatform "/a" ["a", "b"] 2 = .ok ["b", "a"] :=
  rendezvous_eq_ok.2 ⟨by decide, by decide +kernel⟩

lemma manifestNodes_sample : manifestNodes textPlatform "sha256:0" ["a", "b"] 2 = .ok ["b", "a"] :=
  rendezvous_eq_ok.2 ⟨by decide, by decide +kernel⟩

lemma answers_sampleRef (lie : ByteArray) :
    answers (lyingReplica lie · (blobKey "/a")) none ["b", "a"] =
      [lie, sampleRef.toBytes textPlatform] := rfl

lemma answers_sampleManifest (lie : ByteArray) :
    answers (lyingReplica lie · (manifestKey "sha256:0")) none ["b", "a"] =
      [lie, serialize textPlatform (sampleManifest "sha256:0")] := rfl

/-- A manifest for another root is harmless to both readers. -/
theorem resolution_tolerates_iff_otherRoot :
    (∃ r, resolveRef textPlatform
        (lyingReplica (serialize textPlatform (sampleManifest "sha256:1"))) none "/a" ["a", "b"] 2 =
          .ok (some r) ∧ r.path = .str "/a") ∧
    ∃ m, resolveManifest textPlatform
        (lyingReplica (serialize textPlatform (sampleManifest "sha256:1"))) none "sha256:0"
          ["a", "b"] 2 = .ok m ∧ m.root = .str "sha256:0" := by
  have hnodup : ∀ root, ((sampleManifest root).fragmentNodes.map Prod.fst).Nodup :=
    fun root => nodup_singleton 1
  have hkey : fromBytes textPlatform (serialize textPlatform (sampleManifest "sha256:1")) =
      .error .key := by
    have hpath : (SortedMap.ofList (manifestDoc (sampleManifest "sha256:1"))).get? "path" = none :=
      SortedMap.get?_ofList_eq_none (by
        decide)
    have hitem : item (.dict (.ofList (manifestDoc (sampleManifest "sha256:1")))) "path" =
        .error .key := by
      rw [item, Value.asDict_dict]
      exact congrArg (orRaise .key) hpath
    rw [fromBytes, serialize, textPlatform.json.loads_dumps]
    simp only [bind, Except.bind, hitem]
  have htolerates := @resolution_tolerates_iff _ textPlatform
    (lyingReplica (serialize textPlatform (sampleManifest "sha256:1"))) none ["a", "b"] 2
  have href := htolerates.1 "/a" _ refNodes_sample ⟨"a", by decide, asks_none "a", sampleRef, rfl, rfl⟩
  have hmanifest := htolerates.2 "sha256:0" _ manifestNodes_sample
    ⟨"a", by decide, asks_none "a", sampleManifest "sha256:0", rfl, hnodup _, rfl⟩
  refine ⟨href.2 ?_, hmanifest.2 ?_⟩
  · rw [answers_sampleRef, ← winner_eq_ok_iff, winner, hkey]
    obtain ⟨x, -, -, hx⟩ := @winner_published _ textPlatform "/a" [sampleRef] (by simp) (by decide)
    exact ⟨_, hx⟩
  · rw [answers_sampleManifest]
    intro pre b post h hmal
    have hserves : ∀ root, ¬Malformed textPlatform (serialize textPlatform (sampleManifest root)) :=
      fun root => (serves_serialize (hnodup root)).not_malformed
    have hb : b ∈ pre ++ b :: post := by simp
    rw [← h] at hb
    cases mem_cons.1 hb with
    | inl he => exact absurd (he ▸ hmal) (hserves _)
    | inr hb => exact absurd (mem_singleton.1 hb ▸ hmal) (hserves _)

/-- A JSON document that is no dict stops both readers, although a replica is honest. -/
theorem number_stops_resolution :
    resolveRef textPlatform (lyingReplica (textPlatform.json.dumps (.int 1))) none "/a" ["a", "b"] 2 =
        .error (.python .type) ∧
      resolveManifest textPlatform (lyingReplica (textPlatform.json.dumps (.int 1))) none "sha256:0"
        ["a", "b"] 2 = .error (.python .type) ∧
      lyingReplica (textPlatform.json.dumps (.int 1)) "a" (blobKey "/a") =
        .blob (sampleRef.toBytes textPlatform) ∧
      lyingReplica (textPlatform.json.dumps (.int 1)) "a" (manifestKey "sha256:0") =
        .blob (serialize textPlatform (sampleManifest "sha256:0")) := by
  have hloads := textPlatform.json.loads_dumps (.int 1)
  refine ⟨?_, ?_, rfl, rfl⟩
  · have hbytes : fromBytes textPlatform (textPlatform.json.dumps (.int 1)) = .error .type := by
      rw [fromBytes, hloads]
      rfl
    rw [resolveRef, readAll, refNodes_sample]
    show (winner textPlatform "/a" none
      (answers (lyingReplica _ · (blobKey "/a")) none ["b", "a"])).mapError _ = _
    rw [answers_sampleRef, winner, hbytes]
    rfl
  · have hbytes : deserialize textPlatform (textPlatform.json.dumps (.int 1)) = .error .type := by
      rw [deserialize, hloads]
      rfl
    rw [resolveManifest, manifestNodes_sample]
    show ((firstManifest textPlatform "sha256:0"
      (answers (lyingReplica _ · (manifestKey "sha256:0")) none ["b", "a"])).mapError _ >>= _) = _
    rw [answers_sampleManifest, firstManifest, hbytes]
    rfl

end SocioWorkspace.Drive
