import Mathlib.Data.List.Basic
import SocioWorkspace.Lib.Basic

/-!
# Verify and roll back

Model of `reconcile` and `resync_mirror_drift` of `automation/executors.py`. Any call of the file system may
raise, and then it may have changed anything; a call that returns has done to the file at its path what it
should and nothing to other paths. A check reads the state, and a regeneration may change all of it.
-/

namespace SocioWorkspace.Respond

/-- What is raised: an `Exception` with its text, or something that `except Exception` does not catch. -/
inductive Raised where
  | exception (text : String)
  | exit
deriving DecidableEq

inductive Entry (B : Type) where
  | absent
  | file (bytes : B)
  | other
deriving DecidableEq

/-- A file system with states `σ`, paths `P` and contents `B`. -/
structure FileSystem (σ P B : Type) where
  entry : σ → P → Entry B
  exists? : P → σ → Except Raised Bool
  readBytes : P → σ → Except Raised B
  writeBytes : P → B → σ → Except Raised Unit × σ
  unlink : P → σ → Except Raised Unit × σ
  absent_of_exists : ∀ p s, exists? p s = .ok false → entry s p = .absent
  file_of_read : ∀ p s b, readBytes p s = .ok b → entry s p = .file b
  write_self : ∀ p b s s', writeBytes p b s = (.ok (), s') → entry s' p = .file b
  write_other : ∀ p b s s' q, writeBytes p b s = (.ok (), s') → q ≠ p → entry s' q = entry s q
  unlink_self : ∀ p s s', unlink p s = (.ok (), s') → entry s' p = .absent
  unlink_other : ∀ p s s' q, unlink p s = (.ok (), s') → q ≠ p → entry s' q = entry s q

/-- Python `Reconciler`. -/
structure Reconciler (σ P : Type) where
  name : String
  check : σ → Except Raised Bool
  regenerate : σ → Except Raised Unit × σ
  artifacts : List P

structure ReconcileReport where
  executor : String
  actionTaken : String
  healed : Bool
  rolledBack : Bool
  error : Option String

section
variable {σ P B : Type} [DecidableEq P] (fs : FileSystem σ P B)

def FileSystem.prior (s : σ) (p : P) : Except Raised (P × Option B) := do
  if ← fs.exists? p s then
    return (p, some (← fs.readBytes p s))
  else
    return (p, none)

/-- Python `_snapshot`. -/
def FileSystem.snapshot (paths : List P) (s : σ) : Except Raised (List (P × Option B)) :=
  paths.eraseDups.mapM (fs.prior s)

def FileSystem.putBack (item : P × Option B) (s : σ) : Except Raised Unit × σ :=
  match item.2 with
  | some bytes => fs.writeBytes item.1 bytes s
  | none =>
    match fs.exists? item.1 s with
    | .error e => (.error e, s)
    | .ok true => fs.unlink item.1 s
    | .ok false => (.ok (), s)

/-- Python `_restore`. -/
def FileSystem.restore : List (P × Option B) → σ → Except Raised Unit × σ
  | [], s => (.ok (), s)
  | item :: items, s =>
    match fs.putBack item s with
    | (.error e, s) => (.error e, s)
    | (.ok _, s) => FileSystem.restore items s

def FileSystem.rollBack (snapshot : List (P × Option B)) (report : ReconcileReport) (s : σ) :
    Except Raised ReconcileReport × σ :=
  match fs.restore snapshot s with
  | (.error e, s) => (.error e, s)
  | (.ok _, s) => (.ok { report with rolledBack := true }, s)

/-- What `reconcile` and `resync_mirror_drift` do; they differ in the texts. -/
def FileSystem.reconcileWith (unassessable unverified failed : String) (r : Reconciler σ P) (s : σ) :
    Except Raised ReconcileReport × σ :=
  match r.check s with
  | .error .exit => (.error .exit, s)
  | .error (.exception text) => (.ok ⟨r.name, "abort", false, false, some (unassessable ++ text)⟩, s)
  | .ok true => (.ok ⟨r.name, "noop", true, false, none⟩, s)
  | .ok false =>
    match fs.snapshot r.artifacts s with
    | .error e => (.error e, s)
    | .ok snapshot =>
      match r.regenerate s with
      | (.error .exit, s) => (.error .exit, s)
      | (.error (.exception text), s) =>
        fs.rollBack snapshot ⟨r.name, "abort", false, false, some ("regeneration failed: " ++ text)⟩ s
      | (.ok _, s) =>
        match r.check s with
        | .error .exit => (.error .exit, s)
        | .error (.exception text) =>
          fs.rollBack snapshot ⟨r.name, "regenerated", false, false, some (unverified ++ text)⟩ s
        | .ok true => (.ok ⟨r.name, "regenerated", true, false, none⟩, s)
        | .ok false => fs.rollBack snapshot ⟨r.name, "regenerated", false, false, some failed⟩ s

/-- Python `reconcile`. -/
def reconcile (r : Reconciler σ P) (s : σ) : Except Raised ReconcileReport × σ :=
  fs.reconcileWith "cannot assess (source of truth unreadable): " "post-regeneration verification error: "
    "post-regeneration verification failed; rolled back" r s
end

/-- What the re-sync of the mirrors takes from `yaml`, from its engine and from Python. -/
structure MirrorFiles (σ P B V : Type) extends FileSystem σ P B where
  load : P → σ → Except Raised V
  isMapping : V → Bool
  notAMapping : P → V → String
  orEmpty : V → V
  buildPayload : V → Except Raised V
  eq : V → V → Bool
  mkdirParents : P → σ → Except Raised Unit × σ
  safeDump : V → Except Raised String
  statusHeader : String
  writeText : P → String → σ → Except Raised Unit × σ

section
variable {σ P B V : Type} [DecidableEq P] (fs : MirrorFiles σ P B V) (registryPath statusPath : P)

/-- Python `is_in_sync`: a status that cannot be read, or is no mapping, is out of sync. -/
def isInSync (s : σ) : Except Raised Bool := do
  if ← fs.exists? statusPath s then
    let registry ← fs.load registryPath s
    if fs.isMapping registry then
      let expected ← fs.buildPayload registry
      match fs.load statusPath s with
      | .error .exit => throw .exit
      | .error (.exception _) => return false
      | .ok current => return fs.isMapping current && fs.eq current expected
    else
      throw (.exception (fs.notAMapping registryPath registry))
  else
    return false

/-- The third part of `resync_mirror_drift`. -/
def regenerateStatus (s : σ) : Except Raised Unit × σ :=
  match fs.load registryPath s >>= fun registry => fs.buildPayload (fs.orEmpty registry) with
  | .error e => (.error e, s)
  | .ok payload =>
    match fs.mkdirParents statusPath s with
    | (.error e, s) => (.error e, s)
    | (.ok _, s) =>
      match fs.safeDump payload with
      | .error e => (.error e, s)
      | .ok body => fs.writeText statusPath (fs.statusHeader ++ body) s

/-- Python `resync_mirror_drift`. -/
def resyncMirrorDrift (s : σ) : Except Raised ReconcileReport × σ :=
  fs.reconcileWith "cannot assess drift (source of truth unreadable): " "post-write verification error: "
    "post-write verification failed; rolled back"
    ⟨"resync_mirror_drift", isInSync fs registryPath statusPath, regenerateStatus fs registryPath statusPath,
      [statusPath]⟩ s
end

section
variable {σ P B : Type}

/-- A healed artifact passes the check, and a call that reports none has left every artifact as it was. -/
structure VerifiedOrRestored (fs : FileSystem σ P B) (check : σ → Except Raised Bool) (artifacts : List P) (s : σ)
    (out : Except Raised ReconcileReport × σ) : Prop where
  verified : ∀ report, out.1 = .ok report → report.healed = true → check out.2 = .ok true
  restored : ∀ report, out.1 = .ok report → report.healed = false →
    ∀ p ∈ artifacts, fs.entry out.2 p = fs.entry s p

variable {fs : FileSystem σ P B} {s s' s₀ : σ} {items : List (P × Option B)}

/-- What an item of a snapshot of `s₀` says. -/
def FileSystem.Recorded (fs : FileSystem σ P B) (s₀ : σ) (item : P × Option B) : Prop :=
  fs.entry s₀ item.1 = item.2.elim .absent .file

lemma recorded_of_prior {p item} (h : fs.prior s p = .ok item) : item.1 = p ∧ fs.Recorded s item := by
  obtain ⟨found, hfound, h⟩ := bind_eq_ok.1 h
  cases found with
  | true =>
    obtain ⟨bytes, hbytes, h⟩ := bind_eq_ok.1 h
    cases h
    exact ⟨rfl, fs.file_of_read p s bytes hbytes⟩
  | false =>
    cases h
    exact ⟨rfl, fs.absent_of_exists p s hfound⟩

lemma entry_putBack {item} (hitem : fs.Recorded s₀ item) (h : fs.putBack item s = (.ok (), s')) :
    fs.entry s' item.1 = fs.entry s₀ item.1 ∧ ∀ q ≠ item.1, fs.entry s' q = fs.entry s q := by
  obtain ⟨p, prior⟩ := item
  rw [FileSystem.putBack] at h
  cases prior with
  | some bytes => exact ⟨(fs.write_self p bytes s s' h).trans hitem.symm,
      fun q hq => fs.write_other p bytes s s' q h hq⟩
  | none =>
    cases hfound : fs.exists? p s with
    | error e =>
      rw [hfound] at h
      cases h
    | ok found =>
      rw [hfound] at h
      cases found with
      | true => exact ⟨(fs.unlink_self p s s' h).trans hitem.symm, fun q hq => fs.unlink_other p s s' q h hq⟩
      | false =>
        cases h
        exact ⟨(fs.absent_of_exists p s hfound).trans hitem.symm, fun q _ => rfl⟩

/-- What has been brought back stays so, and what is still to come will be. -/
lemma entry_restore (hitems : ∀ item ∈ items, fs.Recorded s₀ item) (h : fs.restore items s = (.ok (), s'))
    {p} (hp : p ∈ items.map Prod.fst ∨ fs.entry s p = fs.entry s₀ p) : fs.entry s' p = fs.entry s₀ p := by
  induction items generalizing s with
  | nil =>
    cases h
    exact hp.resolve_left List.not_mem_nil
  | cons item items ih =>
    rw [List.forall_mem_cons] at hitems
    rw [FileSystem.restore] at h
    cases hturn : fs.putBack item s with
    | mk result mid =>
      rw [hturn] at h
      cases result with
      | error e => cases h
      | ok u =>
        obtain ⟨hself, hother⟩ := entry_putBack hitems.1 hturn
        refine ih hitems.2 h ?_
        by_cases hpi : p = item.1
        · exact .inr (hpi ▸ hself)
        · rw [hother p hpi]
          refine hp.imp_left fun hmem => ?_
          rw [List.map_cons, List.mem_cons] at hmem
          exact hmem.resolve_left hpi

variable {check : σ → Except Raised Bool}

lemma verifiedOrRestored_error {artifacts} (e : Raised) :
    VerifiedOrRestored fs check artifacts s (.error e, s') := by
  constructor
  · intro report h
    cases h
  · intro report h
    cases h

variable [DecidableEq P]

lemma recorded_of_snapshot {paths} (h : fs.snapshot paths s = .ok items) :
    (∀ item ∈ items, fs.Recorded s item) ∧ ∀ p ∈ paths, p ∈ items.map Prod.fst := by
  have hall := forall₂_of_mapM_eq_ok h
  constructor
  · intro item hitem
    obtain ⟨p, -, hp⟩ := exists_mem_of_forall₂ hall.flip hitem
    exact (recorded_of_prior hp).2
  · intro p hp
    obtain ⟨item, hitem, hprior⟩ := exists_mem_of_forall₂ hall (List.mem_eraseDups.2 hp)
    exact List.mem_map.2 ⟨item, hitem, (recorded_of_prior hprior).1⟩

lemma verifiedOrRestored_rollBack {artifacts report}
    (hsnapshot : fs.snapshot artifacts s₀ = .ok items) (hreport : report.healed = false) :
    VerifiedOrRestored fs check artifacts s₀ (fs.rollBack items report s) := by
  obtain ⟨hrecorded, hpaths⟩ := recorded_of_snapshot hsnapshot
  rw [FileSystem.rollBack]
  cases hrestore : fs.restore items s with
  | mk result s' =>
    cases result with
    | error e => exact verifiedOrRestored_error e
    | ok u =>
      refine ⟨fun out hout hhealed => ?_, fun _ _ _ p hp => ?_⟩
      · cases hout
        rw [hreport] at hhealed
        cases hhealed
      · exact entry_restore hrecorded hrestore (.inl (hpaths p hp))

lemma verifiedOrRestored_reconcileWith (unassessable unverified failed : String) (r : Reconciler σ P)
    (s : σ) :
    VerifiedOrRestored fs r.check r.artifacts s (fs.reconcileWith unassessable unverified failed r s) := by
  have hhealed : ∀ (report : ReconcileReport) (s' : σ), report.healed = true → r.check s' = .ok true →
      VerifiedOrRestored fs r.check r.artifacts s (.ok report, s') := by
    refine fun report s' hreport hcheck => ⟨fun _ _ _ => hcheck, fun out hout hout' => ?_⟩
    cases hout
    rw [hreport] at hout'
    cases hout'
  rw [FileSystem.reconcileWith]
  split
  · exact verifiedOrRestored_error _
  · refine ⟨fun report hout hreport => ?_, fun _ _ _ _ _ => rfl⟩
    cases hout
    cases hreport
  · next hcheck => exact hhealed _ _ rfl hcheck
  · split
    · exact verifiedOrRestored_error _
    · next hsnapshot =>
      split
      · exact verifiedOrRestored_error _
      · exact verifiedOrRestored_rollBack hsnapshot rfl
      · split
        · exact verifiedOrRestored_error _
        · exact verifiedOrRestored_rollBack hsnapshot rfl
        · next hcheck => exact hhealed _ _ rfl hcheck
        · exact verifiedOrRestored_rollBack hsnapshot rfl
end

/-- Whatever the regeneration does, a report is about a verified fix or about artifacts as they were. -/
theorem reconcile_verified_or_restored {σ P B V : Type} [DecidableEq P] (fs : MirrorFiles σ P B V)
    (r : Reconciler σ P) (registryPath statusPath : P) (s : σ) :
    VerifiedOrRestored fs.toFileSystem r.check r.artifacts s (reconcile fs.toFileSystem r s) ∧
      VerifiedOrRestored fs.toFileSystem (isInSync fs registryPath statusPath) [statusPath] s
        (resyncMirrorDrift fs registryPath statusPath s) :=
  ⟨verifiedOrRestored_reconcileWith _ _ _ r s,
    verifiedOrRestored_reconcileWith _ _ _
      ⟨_, isInSync fs registryPath statusPath, regenerateStatus fs registryPath statusPath, [statusPath]⟩ s⟩

end SocioWorkspace.Respond
