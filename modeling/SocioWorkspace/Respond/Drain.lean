import SocioWorkspace.Lib.Run
import SocioWorkspace.Respond.ControlLoop

/-!
# Draining the recorded proposals

Model of `drain_and_open` (`automation/open_recorded_proposals.py`) with `remediate_via_pr`
(`automation/self_heal.py`). The proposals are numbered. Of an error it matters whether the entry that carries
its text can be written: a text with a lone surrogate has no UTF-8, and then `put` raises. A run that raises
forgets what is left of its batch.
-/

namespace SocioWorkspace.Respond
open List Function Prod

/-- Python `MAX_ATTEMPTS`. -/
def MAX_ATTEMPTS : ℕ := 3

/-- A call that returns, raises an `Exception`, or ends the run with something else. -/
inductive Called where
  | returned
  | raised (writable : Bool)
  | exited
deriving DecidableEq

inductive OpenerCall where
  | returned (url : Bool)
  | raised (writable : Bool)
  | exited
deriving DecidableEq

/-- What happens to a proposal in a run: checkout, calls of the opener, clock, and removal of the
directory. -/
structure Visit where
  checkout : Called
  opener : ℕ → OpenerCall
  clock : ℕ →o ℚ
  cleanup : Called

inductive AttemptEnd where
  | opened
  | failed (writable : Bool)
  | exited
deriving DecidableEq

/-- The loop of `remediate_via_pr`, with the default deadline. -/
def prLoop : ControlLoop where
  maxIterations := 2
  deadline := ↑(30 : ℚ)
  target := ↑(↑(0 : ℚ) : WithTop ℚ)
  patience := 2
  safeState := "quarantine-escalate"
  bounded := by decide
  timed := WithTop.coe_lt_coe.2 (by norm_num)
  patient := by decide

def prObserved (opener : ℕ → OpenerCall) (calls : ℕ) : Option LoopError :=
  some ↑(↑(if ∃ k < calls, opener k = .returned true then 0 else 1 : ℚ) : WithTop ℚ)

def lastWritable (opener : ℕ → OpenerCall) (calls : ℕ) : Bool :=
  ((List.range calls).foldl fun writable k => match opener k with
    | .raised w => w
    | _ => writable) true

/-- Python `remediate_via_pr`, with the number of calls of the opener. -/
def remediateViaPr (v : Visit) : AttemptEnd × ℕ :=
  match prLoop.run (prObserved v.opener) v.clock with
  | none => (.exited, 0) -- the loop always returns
  | some r =>
    match (List.range r.acts).find? (v.opener · = .exited) with
    | some k => (.exited, k + 1)
    | none => (if r.converged then .opened else .failed (lastWritable v.opener r.acts), r.acts)

/-- The `with` statement: what the removal of the directory raises takes the place of the rest. -/
def leaveDirectory (cleanup : Called) (ending : AttemptEnd) : AttemptEnd :=
  match cleanup with
  | .returned => ending
  | .raised writable => .failed writable
  | .exited => .exited

/-- The `try` statement of the loop. -/
def attemptOpen (v : Visit) : AttemptEnd × ℕ :=
  match v.checkout with
  | .exited => (leaveDirectory v.cleanup .exited, 0)
  | .raised writable => (leaveDirectory v.cleanup (.failed writable), 0)
  | .returned => (leaveDirectory v.cleanup (remediateViaPr v).1, (remediateViaPr v).2)

/-- A call of the opener that is made ends the run, or no PR is opened and the text of the last error cannot be
written. -/
def Visit.OpenerBreaks (v : Visit) : Prop :=
  ∃ r, prLoop.run (prObserved v.opener) v.clock = some r ∧
    ((∃ k < r.acts, v.opener k = .exited) ∨ r.converged = false ∧ lastWritable v.opener r.acts = false)

/-- The removal of the directory ends the run or leaves a text that cannot be written; or it returns, and the
checkout does so, or the opener after it. -/
def Visit.Breaks (v : Visit) : Prop :=
  v.cleanup = .exited ∨ v.cleanup = .raised false ∨ v.cleanup = .returned ∧
    (v.checkout = .exited ∨ v.checkout = .raised false ∨ v.checkout = .returned ∧ v.OpenerBreaks)

/-- Calls end with an `Exception` at most, and its text can be written. -/
structure Visit.Orderly (v : Visit) : Prop where
  checkout : v.checkout ≠ .exited ∧ v.checkout ≠ .raised false
  opener : ∀ k, v.opener k ≠ .exited ∧ v.opener k ≠ .raised false
  cleanup : v.cleanup ≠ .exited ∧ v.cleanup ≠ .raised false

/-- The two queues, with the `attempts`, and what the runs have reported for each proposal. The flags are
about the last run and about all of them. -/
structure Proposals where
  queue : List (ℕ × ℕ)
  dead : List (ℕ × ℕ)
  opened : List ℕ
  failures : ℕ → ℕ
  calls : ℕ → ℕ
  completed : Bool
  crashed : Bool

structure DrainRun where
  limit : Option ℤ
  visit : ℕ → Visit

/-- The turn of an entry; `false` if it raises. -/
def settle (entry : ℕ × ℕ) (result : AttemptEnd × ℕ) (s : Proposals) : Bool × Proposals :=
  let s := { s with calls := Function.update s.calls entry.1 (s.calls entry.1 + result.2) }
  match result.1 with
  | .exited => (false, s)
  | .opened => (true, { s with opened := s.opened ++ [entry.1] })
  | .failed writable =>
    let s := { s with failures := Function.update s.failures entry.1 (s.failures entry.1 + 1) }
    if !writable then (false, s)
    else if MAX_ATTEMPTS ≤ entry.2 + 1 then (true, { s with dead := s.dead ++ [(entry.1, entry.2 + 1)] })
    else (true, { s with queue := s.queue ++ [(entry.1, entry.2 + 1)] })

def openBatch (visit : ℕ → Visit) : List (ℕ × ℕ) → Proposals → Bool × Proposals
  | [], s => (true, s)
  | entry :: batch, s =>
    match settle entry (attemptOpen (visit entry.1)) s with
    | (true, s) => openBatch visit batch s
    | (false, s) => (false, s)

def DrainRun.size (r : DrainRun) (s : Proposals) : ℕ := r.limit.elim s.queue.length Int.toNat

/-- Python `drain_and_open`. -/
def drainAndOpen (r : DrainRun) (s : Proposals) : Bool × Proposals :=
  openBatch r.visit (s.queue.take (r.size s)) { s with queue := s.queue.drop (r.size s) }

def drainStep (s : Proposals) (r : DrainRun) : Proposals :=
  { (drainAndOpen r s).2 with
    completed := (drainAndOpen r s).1
    crashed := s.crashed || !(drainAndOpen r s).1 }

def recorded (n : ℕ) : Proposals := ⟨(List.range n).map (·, 0), [], [], fun _ => 0, fun _ => 0, true, false⟩

def Proposals.places (s : Proposals) : List ℕ := s.queue.map Prod.fst ++ s.opened ++ s.dead.map Prod.fst

/-- Every proposal is at one place, with its failures counted and not too many calls of the opener. -/
structure Accounted (n : ℕ) (s : Proposals) : Prop where
  places : s.places.Perm (List.range n)
  waiting : ∀ x ∈ s.queue, x.2 = s.failures x.1 ∧ x.2 ≤ 2
  dead : ∀ x ∈ s.dead, s.failures x.1 = MAX_ATTEMPTS
  calls : ∀ id < n, s.calls id ≤ 6

structure BatchInv (n : ℕ) (batch : List (ℕ × ℕ)) (s : Proposals) : Prop where
  places : (batch.map Prod.fst ++ s.places).Perm (List.range n)
  waiting : ∀ x ∈ batch ++ s.queue, x.2 = s.failures x.1 ∧ x.2 ≤ 2 ∧ s.calls x.1 ≤ 2 * x.2
  dead : ∀ x ∈ s.dead, s.failures x.1 = MAX_ATTEMPTS ∧ s.calls x.1 ≤ 6
  opened : ∀ id ∈ s.opened, s.calls id ≤ 6

section
variable {n : ℕ} {v : Visit} {visit : ℕ → Visit} {entry : ℕ × ℕ} {batch : List (ℕ × ℕ)} {s s' : Proposals}
  {result : AttemptEnd × ℕ}

lemma attemptOpen_calls (v : Visit) : (attemptOpen v).2 ≤ 2 := by
  have hremediate : (remediateViaPr v).2 ≤ 2 := by
    obtain ⟨r, hrun, hacts⟩ := run_ends prLoop (prObserved v.opener) v.clock
    rw [remediateViaPr, hrun]
    dsimp only
    cases hfind : (range r.acts).find? (v.opener · = .exited) with
    | none => exact hacts
    | some k => exact (mem_range.1 (mem_of_find?_eq_some hfind)).trans_le hacts
  rw [attemptOpen]
  cases v.checkout with
  | returned => exact hremediate
  | raised writable | exited => exact Nat.zero_le 2

lemma BatchInv.not_mem (inv : BatchInv n (entry :: batch) s) :
    entry.1 ∉ batch.map fst ∧ entry.1 ∉ s.queue.map fst ∧ entry.1 ∉ s.opened ∧
      entry.1 ∉ s.dead.map fst := by
  have hnodup := inv.places.nodup_iff.2 nodup_range
  rw [map_cons, cons_append, nodup_cons, Proposals.places] at hnodup
  simpa only [mem_append, not_or, and_assoc] using hnodup.1

lemma ne_of_not_mem {l : List (ℕ × ℕ)} {id} (h : id ∉ l.map fst) {x} (hx : x ∈ l) : x.1 ≠ id :=
  fun he => h (he ▸ mem_map_of_mem hx)

/-- What is about the other proposals stays so when only the counters of the entry change. -/
lemma BatchInv.frame (inv : BatchInv n (entry :: batch) s) {failures calls : ℕ → ℕ}
    (hfailures : ∀ id ≠ entry.1, failures id = s.failures id)
    (hcalls : ∀ id ≠ entry.1, calls id = s.calls id) :
    (∀ x ∈ batch ++ s.queue, x.2 = failures x.1 ∧ x.2 ≤ 2 ∧ calls x.1 ≤ 2 * x.2) ∧
      (∀ x ∈ s.dead, failures x.1 = MAX_ATTEMPTS ∧ calls x.1 ≤ 6) ∧ ∀ id ∈ s.opened, calls id ≤ 6 := by
  obtain ⟨hbatch, hqueue, hopened, hdead⟩ := inv.not_mem
  refine ⟨fun x hx => ?_, fun x hx => ?_, fun id hid => ?_⟩
  · have hne : x.1 ≠ entry.1 := by
      rcases mem_append.1 hx with hx | hx
      · exact ne_of_not_mem hbatch hx
      · exact ne_of_not_mem hqueue hx
    rw [hfailures _ hne, hcalls _ hne]
    exact inv.waiting x (mem_cons_of_mem _ hx)
  · have hne := ne_of_not_mem hdead hx
    rw [hfailures _ hne, hcalls _ hne]
    exact inv.dead x hx
  · rw [hcalls id (ne_of_mem_of_not_mem hid hopened)]
    exact inv.opened id hid

lemma BatchInv.settle (inv : BatchInv n (entry :: batch) s) (hcalls : result.2 ≤ 2)
    (h : settle entry result s = (true, s')) : BatchInv n batch s' := by
  obtain ⟨hfailures, htwo, hentry⟩ := inv.waiting entry mem_cons_self
  have hupdate : ∀ (f : ℕ → ℕ) (k : ℕ), ∀ id ≠ entry.1, update f entry.1 k id = f id :=
    fun f k id hid => update_of_ne hid k f
  have hplaces : ∀ l l' : List ℕ, l ++ l' = batch.map fst ++ s.places →
      (l ++ entry.1 :: l').Perm (range n) := by
    intro l l' hl
    refine perm_middle.trans (List.Perm.trans ?_ inv.places)
    rw [hl, map_cons, cons_append]
  rw [Respond.settle] at h
  cases hresult : result.1 with
  | exited =>
    rw [hresult] at h
    cases h
  | opened =>
    rw [hresult] at h
    cases h
    obtain ⟨hwaiting, hdead, hopened⟩ := inv.frame (fun _ _ => rfl) (hupdate s.calls (s.calls entry.1 + result.2))
    refine ⟨?_, hwaiting, hdead, fun id hid => ?_⟩
    · have hperm := hplaces (batch.map fst ++ (s.queue.map fst ++ s.opened)) (s.dead.map fst)
        (append_assoc ..)
      simpa only [Proposals.places, append_assoc, singleton_append] using hperm
    · rcases mem_append.1 hid with hid | hid
      · exact hopened id hid
      · rw [mem_singleton.1 hid]
        dsimp only
        rw [update_self]
        omega
  | failed writable =>
    rw [hresult] at h
    dsimp only at h
    obtain ⟨hwaiting, hdead, hopened⟩ := inv.frame (hupdate s.failures (s.failures entry.1 + 1))
      (hupdate s.calls (s.calls entry.1 + result.2))
    split_ifs at h with hwritable hlast
    · cases h
    · cases h
      refine ⟨?_, hwaiting, fun x hx => ?_, hopened⟩
      · have hperm := hplaces (batch.map fst ++ s.places) [] (append_nil _)
        simpa only [Proposals.places, append_assoc, map_append, map_singleton] using hperm
      · rcases mem_append.1 hx with hx | hx
        · exact hdead x hx
        · rw [mem_singleton.1 hx]
          dsimp only
          rw [update_self, update_self]
          rw [MAX_ATTEMPTS] at hlast ⊢
          omega
    · cases h
      refine ⟨?_, fun x hx => ?_, hdead, hopened⟩
      · have hperm := hplaces (batch.map fst ++ s.queue.map fst) (s.opened ++ s.dead.map fst)
          (by simp [Proposals.places])
        simpa only [Proposals.places, append_assoc, map_append, map_singleton,
          singleton_append, cons_append, nil_append] using hperm
      · rw [← append_assoc] at hx
        rcases mem_append.1 hx with hx | hx
        · exact hwaiting x hx
        · rw [mem_singleton.1 hx]
          dsimp only
          rw [update_self, update_self]
          rw [MAX_ATTEMPTS] at hlast
          omega

lemma places_settle (h : settle entry result s = (false, s')) : s'.places = s.places := by
  rw [settle] at h
  cases hresult : result.1 with
  | exited =>
    rw [hresult] at h
    cases h
    rfl
  | opened =>
    rw [hresult] at h
    cases h
  | failed writable =>
    rw [hresult] at h
    dsimp only at h
    split_ifs at h
    · cases h
      rfl
    · cases h
    · cases h

lemma length_places_settle : (settle entry result s).2.places.length ≤ s.places.length + 1 := by
  rw [settle]
  cases result.1 with
  | exited => exact Nat.le_succ _
  | opened => simp [Proposals.places]; omega
  | failed writable =>
    dsimp only
    split_ifs <;> simp [Proposals.places] <;> omega

/-- A batch that is completed keeps the proposals accounted for, and one that raises does not. -/
lemma BatchInv.openBatch (inv : BatchInv n batch s) :
    ((openBatch visit batch s).1 = true → BatchInv n [] (openBatch visit batch s).2) ∧
      ((openBatch visit batch s).1 = false → (openBatch visit batch s).2.places.length < n) := by
  induction batch generalizing s with
  | nil => exact ⟨fun _ => inv, fun h => absurd h.symm Bool.false_ne_true⟩
  | cons entry batch ih =>
    rw [Respond.openBatch]
    cases hsettle : Respond.settle entry (attemptOpen (visit entry.1)) s with
    | mk ok s' =>
      cases ok with
      | true => exact ih (inv.settle (attemptOpen_calls _) hsettle)
      | false =>
        refine ⟨fun h => absurd h Bool.false_ne_true, fun _ => ?_⟩
        have hlength := inv.places.length_eq
        rw [length_append, length_map, length_cons, length_range] at hlength
        rw [places_settle hsettle]
        omega

lemma length_places_openBatch :
    (openBatch visit batch s).2.places.length ≤ batch.length + s.places.length := by
  induction batch generalizing s with
  | nil => exact Nat.le_add_left _ _
  | cons entry batch ih =>
    have hsettle := @length_places_settle entry s (attemptOpen (visit entry.1))
    rw [openBatch, length_cons]
    cases h : settle entry (attemptOpen (visit entry.1)) s with
    | mk ok s' =>
      rw [h] at hsettle
      cases ok with
      | true =>
        have hle := @ih s'
        dsimp only at hsettle ⊢
        omega
      | false =>
        dsimp only at hsettle ⊢
        omega

lemma BatchInv.accounted (inv : BatchInv n [] s) : Accounted n s := by
  refine ⟨inv.places, fun x hx => ?_, fun x hx => (inv.dead x hx).1, fun id hid => ?_⟩
  · obtain ⟨hfailures, htwo, -⟩ := inv.waiting x hx
    exact ⟨hfailures, htwo⟩
  · have hmem : id ∈ s.places := inv.places.mem_iff.2 (mem_range.2 hid)
    rw [Proposals.places, mem_append, mem_append] at hmem
    rcases hmem with (hmem | hmem) | hmem
    · obtain ⟨x, hx, rfl⟩ := mem_map.1 hmem
      obtain ⟨-, htwo, hcalls⟩ := inv.waiting x hx
      omega
    · exact inv.opened id hmem
    · obtain ⟨x, hx, rfl⟩ := mem_map.1 hmem
      exact (inv.dead x hx).2

lemma BatchInv.take (inv : BatchInv n [] s) (k : ℕ) :
    BatchInv n (s.queue.take k) { s with queue := s.queue.drop k } := by
  refine ⟨?_, ?_, inv.dead, inv.opened⟩
  · have hplaces := inv.places
    rw [Proposals.places] at hplaces ⊢
    rwa [← append_assoc, ← append_assoc, ← map_append, take_append_drop]
  · rw [take_append_drop]
    exact inv.waiting

/-- As long as no run has raised everything is accounted for, and then something is lost. -/
def DrainInv (n : ℕ) (s : Proposals) : Prop :=
  (s.crashed = false → BatchInv n [] s) ∧ (s.crashed = true → s.places.length < n)

lemma DrainInv.step (inv : DrainInv n s) (r : DrainRun) : DrainInv n (drainStep s r) := by
  cases hcrashed : s.crashed with
  | false =>
    have hbatch := @BatchInv.openBatch n r.visit _ _ ((inv.1 hcrashed).take (r.size s))
    refine ⟨fun h => ?_, fun h => ?_⟩
    · rw [drainStep, hcrashed] at h
      obtain ⟨hplaces, hwaiting, hdead, hopened⟩ := hbatch.1 (by simpa [drainAndOpen] using h)
      exact ⟨hplaces, hwaiting, hdead, hopened⟩
    · rw [drainStep, hcrashed] at h
      exact hbatch.2 (by simpa [drainAndOpen] using h)
  | true =>
    have hlost : (drainStep s r).places.length < n := by
      refine lt_of_le_of_lt ?_ (inv.2 hcrashed)
      refine (@length_places_openBatch r.visit (s.queue.take (r.size s)) _).trans ?_
      simp [Proposals.places]
      omega
    refine ⟨fun h => ?_, fun _ => hlost⟩
    rw [drainStep, hcrashed] at h
    cases h
end

section
variable {v : Visit} {visit : ℕ → Visit} {s : Proposals} {n : ℕ}

lemma remediateViaPr_breaks :
    (remediateViaPr v).1 = .exited ∨ (remediateViaPr v).1 = .failed false ↔ v.OpenerBreaks := by
  obtain ⟨r, hrun, -⟩ := run_ends prLoop (prObserved v.opener) v.clock
  simp only [Visit.OpenerBreaks, remediateViaPr, hrun, Option.some.injEq, exists_eq_left']
  cases hfind : (range r.acts).find? (v.opener · = .exited) with
  | some k =>
    refine iff_of_true (.inl rfl) (.inl ⟨k, mem_range.1 (mem_of_find?_eq_some hfind), ?_⟩)
    simpa using find?_some hfind
  | none =>
    have hnone : ¬∃ k < r.acts, v.opener k = .exited := by simpa using hfind
    rw [or_iff_right hnone]
    cases r.converged <;> simp

lemma settle_raises_iff {entry} : (settle entry (attemptOpen v) s).1 = false ↔ v.Breaks := by
  have hsettle : ∀ result : AttemptEnd × ℕ, (settle entry result s).1 = false ↔
      result.1 = .exited ∨ result.1 = .failed false := by
    intro result
    rw [settle]
    cases result.1 with
    | exited | opened => simp
    | failed writable =>
      cases writable with
      | false => simp
      | true =>
        dsimp only
        split_ifs <;> simp_all
  rw [hsettle, attemptOpen, Visit.Breaks, ← remediateViaPr_breaks]
  cases v.checkout <;> cases v.cleanup <;> simp [leaveDirectory]

/-- A batch raises exactly if one of its visits does. -/
lemma openBatch_raises_iff {batch} :
    (openBatch visit batch s).1 = false ↔ ∃ entry ∈ batch, (visit entry.1).Breaks := by
  induction batch generalizing s with
  | nil => simp [openBatch]
  | cons entry batch ih =>
    have hentry := @settle_raises_iff (visit entry.1) s entry
    rw [openBatch, exists_mem_cons_iff]
    cases h : settle entry (attemptOpen (visit entry.1)) s with
    | mk ok s' =>
      rw [h] at hentry
      cases ok with
      | true => simpa [← hentry] using ih
      | false => simp [← hentry]

lemma drainAndOpen_raises_iff {r : DrainRun} :
    (drainAndOpen r s).1 = false ↔ ∃ entry ∈ s.queue.take (r.size s), (r.visit entry.1).Breaks :=
  openBatch_raises_iff

lemma Visit.Orderly.not_breaks (h : v.Orderly) : ¬v.Breaks := by
  rintro (hbreaks | hbreaks | ⟨-, hbreaks | hbreaks | ⟨-, r, -, ⟨k, -, hbreaks⟩ | ⟨-, hbreaks⟩⟩⟩)
  · exact h.cleanup.1 hbreaks
  · exact h.cleanup.2 hbreaks
  · exact h.checkout.1 hbreaks
  · exact h.checkout.2 hbreaks
  · exact (h.opener k).1 hbreaks
  · have hwritable : ∀ calls, lastWritable v.opener calls = true := by
      intro calls
      refine foldlRecOn (motive := (· = true)) _ _ rfl fun writable hw k _ => ?_
      cases hk : v.opener k with
      | returned url | exited => exact hw
      | raised w =>
        cases w with
        | true => rfl
        | false => exact absurd hk (h.opener k).2
    rw [hwritable] at hbreaks
    cases hbreaks

lemma along_of_orderly {runs : List DrainRun} {P : Proposals → DrainRun → Prop}
    (h : ∀ r ∈ runs, ∀ id, (r.visit id).Orderly)
    (hs : s.crashed = false) : Run.Along drainStep (fun s r => s.crashed = true → P s r) s runs := by
  induction runs generalizing s with
  | nil => trivial
  | cons r runs ih =>
    refine ⟨fun hcrashed => absurd (hs.symm.trans hcrashed) Bool.false_ne_true,
      ih (fun r hr => h r (mem_cons_of_mem _ hr)) ?_⟩
    have hcompleted : (drainAndOpen r s).1 ≠ false := by
      rw [Ne, drainAndOpen_raises_iff]
      rintro ⟨entry, -, hbreaks⟩
      exact (h r mem_cons_self entry.1).not_breaks hbreaks
    simpa [drainStep, hs] using hcompleted

end

/-- Python `drain_and_open`: the proposals are accounted for after each completed run exactly if after a run that
raised every batch has a visit that makes its run raise too; in particular if all visits are orderly. -/
theorem proposals_accounted_iff (n : ℕ) (runs : List DrainRun) :
    (Run.Always drainStep (fun s => s.completed = true → Accounted n s) (recorded n) runs ↔
      Run.Along drainStep (fun s r => s.crashed = true →
        ∃ entry ∈ s.queue.take (r.size s), (r.visit entry.1).Breaks) (recorded n) runs) ∧
    ((∀ r ∈ runs, ∀ id, (r.visit id).Orderly) →
      Run.Always drainStep (fun s => s.completed = true → Accounted n s) (recorded n) runs) := by
  have hrecorded : BatchInv n [] (recorded n) := by
    refine ⟨?_, fun x hx => ?_, by simp [recorded], by simp [recorded]⟩
    · simp [recorded, Proposals.places, comp_def]
    · obtain ⟨id, -, rfl⟩ := mem_map.1 hx
      exact ⟨rfl, Nat.zero_le 2, le_rfl⟩
  have hexact : Run.Always drainStep (fun s => s.completed = true → Accounted n s) (recorded n) runs ↔
      Run.Along drainStep (fun s r => s.crashed = true →
        ∃ entry ∈ s.queue.take (r.size s), (r.visit entry.1).Breaks) (recorded n) runs := by
    simp only [← drainAndOpen_raises_iff]
    refine Run.always_iff_along (I := DrainInv n) (fun s r inv => inv.step r) (fun s r inv _ => ?_)
      ⟨fun _ => hrecorded, fun h => absurd h Bool.false_ne_true⟩ fun _ => hrecorded.accounted
    have inv' := inv.step r
    constructor
    · intro h hcrashed
      by_contra hcompleted
      have haccounted := (h (by simpa [drainStep] using hcompleted)).places.length_eq
      have hlost := inv'.2 (by simp [drainStep, hcrashed])
      rw [length_range] at haccounted
      omega
    · intro h hcompleted
      refine (inv'.1 ?_).accounted
      cases hcrashed : s.crashed with
      | true =>
        rw [drainStep] at hcompleted
        rw [h hcrashed] at hcompleted
        cases hcompleted
      | false =>
        rw [drainStep] at hcompleted ⊢
        simpa [hcrashed] using hcompleted
  exact ⟨hexact, fun h => hexact.2 (along_of_orderly h rfl)⟩

def unwritableVisit : Visit :=
  ⟨.raised false, fun _ => .raised false, ⟨fun _ => 0, fun _ _ _ => le_rfl⟩, .returned⟩

/-- The first of two proposals fails so, and the next run finds nothing. -/
theorem proposals_lost :
    (drainStep (drainStep (recorded 2) ⟨none, fun _ => unwritableVisit⟩)
        ⟨none, fun _ => unwritableVisit⟩).places = [] ∧
      ¬ Run.Always drainStep (fun s => s.completed = true → Accounted 2 s) (recorded 2)
        [⟨none, fun _ => unwritableVisit⟩, ⟨none, fun _ => unwritableVisit⟩] := by
  have hlost : (drainStep (drainStep (recorded 2) ⟨none, fun _ => unwritableVisit⟩)
      ⟨none, fun _ => unwritableVisit⟩).places = [] := by decide
  refine ⟨hlost, fun h => ?_⟩
  have hperm := (h.2.2 (by decide)).places
  exact absurd hperm.length_eq (by decide)

end SocioWorkspace.Respond
