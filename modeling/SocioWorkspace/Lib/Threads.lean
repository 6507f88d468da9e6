import Mathlib

/-!
# Programs over a shared object

A program returns, or it calls an operation of the object and goes on with the answer. It runs alone (`run`),
or in a pool of threads that a schedule interleaves at single operations (`exec`). `Returns p h a` says that
`p` returns `a` after the calls and answers `h`.
-/

namespace SocioWorkspace.Threads
open Function List

inductive Prog (Op Res α : Type) where
  | ret (a : α)
  | call (op : Op) (next : Res → Prog Op Res α)

/-- The calls and answers after which a program returns. -/
inductive Returns {Op Res α : Type} : Prog Op Res α → List (Op × Res) → α → Prop where
  | ret {a : α} : Returns (.ret a) [] a
  | call {op : Op} {next : Res → Prog Op Res α} {r : Res} {h : List (Op × Res)} {a : α} :
    Returns (next r) h a → Returns (.call op next) ((op, r) :: h) a

section
variable {Op Res α β ε : Type}

def Prog.bind : Prog Op Res α → (α → Prog Op Res β) → Prog Op Res β
  | .ret a, f => f a
  | .call op next, f => .call op fun r => (next r).bind f

instance : Monad (Prog Op Res) where
  pure := .ret
  bind := .bind

lemma Prog.bind_assoc {γ : Type} (p : Prog Op Res α) (f : α → Prog Op Res β)
    (g : β → Prog Op Res γ) : (p.bind f).bind g = p.bind fun a => (f a).bind g := by
  induction p with
  | ret a => rfl
  | call op next ih => exact congrArg (Prog.call op) (funext ih)

lemma Prog.bind_ret (p : Prog Op Res α) : p.bind .ret = p := by
  induction p with
  | ret a => rfl
  | call op next ih => exact congrArg (Prog.call op) (funext ih)

instance : LawfulMonad (Prog Op Res) := .mk' _ Prog.bind_ret (fun _ _ => rfl) Prog.bind_assoc

variable {h : List (Op × Res)}

lemma returns_ret_iff {a b : α} : Returns (.ret a) h b ↔ h = [] ∧ a = b := by
  constructor
  · intro hr
    cases hr
    exact ⟨rfl, rfl⟩
  · intro hr
    obtain ⟨rfl, rfl⟩ := hr
    exact .ret

/-- A program that does not raise, in a program that may. -/
def perform (p : Prog Op Res α) : ExceptT ε (Prog Op Res) α := .mk (p.bind fun a => .ret (.ok a))

def attempt (x : Except ε α) : ExceptT ε (Prog Op Res) α := .mk (.ret x)

/-- The histories of two programs, one after the other. -/
theorem returns_bind_iff {p} {f : α → Prog Op Res β} {b} :
    Returns (p.bind f) h b ↔ ∃ h₁ h₂ a, h = h₁ ++ h₂ ∧ Returns p h₁ a ∧ Returns (f a) h₂ b := by
  induction p generalizing h with
  | ret a =>
    constructor
    · intro hr
      exact ⟨[], h, a, rfl, .ret, hr⟩
    · intro hr
      obtain ⟨h₁, h₂, a', rfl, hp, hf⟩ := hr
      cases hp
      exact hf
  | call op next ih =>
    constructor
    · intro hr
      cases hr with
      | call hr =>
        obtain ⟨h₁, h₂, a, rfl, hp, hf⟩ := (ih _).1 hr
        exact ⟨_ :: h₁, h₂, a, rfl, .call hp, hf⟩
    · intro hr
      obtain ⟨h₁, h₂, a, rfl, hp, hf⟩ := hr
      cases hp with
      | call hp => exact .call ((ih _).2 ⟨_, _, a, rfl, hp, hf⟩)

/-- The histories of two programs of which the second goes on where the first has not raised. -/
theorem returns_bind_ok_iff {x : ExceptT ε (Prog Op Res) α} {f : α → ExceptT ε (Prog Op Res) β} {b} :
    Returns (x >>= f).run h (.ok b) ↔
      ∃ h₁ h₂ a, h = h₁ ++ h₂ ∧ Returns x.run h₁ (.ok a) ∧ Returns (f a).run h₂ (.ok b) := by
  constructor
  · intro hr
    obtain ⟨h₁, h₂, r, rfl, hx, hf⟩ := returns_bind_iff.1 hr
    cases r with
    | ok a => exact ⟨h₁, h₂, a, rfl, hx, hf⟩
    | error e =>
      obtain ⟨-, he⟩ := returns_ret_iff.1 hf
      cases he
  · intro hr
    obtain ⟨h₁, h₂, a, rfl, hx, hf⟩ := hr
    exact returns_bind_iff.2 ⟨h₁, h₂, .ok a, rfl, hx, hf⟩

lemma returns_perform_iff {p : Prog Op Res α} {a} :
    Returns (perform p : ExceptT ε (Prog Op Res) α).run h (.ok a) ↔ Returns p h a := by
  refine returns_bind_iff.trans ?_
  constructor
  · intro hr
    obtain ⟨h₁, h₂, b, rfl, hp, hret⟩ := hr
    obtain ⟨rfl, hb⟩ := returns_ret_iff.1 hret
    obtain rfl := Except.ok.inj hb
    rw [append_nil]
    exact hp
  · intro hp
    exact ⟨h, [], a, (append_nil h).symm, hp, .ret⟩

lemma returns_attempt_iff {x : Except ε α} {a} :
    Returns (attempt x : ExceptT ε (Prog Op Res) α).run h (.ok a) ↔ h = [] ∧ x = .ok a :=
  returns_ret_iff

end

section
variable {Op Res σ α β ε : Type} (step : σ → Op → Res × σ)

def run : Prog Op Res α → σ → α × σ
  | .ret a, s => (a, s)
  | .call op next, s => run (next (step s op).1) (step s op).2

lemma run_bind (p : Prog Op Res α) (f : α → Prog Op Res β) (s : σ) :
    run step (p.bind f) s = run step (f (run step p s).1) (run step p s).2 := by
  induction p generalizing s with
  | ret a => rfl
  | call op next ih => exact ih _ _

lemma run_perform (p : Prog Op Res α) (s : σ) :
    run step (perform p : ExceptT ε (Prog Op Res) α).run s =
      (.ok (run step p s).1, (run step p s).2) :=
  run_bind step p _ s

variable {step} {f : α → ExceptT ε (Prog Op Res) β} {x : ExceptT ε (Prog Op Res) α}

lemma run_bind_ok {s s' a} (hx : run step x.run s = (.ok a, s')) :
    run step (x >>= f).run s = run step (f a).run s' := by
  refine Eq.trans (run_bind step _ _ s) ?_
  rw [show run step x s = (.ok a, s') from hx]
  rfl

lemma run_bind_error {s s'}
    {e} (hx : run step x.run s = (.error e, s')) : run step (x >>= f).run s = (.error e, s') := by
  refine Eq.trans (run_bind step _ _ s) ?_
  rw [show run step x s = (.error e, s') from hx]
  rfl

lemma run_attempt_bind {x a} (hx : x = .ok a)
    (s : σ) : run step (attempt x >>= f).run s = run step (f a).run s := by
  rw [hx]
  exact run_bind_ok rfl

end

structure Pool (ι Op Res σ α : Type) where
  threads : ι → Prog Op Res α
  state : σ

section
variable {ι Op Res σ α : Type} [DecidableEq ι] (step : σ → Op → Res × σ)

def advance (c : Pool ι Op Res σ α) (i : ι) : Pool ι Op Res σ α × List (ι × Op × Res) :=
  match c.threads i with
  | .ret _ => (c, [])
  | .call op next =>
    (⟨Function.update c.threads i (next (step c.state op).1), (step c.state op).2⟩,
      [(i, op, (step c.state op).1)])

def exec : List ι → Pool ι Op Res σ α → Pool ι Op Res σ α
  | [], c => c
  | i :: sched, c => exec sched (advance step c i).1

def trace : List ι → Pool ι Op Res σ α → List (ι × Op × Res)
  | [], _ => []
  | i :: sched, c => (advance step c i).2 ++ trace sched (advance step c i).1

def replay (s : σ) (tr : List (ι × Op × Res)) : σ := tr.foldl (fun s e => (step s e.2.1).2) s

def part (i : ι) (tr : List (ι × Op × Res)) : List (Op × Res) :=
  tr.filterMap fun e => if e.1 = i then some e.2 else none

variable {i : ι}

lemma mem_part {tr : List (ι × Op × Res)} {e} : e ∈ part i tr ↔ (i, e) ∈ tr := by
  rw [part, mem_filterMap]
  constructor
  · intro h
    obtain ⟨⟨j, e'⟩, hmem, he⟩ := h
    split_ifs at he with hj
    cases he
    obtain rfl : j = i := hj
    exact hmem
  · intro h
    exact ⟨_, h, if_pos rfl⟩

lemma part_cons (i : ι) (e : ι × Op × Res) (tr : List (ι × Op × Res)) :
    part i (e :: tr) = (if e.1 = i then [e.2] else []) ++ part i tr := by
  by_cases h : e.1 = i
  · simp [part, h]
  · simp [part, h]

lemma part_append (i : ι) (tr tr' : List (ι × Op × Res)) :
    part i (tr ++ tr') = part i tr ++ part i tr' := filterMap_append

lemma advance_cases (c : Pool ι Op Res σ α) (i : ι) :
    advance step c i = (c, []) ∨ ∃ op next, c.threads i = .call op next ∧
      advance step c i =
        (⟨update c.threads i (next (step c.state op).1), (step c.state op).2⟩,
          [(i, op, (step c.state op).1)]) := by
  rw [advance]
  cases h : c.threads i with
  | ret a => exact .inl rfl
  | call op next => exact .inr ⟨op, next, rfl, rfl⟩

/-- The trace says what the object is. -/
theorem exec_state (sched : List ι) (c : Pool ι Op Res σ α) :
    (exec step sched c).state = replay step c.state (trace step sched c) := by
  induction sched generalizing c with
  | nil => rfl
  | cons i sched ih =>
    rw [exec, trace, ih]
    cases advance_cases step c i with
    | inl h => rw [h, nil_append]
    | inr h =>
      obtain ⟨op, next, -, h⟩ := h
      rw [h]
      rfl

variable {c : Pool ι Op Res σ α}

/-- Every answer is that of the object after the calls before it. -/
theorem answer_eq {sched pre post} {op r} (h : trace step sched c = pre ++ (i, op, r) :: post) :
    r = (step (replay step c.state pre) op).1 := by
  induction sched generalizing c pre with
  | nil =>
    cases pre with
    | nil => cases h
    | cons e pre => cases h
  | cons j sched ih =>
    rw [trace] at h
    cases advance_cases step c j with
    | inl hj =>
      rw [hj] at h
      exact ih h
    | inr hj =>
      obtain ⟨op', next, -, hj⟩ := hj
      rw [hj] at h
      cases pre with
      | nil =>
        cases h
        rfl
      | cons e pre =>
        obtain ⟨rfl, hrest⟩ := cons.inj h
        exact @ih _ pre hrest

/-- The part of a thread is a history of its program. -/
theorem returns_part {sched a} (h : (exec step sched c).threads i = .ret a) :
    Returns (c.threads i) (part i (trace step sched c)) a := by
  induction sched generalizing c with
  | nil =>
    rw [show c.threads i = .ret a from h]
    exact .ret
  | cons j sched ih =>
    have hrest := ih h
    rw [trace, part_append]
    cases advance_cases step c j with
    | inl hj =>
      rw [hj] at hrest ⊢
      exact hrest
    | inr hj =>
      obtain ⟨op, next, hthread, hj⟩ := hj
      rw [hj] at hrest ⊢
      rw [part_cons]
      by_cases hij : j = i
      · subst hij
        rw [if_pos rfl, hthread]
        simp only [update_self] at hrest
        exact .call hrest
      · rw [if_neg hij]
        simp only [update_of_ne (Ne.symm hij)] at hrest
        exact hrest

lemma exec_append (sched sched' : List ι) (c : Pool ι Op Res σ α) :
    exec step (sched ++ sched') c = exec step sched' (exec step sched c) := by
  induction sched generalizing c with
  | nil => rfl
  | cons i sched ih => exact ih _

variable {step} {t : ι → Prog Op Res α}

/-- A thread that is scheduled alone runs the first part of its program. -/
theorem exec_alone {β : Type} {p} {f : β → Prog Op Res α} {a s s'}
    (h : t i = p.bind f) (hrun : run step p s = (a, s')) :
    ∃ sched, exec step sched ⟨t, s⟩ = ⟨update t i (f a), s'⟩ := by
  induction p generalizing t s with
  | ret b =>
    obtain ⟨rfl, rfl⟩ := Prod.mk.inj hrun
    refine ⟨[], ?_⟩
    rw [show f b = t i from h.symm, update_eq_self]
    rfl
  | call op next ih =>
    have hadvance : (advance step ⟨t, s⟩ i).1 =
        ⟨update t i ((next (step s op).1).bind f), (step s op).2⟩ := by
      rw [advance, show Pool.threads ⟨t, s⟩ i = _ from h]
      rfl
    obtain ⟨sched, hsched⟩ := ih _ (update_self i _ t) hrun
    refine ⟨i :: sched, ?_⟩
    rw [exec, hadvance, hsched, update_idem]

lemma exec_alone_ret {a s s'} (hrun : run step (t i) s = (a, s')) :
    ∃ sched, exec step sched ⟨t, s⟩ = ⟨update t i (.ret a), s'⟩ :=
  exec_alone (Prog.bind_ret _).symm hrun

/-- Two threads that both run the first part of their programs before one of them goes on. -/
theorem exec_race {β : Type} {p : Bool → Prog Op Res β} {f : Bool → β → Prog Op Res α}
    {a : Bool → β} {r : Bool → α} {s s₁ s₂ s₃ s₄}
    (h₁ : run step (p false) s = (a false, s₁)) (h₂ : run step (p true) s₁ = (a true, s₂))
    (h₃ : run step (f false (a false)) s₂ = (r false, s₃))
    (h₄ : run step (f true (a true)) s₃ = (r true, s₄)) :
    ∃ sched, exec step sched ⟨fun i => (p i).bind (f i), s⟩ = ⟨fun i => .ret (r i), s₄⟩ := by
  obtain ⟨d₁, e₁⟩ := exec_alone (t := fun i => (p i).bind (f i)) (i := false) rfl h₁
  obtain ⟨d₂, e₂⟩ := exec_alone (t := update (fun i => (p i).bind (f i)) false
    (f false (a false))) (i := true) (f := f true) rfl h₂
  obtain ⟨d₃, e₃⟩ := exec_alone_ret (t := fun i => f i (a i)) (i := false) h₃
  obtain ⟨d₄, e₄⟩ := exec_alone_ret (t := update (fun i => f i (a i)) false (.ret (r false))) (i := true) h₄
  have hmiddle : update (update (fun i => (p i).bind (f i)) false
      (f false (a false))) true (f true (a true)) = fun i => f i (a i) := by
    funext i
    cases i <;> rfl
  have hend : update (update (fun i => f i (a i)) false (.ret (r false))) true
      (.ret (r true)) = fun i => .ret (r i) := by
    funext i
    cases i <;> rfl
  refine ⟨d₁ ++ d₂ ++ d₃ ++ d₄, ?_⟩
  rw [exec_append, exec_append, exec_append, e₁, e₂, hmiddle, e₃, e₄, hend]

end

end SocioWorkspace.Threads
