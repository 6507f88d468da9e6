import Mathlib.Data.List.Basic

/-!
# Programs that talk to the world

A program that asks the world questions, one after the other, and goes on with the answers or raises. `trace`
is what a program asks of one world; `MayAsk` and `MayReturn` are what it can ask and return in some world.
-/

namespace SocioWorkspace
open List

/-- A program with questions `Q`, answers `A` and exceptions `E`. -/
inductive Interaction (Q A E α : Type) where
  | done (a : α)
  | raise (e : E)
  | ask (q : Q) (k : A → Interaction Q A E α)

namespace Interaction
variable {Q A E α β : Type}

def bind : Interaction Q A E α → (α → Interaction Q A E β) → Interaction Q A E β
  | done a, f => f a
  | raise e, _ => raise e
  | ask q k, f => ask q fun a => (k a).bind f

instance : Monad (Interaction Q A E) where
  pure := done
  bind := bind

def question (q : Q) : Interaction Q A E A := ask q done

/-- The questions of a program in a world, after those of `history`. -/
def trace (world : List Q → Except E A) : Interaction Q A E α → List Q → List Q
  | done _, _ => []
  | raise _, _ => []
  | ask q k, history =>
    q :: match world (history ++ [q]) with
      | .ok a => (k a).trace world (history ++ [q])
      | .error _ => []

/-- In some world the program asks `q`. -/
def MayAsk : Interaction Q A E α → Q → Prop
  | done _, _ => False
  | raise _, _ => False
  | ask q' k, q => q = q' ∨ ∃ a, (k a).MayAsk q

/-- In some world the program returns `b`. -/
def MayReturn : Interaction Q A E α → α → Prop
  | done a, b => b = a
  | raise _, _ => False
  | ask _ k, b => ∃ a, (k a).MayReturn b

variable {p : Interaction Q A E α}

lemma trace_congr {world world' : List Q → Except E A} {history}
    (h : ∀ later, history.length < later.length → world later = world' later) :
    p.trace world history = p.trace world' history := by
  induction p generalizing history with
  | done a => rfl
  | raise e => rfl
  | ask q k ih =>
    have hlength : (history ++ [q]).length = history.length + 1 := by simp
    have hcongr (a : A) : (k a).trace world (history ++ [q]) = (k a).trace world' (history ++ [q]) :=
      ih a fun later hlater => h later (by omega)
    rw [trace, trace, h (history ++ [q]) (by omega)]
    cases world' (history ++ [q]) with
    | error e => rfl
    | ok a => exact congrArg (q :: ·) (hcongr a)

lemma mayAsk_of_mem_trace {world : List Q → Except E A} {history}
    {q} (h : q ∈ p.trace world history) : p.MayAsk q := by
  induction p generalizing history with
  | done a => cases h
  | raise e => cases h
  | ask q' k ih =>
    rw [trace] at h
    cases mem_cons.1 h with
    | inl h => exact .inl h
    | inr h =>
      cases hw : world (history ++ [q']) with
      | error e =>
        rw [hw] at h
        cases h
      | ok a =>
        rw [hw] at h
        exact .inr ⟨a, ih a h⟩

lemma exists_world_of_mayAsk {q} (h : p.MayAsk q) (e : E)
    (history : List Q) : ∃ world, q ∈ p.trace world history := by
  induction p generalizing history with
  | done a => cases h
  | raise e' => cases h
  | ask q' k ih =>
    rcases h with rfl | ⟨a, h⟩
    · exact ⟨fun _ => .error e, mem_cons_self⟩
    · obtain ⟨world, hworld⟩ := ih a h (history ++ [q'])
      -- the answer to this question in front of the answers to the later ones
      refine ⟨fun asked => if asked.length = history.length + 1 then .ok a else world asked, ?_⟩
      have hlater : (k a).trace (fun asked =>
          if asked.length = history.length + 1 then .ok a else world asked) (history ++ [q']) =
            (k a).trace world (history ++ [q']) := by
        refine trace_congr fun later h => if_neg ?_
        rw [length_append, length_singleton] at h
        omega
      rw [trace]
      refine mem_cons_of_mem _ ?_
      rw [length_append, length_singleton, if_pos rfl]
      dsimp only
      rw [hlater]
      exact hworld

/-- In every world all questions have a property exactly if all possible questions have it. -/
theorem forall_mem_trace_iff {P : Q → Prop} (e : E) :
    (∀ world, ∀ q ∈ p.trace world [], P q) ↔ ∀ q, p.MayAsk q → P q := by
  constructor
  · intro h q hq
    obtain ⟨world, hworld⟩ := exists_world_of_mayAsk hq e []
    exact h world q hworld
  · intro h world q hq
    exact h q (mayAsk_of_mem_trace hq)

@[simp] lemma mayAsk_pure (a : α) (q : Q) : ¬ (pure a : Interaction Q A E α).MayAsk q := id

@[simp] lemma mayAsk_raise (e : E) (q : Q) : ¬ (raise e : Interaction Q A E α).MayAsk q := id

@[simp] lemma mayAsk_question (q' q : Q) : (question q' : Interaction Q A E A).MayAsk q ↔ q = q' :=
  ⟨fun h => h.elim id fun ⟨_, h⟩ => h.elim, .inl⟩

@[simp] lemma mayReturn_pure (a b : α) : (pure a : Interaction Q A E α).MayReturn b ↔ b = a := .rfl

@[simp] lemma mayReturn_raise (e : E) (b : α) : ¬ (raise e : Interaction Q A E α).MayReturn b := id

@[simp] lemma mayReturn_question (q : Q) (a : A) : (question q : Interaction Q A E A).MayReturn a := ⟨a, rfl⟩

section
variable (p : Interaction Q A E α) (f : α → Interaction Q A E β)

@[simp] lemma mayAsk_bind (q : Q) :
    (p >>= f).MayAsk q ↔ p.MayAsk q ∨ ∃ a, p.MayReturn a ∧ (f a).MayAsk q := by
  change (p.bind f).MayAsk q ↔ _
  induction p with
  | done a | raise e => simp [bind, MayAsk, MayReturn]
  | ask q' k ih =>
    simp only [bind, MayAsk, MayReturn, ih, exists_or, or_assoc]
    constructor
    · rintro (h | h | ⟨a, b, hb, hq⟩)
      · exact .inl h
      · exact .inr (.inl h)
      · exact .inr (.inr ⟨b, ⟨a, hb⟩, hq⟩)
    · rintro (h | h | ⟨b, ⟨a, hb⟩, hq⟩)
      · exact .inl h
      · exact .inr (.inl h)
      · exact .inr (.inr ⟨a, b, hb, hq⟩)

@[simp] lemma mayReturn_bind (b : β) : (p >>= f).MayReturn b ↔ ∃ a, p.MayReturn a ∧ (f a).MayReturn b := by
  change (p.bind f).MayReturn b ↔ _
  induction p with
  | done a | raise e => simp [bind, MayReturn]
  | ask q' k ih =>
    simp only [bind, MayReturn, ih]
    constructor
    · rintro ⟨a, c, hc, hb⟩
      exact ⟨c, ⟨a, hc⟩, hb⟩
    · rintro ⟨c, ⟨a, hc⟩, hb⟩
      exact ⟨a, c, hc, hb⟩

end

end Interaction
end SocioWorkspace
