import Mathlib

/-!
# Closing a set in one pass

A pass over a list adds each member that is linked to something in the set so far. A member is added exactly if
links lead from it to the first set through members that come earlier and earlier (`mem_onePass`).
-/

namespace SocioWorkspace.OnePass
open List
universe u

variable {α : Type u} (link : α → α → Prop)

def onePass (D : Set α) : List α → Set α
  | [] => D
  | a :: l => onePass {b | b ∈ D ∨ b = a ∧ ∃ d ∈ D, link a d} l

/-- Links lead to the set through members that come earlier. -/
inductive Reached (D : Set α) : List α → α → Prop where
  | direct {before a d} : d ∈ D → link a d → Reached D before a
  | earlier {before₁ before₂ a b} : Reached D before₁ b → link a b → Reached D (before₁ ++ b :: before₂) a

/-- Links lead to the set through members of the list. -/
inductive Connected (D : Set α) (l : List α) : α → Prop where
  | direct {a d} : d ∈ D → link a d → Connected D l a
  | member {a b} : b ∈ l → Connected D l b → link a b → Connected D l a

variable {link} {D : Set α} {a b : α} {l before : List α}

lemma reached_nil : Reached link D [] a ↔ ∃ d ∈ D, link a d := by
  constructor
  · intro h
    generalize e : ([] : List α) = before at h
    cases h with
    | direct hd hlink => exact ⟨_, hd, hlink⟩
    | earlier _ _ => exact absurd e (by simp)
  · rintro ⟨d, hd, hlink⟩
    exact .direct hd hlink

lemma reached_cons : Reached link D (b :: before) a ↔
    Reached link {c | c ∈ D ∨ c = b ∧ ∃ d ∈ D, link b d} before a := by
  constructor
  · intro h
    generalize e : b :: before = all at h
    induction h generalizing before with
    | direct hd hlink => exact .direct (.inl hd) hlink
    | @earlier before₁ before₂ a b' hreached hlink ih =>
      cases before₁ with
      | nil =>
        obtain ⟨rfl, rfl⟩ := cons.inj e
        exact .direct (.inr ⟨rfl, reached_nil.1 hreached⟩) hlink
      | cons c before₁ =>
        obtain ⟨rfl, rfl⟩ := cons.inj e
        exact .earlier (ih rfl) hlink
  · intro h
    induction h with
    | @direct before a d hd hlink =>
      cases hd with
      | inl hd => exact .direct hd hlink
      | inr hd =>
        obtain ⟨rfl, hreached⟩ := hd
        exact @Reached.earlier α link D [] before a d (reached_nil.2 hreached) hlink
    | @earlier before₁ before₂ a b' _ hlink ih =>
      exact @Reached.earlier α link D (b :: before₁) before₂ a b' ih hlink

theorem mem_onePass : a ∈ onePass link D l ↔
    a ∈ D ∨ ∃ before after, l = before ++ a :: after ∧ Reached link D before a := by
  induction l generalizing D with
  | nil =>
    refine ⟨.inl, fun h => h.resolve_right ?_⟩
    rintro ⟨before, after, h, -⟩
    exact absurd h (by simp)
  | cons b l ih =>
    rw [onePass, ih]
    constructor
    · rintro ((h | ⟨rfl, hreached⟩) | ⟨before, after, rfl, hreached⟩)
      · exact .inl h
      · exact .inr ⟨[], l, rfl, reached_nil.2 hreached⟩
      · exact .inr ⟨b :: before, after, rfl, reached_cons.2 hreached⟩
    · rintro (h | ⟨before, after, hsplit, hreached⟩)
      · exact .inl (.inl h)
      · cases before with
        | nil =>
          obtain ⟨rfl, rfl⟩ := cons.inj hsplit
          exact .inl (.inr ⟨rfl, reached_nil.1 hreached⟩)
        | cons c before =>
          obtain ⟨rfl, rfl⟩ := cons.inj hsplit
          exact .inr ⟨before, after, rfl, reached_cons.1 hreached⟩

lemma Reached.connected (h : Reached link D before a) (hl : ∀ b ∈ before, b ∈ l) : Connected link D l a := by
  induction h with
  | direct hd hlink => exact .direct hd hlink
  | @earlier before₁ before₂ a b _ hlink ih =>
    have hb : b ∈ l := hl b (mem_append_right _ (mem_cons_self ..))
    exact .member hb (ih fun c hc => hl c (mem_append_left _ hc)) hlink

/-- The pass reaches all of `U` that it should exactly if the order of the list allows it. -/
theorem onePass_closed_iff {U : Set α} (hl : ∀ b ∈ l, b ∈ U) :
    (∀ a ∈ U, (∃ b ∈ onePass link D l, link a b) → a ∈ onePass link D l) ↔
      ∀ a ∈ U, Connected link D l a → a ∈ onePass link D l := by
  constructor
  · intro h a ha hconn
    induction hconn with
    | direct hd hlink => exact h _ ha ⟨_, mem_onePass.2 (.inl hd), hlink⟩
    | member hb _ hlink ih => exact h _ ha ⟨_, ih (hl _ hb), hlink⟩
  · rintro h a ha ⟨b, hb, hlink⟩
    refine h a ha ?_
    cases mem_onePass.1 hb with
    | inl hb => exact .direct hb hlink
    | inr hb =>
      obtain ⟨before, after, hsplit, hreached⟩ := hb
      refine .member ?_ (hreached.connected fun c hc => ?_) hlink
      · rw [hsplit]
        exact mem_append_right _ (mem_cons_self ..)
      · rw [hsplit]
        exact mem_append_left _ hc

end SocioWorkspace.OnePass
