import Mathlib.Algebra.BigOperators.Group.List.Basic

/-!
# Trees of any branching

A node carries a label and a list of children; a node without children is a leaf. A roll-up computes
a value from the leaves upwards, and a statistic of the value that every roll-up adds (or collects)
over the children is the sum (or collection) over the leaves.
-/

namespace SocioWorkspace
open List
variable {α β : Type*}

inductive RoseTree (α : Type*) where
  | node (label : α) (children : List (RoseTree α))

namespace RoseTree

def label : RoseTree α → α
  | node a _ => a

def children : RoseTree α → List (RoseTree α)
  | node _ cs => cs

@[simp] lemma label_node (a : α) (cs : List (RoseTree α)) : (node a cs).label = a := rfl

@[simp] lemma children_node (a : α) (cs : List (RoseTree α)) : (node a cs).children = cs := rfl

/-- Induction with a hypothesis for every child. -/
theorem induct {P : RoseTree α → Prop} (h : ∀ a cs, (∀ c ∈ cs, P c) → P (node a cs)) : ∀ t, P t
  | node a cs => h a cs fun c _ => induct h c

mutual
def fold (leaf : α → β) (roll : α → List β → β) : RoseTree α → β
  | node a cs => if cs.isEmpty then leaf a else roll a (foldAll leaf roll cs)

def foldAll (leaf : α → β) (roll : α → List β → β) : List (RoseTree α) → List β
  | [] => []
  | c :: cs => fold leaf roll c :: foldAll leaf roll cs
end

section
variable {leaf : α → β} {roll : α → List β → β}

lemma foldAll_eq (cs : List (RoseTree α)) : foldAll leaf roll cs = cs.map (fold leaf roll) := by
  induction cs with
  | nil => rfl
  | cons c cs ih => rw [foldAll, ih, map_cons]

@[simp] lemma fold_leaf (a : α) : (node a []).fold leaf roll = leaf a := by
  simp [fold]

lemma fold_node (a : α) {cs} (h : cs ≠ []) :
    (node a cs).fold leaf roll = roll a (cs.map (fold leaf roll)) := by
  rw [fold, foldAll_eq, if_neg (by simpa using h)]

end

def leaves (t : RoseTree α) : List α := t.fold (fun a => [a]) fun _ ls => ls.flatten

@[simp] lemma leaves_leaf (a : α) : (node a []).leaves = [a] := fold_leaf a

variable {cs : List (RoseTree α)}

lemma leaves_node (a : α) (h : cs ≠ []) : (node a cs).leaves = cs.flatMap leaves := by
  rw [leaves, fold_node a h, flatMap_def]
  rfl

lemma leaves_ne_nil (t : RoseTree α) : t.leaves ≠ [] := by
  induction t using induct with
  | h a cs ih =>
    cases cs with
    | nil => simp
    | cons c cs =>
      rw [leaves_node a (cons_ne_nil c cs), flatMap_cons]
      exact append_ne_nil_of_left_ne_nil (ih c mem_cons_self) _

mutual
def subtrees : RoseTree α → List (RoseTree α)
  | node a cs => subtreesAll cs ++ [node a cs]

def subtreesAll : List (RoseTree α) → List (RoseTree α)
  | [] => []
  | c :: cs => subtrees c ++ subtreesAll cs
end

lemma subtreesAll_eq (cs : List (RoseTree α)) : subtreesAll cs = cs.flatMap subtrees := by
  induction cs with
  | nil => rfl
  | cons c cs ih => rw [subtreesAll, ih, flatMap_cons]

lemma mem_subtrees_node {a s} : s ∈ (node a cs).subtrees ↔ s = node a cs ∨ ∃ c ∈ cs, s ∈ c.subtrees := by
  rw [subtrees, subtreesAll_eq, mem_append, mem_flatMap, mem_singleton, or_comm]

lemma self_mem_subtrees : ∀ t : RoseTree α, t ∈ t.subtrees
  | node _ _ => mem_subtrees_node.2 (.inl rfl)

lemma subtrees_trans {s t u : RoseTree α} (hst : s ∈ t.subtrees) (htu : t ∈ u.subtrees) : s ∈ u.subtrees := by
  induction u using induct with
  | h a cs ih =>
    cases mem_subtrees_node.1 htu with
    | inl h => exact h ▸ hst
    | inr h =>
      obtain ⟨c, hc, ht⟩ := h
      exact mem_subtrees_node.2 (.inr ⟨c, hc, ih c hc ht⟩)

lemma exists_parent_of_mem_leaves {t : RoseTree α} (ht : t.children ≠ []) {l}
    (hl : l ∈ t.leaves) : ∃ p ∈ t.subtrees, node l [] ∈ p.children := by
  induction t using induct with
  | h a cs ih =>
    have hcs : cs ≠ [] := ht
    rw [leaves_node a hcs] at hl
    obtain ⟨c, hc, hlc⟩ := mem_flatMap.1 hl
    cases c with
    | node b ds =>
      by_cases hds : ds = []
      · subst hds
        rw [mem_singleton.1 hlc]
        exact ⟨_, self_mem_subtrees _, hc⟩
      · obtain ⟨p, hp, hmem⟩ := ih _ hc hds hlc
        exact ⟨p, mem_subtrees_node.2 (.inr ⟨_, hc, hp⟩), hmem⟩

section
variable {leaf : α → β} {roll : α → List β → β}

/-- A statistic that every roll-up sums over the children is the sum over the leaves. -/
theorem fold_sum {M : Type*} [AddMonoid M] (φ : β → M)
    (hroll : ∀ a bs, φ (roll a bs) = (bs.map φ).sum) (t : RoseTree α) :
    φ (t.fold leaf roll) = (t.leaves.map fun a => φ (leaf a)).sum := by
  induction t using induct with
  | h a cs ih =>
    by_cases hcs : cs = []
    · subst hcs
      simp
    · rw [fold_node a hcs, hroll, leaves_node a hcs, map_map, flatMap_def,
        map_flatten, sum_flatten, map_map, map_map]
      congr 1
      exact map_congr_left ih

/-- A list that every roll-up joins from the children is joined from the leaves. -/
theorem fold_flatMap {γ : Type*} (φ : β → List γ)
    (hroll : ∀ a bs, φ (roll a bs) = bs.flatMap φ) (t : RoseTree α) :
    φ (t.fold leaf roll) = t.leaves.flatMap fun a => φ (leaf a) := by
  induction t using induct with
  | h a cs ih =>
    by_cases hcs : cs = []
    · subst hcs
      simp
    · rw [fold_node a hcs, hroll, leaves_node a hcs, flatMap_assoc, flatMap_map,
        flatMap_def, flatMap_def, map_congr_left ih]

/-- A property that a roll-up has if one of the children has it passes from a leaf to the root. -/
lemma fold_of_mem_leaves (P : β → Prop) (hroll : ∀ a bs b, b ∈ bs → P b → P (roll a bs))
    {t : RoseTree α} {l} (hl : l ∈ t.leaves) (hP : P (leaf l)) : P (t.fold leaf roll) := by
  induction t using induct with
  | h a cs ih =>
    by_cases hcs : cs = []
    · subst hcs
      rw [fold_leaf, ← mem_singleton.1 hl]
      exact hP
    · rw [leaves_node a hcs] at hl
      obtain ⟨c, hc, hlc⟩ := mem_flatMap.1 hl
      rw [fold_node a hcs]
      exact hroll a _ _ (mem_map_of_mem hc) (ih c hc hlc)

end

end RoseTree

end SocioWorkspace
