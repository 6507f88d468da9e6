import Mathlib
import SocioWorkspace.Lib.RoseTree

/-!
# Weighted averages over a tree

An average that is recomputed at every inner node from the averages of its children, and is 0 where the total
weight is not positive, so that what lies below such a node is lost.
-/

namespace SocioWorkspace
open List
variable {α K : Type*} [Field K] [LinearOrder K]

namespace RoseTree

def weight (w : α → K) (t : RoseTree α) : K := (t.leaves.map w).sum

def moment (w x : α → K) (t : RoseTree α) : K := (t.leaves.map fun a => w a * x a).sum

/-- The figure of a tree that is a single leaf, and 0 for any other tree. -/
def bare (x : α → K) (t : RoseTree α) : K := if t.children.isEmpty then x t.label else 0

mutual
def lost (w x : α → K) : RoseTree α → K
  | node a cs =>
    if cs.isEmpty then 0
    else if 0 < weight w (node a cs) then lostAll w x cs
    else moment w x (node a cs)

def lostAll (w x : α → K) : List (RoseTree α) → K
  | [] => 0
  | c :: cs => lost w x c + lostAll w x cs
end

variable {w x : α → K} {cs : List (RoseTree α)}

omit [LinearOrder K] in
lemma weight_node (a : α) (h : cs ≠ []) : (node a cs).weight w = (cs.map (weight w)).sum := by
  rw [weight, leaves_node a h, map_flatMap, flatMap_def, sum_flatten, map_map]
  rfl

omit [LinearOrder K] in
lemma moment_node (a : α) (h : cs ≠ []) : (node a cs).moment w x = (cs.map (moment w x)).sum :=
  weight_node a h

@[simp] lemma lost_leaf (a : α) : (node a []).lost w x = 0 := by
  simp [lost]

lemma lostAll_eq (cs : List (RoseTree α)) : lostAll w x cs = (cs.map (lost w x)).sum := by
  induction cs with
  | nil => rfl
  | cons c cs ih => rw [lostAll, ih, map_cons, sum_cons]

omit [LinearOrder K] in
lemma weight_perm {t u : RoseTree α} (h : t.leaves.Perm u.leaves) : t.weight w = u.weight w :=
  (h.map w).sum_eq

omit [LinearOrder K] in
lemma moment_perm {t u : RoseTree α} (h : t.leaves.Perm u.leaves) : t.moment w x = u.moment w x :=
  (h.map _).sum_eq

end RoseTree

open RoseTree

/-- An average recomputed at every inner node, 0 where the total weight is not positive. -/
structure IsAverage (w x : α → K) (avg : RoseTree α → K) : Prop where
  leaf : ∀ a, avg (.node a []) = x a
  inner : ∀ a cs, cs ≠ [] → avg (.node a cs) =
    if 0 < (node a cs).weight w then
      (cs.map fun c => c.weight w * avg c).sum / (node a cs).weight w
    else 0

namespace IsAverage
variable {w x : α → K} {avg : RoseTree α → K}

/-- Weight times average and what is lost make up the moment of the leaves. -/
theorem weight_mul_add_lost (h : IsAverage w x avg) (t : RoseTree α) :
    t.weight w * avg t + t.lost w x = t.moment w x := by
  induction t using RoseTree.induct with
  | h a cs ih =>
    by_cases hcs : cs = []
    · subst hcs
      simp [h.leaf, weight, moment]
    · rw [h.inner a cs hcs, lost, lostAll_eq, if_neg (c := cs.isEmpty) (by simpa using hcs)]
      by_cases hw : 0 < (node a cs).weight w
      · rw [if_pos hw, if_pos hw, mul_div_cancel₀ _ hw.ne', ← sum_map_add,
          map_congr_left ih, moment_node a hcs]
      · rw [if_neg hw, if_neg hw, mul_zero, zero_add]

/-- Without positive weight only a single leaf shows its figure. -/
lemma eq_bare (h : IsAverage w x avg) {t} (hw : ¬0 < t.weight w) : avg t = t.bare x := by
  cases t with
  | node a cs =>
    by_cases hcs : cs = []
    · subst hcs
      rw [h.leaf]
      rfl
    · rw [h.inner a cs hcs, if_neg hw, bare, if_neg (by simpa using hcs)]

/-- Two groupings of the same leaves have the same average exactly if they lose the same. -/
theorem eq_iff (h : IsAverage w x avg) {t u : RoseTree α} (hl : t.leaves.Perm u.leaves) :
    avg t = avg u ↔ if 0 < t.weight w then t.lost w x = u.lost w x else t.bare x = u.bare x := by
  have hwu : t.weight w = u.weight w := weight_perm hl
  by_cases hw : 0 < t.weight w
  · have hsum : t.weight w * avg t + t.lost w x = t.weight w * avg u + u.lost w x := by
      rw [h.weight_mul_add_lost t, hwu, h.weight_mul_add_lost u, moment_perm hl]
    rw [if_pos hw]
    refine ⟨?_, ?_⟩
    · intro he
      rw [he] at hsum
      exact add_left_cancel hsum
    · intro he
      rw [he] at hsum
      exact mul_left_cancel₀ hw.ne' (add_right_cancel hsum)
  · rw [if_neg hw, h.eq_bare hw, h.eq_bare (hwu ▸ hw)]

end IsAverage

end SocioWorkspace
