import Mathlib.Data.List.Dedup
import Mathlib.Data.List.Sort
import Mathlib.Order.Basic

/-!
# The first elements by weight

A list sorted by descending weight, and its first elements. Where different elements have different weights, an
element is among the first `r` if fewer than `r` others are heavier (`mem_take_ranked`).
-/

namespace SocioWorkspace.Ranking
open List
universe u v

variable {α : Type u} {β : Type v} [LinearOrder β] {w : α → β}

instance total_weight : Std.Total fun a b : α => w b ≤ w a := ⟨fun a b => le_total (w b) (w a)⟩

instance isTrans_weight : IsTrans α fun a b => w b ≤ w a := ⟨fun _ _ _ hab hbc => hbc.trans hab⟩

def Separates (w : α → β) (l : List α) : Prop := ∀ a ∈ l, ∀ b ∈ l, w a = w b → a = b

omit [LinearOrder β] in
lemma Separates.subset {l l'} (h : Separates w l) (hsub : l' ⊆ l) : Separates w l' :=
  fun a ha b hb => h a (hsub ha) b (hsub hb)

section
variable [DecidableRel fun a b : α => w b ≤ w a] {l l' : List α} {x : α} {r : ℕ}

lemma ranked_eq_of_perm (hsep : Separates w l) (h : l.Perm l') :
    l.insertionSort (fun a b => w b ≤ w a) = l'.insertionSort fun a b => w b ≤ w a := by
  have hperm := perm_insertionSort (fun a b => w b ≤ w a) l
  have hperm' := perm_insertionSort (fun a b => w b ≤ w a) l'
  have hsorted := pairwise_insertionSort (fun a b => w b ≤ w a) l
  have hsorted' := pairwise_insertionSort (fun a b => w b ≤ w a) l'
  refine List.Perm.eq_of_pairwise ?_ hsorted hsorted' ((hperm.trans h).trans hperm'.symm)
  intro a b ha hb hba hab
  exact hsep a (hperm.mem_iff.1 ha) b (h.mem_iff.2 (hperm'.mem_iff.1 hb)) (le_antisymm hab hba)

omit [DecidableRel fun a b : α => w b ≤ w a] in
/-- In a descending list the position of an element is the number of the heavier ones. -/
lemma mem_take_of_descending (h : l.Pairwise fun a b => w b < w a) :
    x ∈ l.take r ↔ x ∈ l ∧ (l.countP fun y => w x < w y) < r := by
  induction l generalizing r with
  | nil => simp
  | cons a l ih =>
    rw [pairwise_cons] at h
    cases r with
    | zero => simp
    | succ r =>
      rw [take_succ_cons, mem_cons, mem_cons, ih h.2, countP_cons]
      by_cases hx : x = a
      · subst hx
        have hnone : (l.countP fun y => w x < w y) = 0 :=
          countP_eq_zero.2 fun y hy => by simpa using (h.1 y hy).le
        simp [hnone]
      · by_cases hmem : x ∈ l
        · simp [hx, hmem, h.1 x hmem]
        · simp [hx, hmem]

lemma mem_take_ranked (hsep : Separates w l) (hnodup : l.Nodup) :
    x ∈ (l.insertionSort fun a b => w b ≤ w a).take r ↔
      x ∈ l ∧ (l.countP fun y => w x < w y) < r := by
  have hperm := perm_insertionSort (fun a b => w b ≤ w a) l
  have hstrict : (l.insertionSort fun a b => w b ≤ w a).Pairwise fun a b => w b < w a := by
    refine List.Pairwise.imp_of_mem (fun ha hb hab => ?_)
      ((pairwise_insertionSort (fun a b => w b ≤ w a) l).and (hperm.nodup_iff.2 hnodup))
    refine lt_of_le_of_ne hab.1 fun he => hab.2 ?_
    exact (hsep _ (hperm.mem_iff.1 hb) _ (hperm.mem_iff.1 ha) he).symm
  rw [mem_take_of_descending hstrict, hperm.mem_iff, hperm.countP_eq]

lemma mem_take_of_subset (hsep : Separates w l) (hnodup : l.Nodup) (hnodup' : l'.Nodup)
    (hsub : l' ⊆ l) (hx : x ∈ l') (h : x ∈ (l.insertionSort fun a b => w b ≤ w a).take r) :
    x ∈ (l'.insertionSort fun a b => w b ≤ w a).take r := by
  rw [mem_take_ranked hsep hnodup] at h
  rw [mem_take_ranked (hsep.subset hsub) hnodup']
  refine ⟨hx, lt_of_le_of_lt ?_ h.2⟩
  exact (subperm_of_subset hnodup' hsub).countP_le _

end

end SocioWorkspace.Ranking
