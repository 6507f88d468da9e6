import SocioWorkspace.Lib.Average
import SocioWorkspace.Omnirisk.Model

/-!
# Regrouping a hierarchy

What the roll-up of `gbrg/governance/omnirisk_allocation.py` keeps when the same leaves are grouped in another
way. The averages are 0 where the total value (or principal) of a node is not positive, so that a subtree whose
weights cancel hides its leaves.

`isAverage_agg` is the induction over the tree for the three averages, and `walk_regrouped_iff` compares two
trees with the same leaves.
-/

namespace SocioWorkspace.Omnirisk
open RoseTree NodeAgg

lemma agg_ec (t : Node ℚ) : (agg t).ec = (t.leaves.map (·.contribution)).sum := fold_sum ec (fun _ _ => rfl) t

lemma agg_standalone (t : Node ℚ) : (agg t).standalone = (t.leaves.map (·.standalone)).sum :=
  fold_sum standalone (fun _ _ => rfl) t

lemma agg_value (t : Node ℚ) : (agg t).value = t.weight (·.value) := fold_sum value (fun _ _ => rfl) t

lemma agg_principal (t : Node ℚ) : (agg t).principal = t.weight (·.principal) :=
  fold_sum principal (fun _ _ => rfl) t

lemma agg_rar (t : Node ℚ) : (agg t).rar = (t.leaves.map (·.rar)).sum := fold_sum rar (fun _ _ => rfl) t

lemma isAverage_agg {weight figure : NodeAgg ℚ → ℚ} {w x : NodeData ℚ → ℚ}
    (hw : ∀ t, weight (agg t) = t.weight w) (hleaf : ∀ data, figure (agg (.node data [])) = x data)
    (hroll : ∀ ref data aggs, figure (rollUp ref data aggs) = weightedAverage weight figure aggs) :
    IsAverage w x fun t => figure (agg t) where
  leaf := hleaf
  inner data cs h := by
    have hsum : ((cs.map agg).map weight).sum = (node data cs).weight w := by
      rw [weight_node data h, List.map_map]
      exact congrArg List.sum (List.map_congr_left fun c _ => hw c)
    have hmoment : ((cs.map agg).map fun a => weight a * figure a) =
        cs.map fun c => c.weight w * figure (agg c) := by
      rw [List.map_map]
      exact List.map_congr_left fun c _ => congrArg (· * figure (agg c)) (hw c)
    show figure (agg (.node data cs)) = _
    rw [agg_node data h, hroll, weightedAverage, figures_sum, figures_sum, hsum, hmoment]

lemma duration_isAverage : IsAverage (·.value) (·.duration) fun t : Node ℚ => (agg t).duration :=
  isAverage_agg agg_value (fun _ => rfl) fun _ _ _ => rfl

lemma convexity_isAverage : IsAverage (·.value) (·.convexity) fun t : Node ℚ => (agg t).convexity :=
  isAverage_agg agg_value (fun _ => rfl) fun _ _ _ => rfl

lemma averageLife_isAverage : IsAverage (·.principal) (·.averageLife) fun t : Node ℚ => (agg t).averageLife :=
  isAverage_agg agg_principal (fun _ => rfl) fun _ _ _ => rfl

structure SameTotals (a b : NodeAgg ℚ) : Prop where
  ec : a.ec = b.ec
  standalone : a.standalone = b.standalone
  value : a.value = b.value
  principal : a.principal = b.principal
  rar : a.rar = b.rar
  duration : a.duration = b.duration
  convexity : a.convexity = b.convexity
  averageLife : a.averageLife = b.averageLife

/-- Two hierarchies that lose the same of a figure. -/
def LoseSame (w x : NodeData ℚ → ℚ) (t u : Node ℚ) : Prop :=
  if 0 < t.weight w then t.lost w x = u.lost w x else t.bare x = u.bare x

/-- Two walks over the same leaves return the same totals exactly if the groupings lose the same of each
sensitivity. -/
theorem walk_regrouped_iff {flags flags' : Flags} {t u : Node ℚ} {a b va vb}
    (ht : walk flags t = .ok (a, va)) (hu : walk flags' u = .ok (b, vb))
    (hl : t.leaves.Perm u.leaves) :
    SameTotals a b ↔
      LoseSame (·.value) (·.duration) t u ∧ LoseSame (·.value) (·.convexity) t u ∧
        LoseSame (·.principal) (·.averageLife) t u := by
  obtain ⟨rfl, -⟩ := walk_spec t a va ht
  obtain ⟨rfl, -⟩ := walk_spec u b vb hu
  have hd := duration_isAverage.eq_iff hl
  have hc := convexity_isAverage.eq_iff hl
  have hal := averageLife_isAverage.eq_iff hl
  refine ⟨fun h => ⟨hd.1 h.duration, hc.1 h.convexity, hal.1 h.averageLife⟩, ?_⟩
  intro ⟨h1, h2, h3⟩
  refine ⟨?_, ?_, ?_, ?_, ?_, hd.2 h1, hc.2 h2, hal.2 h3⟩
  · rw [agg_ec, agg_ec, (hl.map _).sum_eq]
  · rw [agg_standalone, agg_standalone, (hl.map _).sum_eq]
  · rw [agg_value, agg_value, weight_perm hl]
  · rw [agg_principal, agg_principal, weight_perm hl]
  · rw [agg_rar, agg_rar, (hl.map _).sum_eq]

def creditPosition (ref : String) (value duration : ℚ) : NodeData ℚ where
  nodeRef := some ref
  label := ⟨some REQUIRED_REGIME_KEYS, some "credit", none⟩
  risk := ⟨some 100, none, none, none, none, none, none, none, none⟩
  term := ⟨some duration, none, none, some value, none, none, none⟩

def creditDesk (ref : String) : NodeData ℚ where
  nodeRef := some ref
  label := ⟨some REQUIRED_REGIME_KEYS, some "credit", none⟩
  risk := ⟨none, none, none, none, none, none, none, none, none⟩
  term := ⟨none, none, none, none, none, none, none⟩

def flatDesk : Node ℚ :=
  .node (creditDesk "desk") [.node (creditPosition "bond" 10 2) [],
    .node (creditPosition "long" 5 4) [], .node (creditPosition "short" (-5) 6) []]

def groupedDesk : Node ℚ :=
  .node (creditDesk "desk") [.node (creditPosition "bond" 10 2) [],
    .node (creditDesk "hedge") [.node (creditPosition "long" 5 4) [],
      .node (creditPosition "short" (-5) 6) []]]

/-- The walks over the two groupings return. -/
theorem walk_regrouped_iff_desk : ∃ a va b vb,
    walk ⟨false, false, false⟩ flatDesk = .ok (a, va) ∧
    walk ⟨false, false, false⟩ groupedDesk = .ok (b, vb) ∧
    (SameTotals a b ↔
      LoseSame (·.value) (·.duration) flatDesk groupedDesk ∧
      LoseSame (·.value) (·.convexity) flatDesk groupedDesk ∧
      LoseSame (·.principal) (·.averageLife) flatDesk groupedDesk) := by
  have hf : walk ⟨false, false, false⟩ flatDesk = .ok (_, _) := rfl
  have hg : walk ⟨false, false, false⟩ groupedDesk = .ok (_, _) := rfl
  exact ⟨_, _, _, _, hf, hg, walk_regrouped_iff hf hg (.of_eq rfl)⟩

/-- Grouping the hedged pair, whose values cancel, changes the duration of the desk from 1 to 2. -/
theorem hedge_grouping_changes_duration :
    flatDesk.leaves = groupedDesk.leaves ∧
    (walk ⟨false, false, false⟩ flatDesk).toOption.map (fun r => (r.1.duration, r.2.length)) = some (1, 0) ∧
    (walk ⟨false, false, false⟩ groupedDesk).toOption.map (fun r => (r.1.duration, r.2.length)) =
      some (2, 0) := by
  refine ⟨rfl, ?_, ?_⟩
  · decide +kernel
  · decide +kernel

end SocioWorkspace.Omnirisk
