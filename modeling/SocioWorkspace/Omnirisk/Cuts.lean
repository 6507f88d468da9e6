import SocioWorkspace.Omnirisk.Model

/-!
# The order of the cuts

`evaluate_tree` of `gbrg/governance/omnirisk_allocation.py` reconciles every cut with the one that is listed
first. Closeness within a tolerance is not transitive, so the order of the listing can decide the verdict. All of
this holds in any arithmetic of the figures, that of floats included.
-/

namespace SocioWorkspace.Omnirisk
open List

set_option linter.unusedSectionVars false

variable {K : Type} [Zero K] [One K] [Add K] [Sub K] [Mul K] [Div K] [LE K] [LT K] [Min K] [Max K]
  [DecidableEq K] [DecidableLE K] [DecidableLT K] [Figures K]

/-- The same figure up to the tolerance. -/
def Close (x y : K) : Prop := x = y ∨ Figures.abs (x - y) ≤ RECONCILE_TOL

def CloseRaroc (x y : WithTop K) : Prop := x = y ∨ ∃ a b : K, x = a ∧ y = b ∧ Close a b

/-- The comparison of `reconcile_cuts`, which no NaN fails. -/
def Reconciled (a b : NodeAgg K) : Prop :=
  ∀ p ∈ RECONCILED (K := K), ¬RECONCILE_TOL < Figures.abs (p.2 a - p.2 b)

lemma Reconciled.refl (a : NodeAgg K) : Reconciled a a := fun p _ => Figures.not_lt_abs_sub_self (p.2 a)

lemma reconcileCuts_eq_nil {base : String × NodeAgg K} {others} :
    reconcileCuts (base :: others) = [] ↔ ∀ other ∈ others, Reconciled base.2 other.2 := by
  rw [reconcileCuts, flatMap_eq_nil_iff]
  refine forall_congr' fun other => forall_congr' fun _ => ?_
  rw [filterMap_eq_nil_iff]
  refine forall_congr' fun p => forall_congr' fun _ => ?_
  dsimp only
  split_ifs with hdiffer
  · exact iff_of_false (by simp) fun h => h hdiffer
  · exact iff_of_true rfl hdiffer

structure Reordered (spec spec' : Spec K) : Prop where
  cuts : spec'.cuts.Perm spec.cuts
  treeId : spec'.treeId = spec.treeId
  hurdle : spec'.hurdle = spec.hurdle
  flags : spec'.flags = spec.flags

/-- The same verdict and, unless it is a rejection, the same bank figures up to the tolerance. -/
structure Agree (v v' : AllocationVerdict K) : Prop where
  verdict : v.verdict = v'.verdict
  ec : v.verdict ≠ .rejected → Option.Rel Close v.bankTotalEc v'.bankTotalEc
  raroc : v.verdict ≠ .rejected → Option.Rel CloseRaroc v.bankRaroc v'.bankRaroc
  economicProfit : v.verdict ≠ .rejected → Option.Rel Close v.bankEconomicProfit v'.bankEconomicProfit

/-- In any two orders of the cuts the evaluation raises, or returns results that agree. -/
def OrderIndependent (py : PyFormat K) (spec : Spec K) : Prop :=
  ∀ spec₁ spec₂, Reordered spec spec₁ → Reordered spec spec₂ →
    match evaluateTree py spec₁, evaluateTree py spec₂ with
    | .ok v₁, .ok v₂ => Agree v₁ v₂
    | .error _, .error _ => True
    | _, _ => False

/-- Two bank totals that an evaluation may exchange. -/
structure Exchangeable (hurdle : K) (a b : NodeAgg K) : Prop where
  reconciled : Reconciled a b
  ec : Close a.ec b.ec
  flag : ValueDestroying hurdle a ↔ ValueDestroying hurdle b
  raroc : Option.Rel CloseRaroc (bankRaroc a) (bankRaroc b)
  economicProfit : Close (economicProfit a.rar hurdle a.ec) (economicProfit b.rar hurdle b.ec)

/-- Some cut is rejected in any order, or every cut fails to reconcile with some cut, or any two may be
exchanged. -/
def Spec.Stable (spec : Spec K) : Prop :=
  (∃ c ∈ spec.cuts, ∃ s ∈ c.2.subtrees, ¬Passes spec.flags s) ∨
  (∀ c ∈ spec.cuts, ∃ d ∈ spec.cuts, ¬Reconciled (agg c.2) (agg d.2)) ∨
  (∀ c ∈ spec.cuts, ∀ d ∈ spec.cuts, Exchangeable spec.hurdle (agg c.2) (agg d.2))

section
variable {py : PyFormat K} {spec : Spec K}

lemma exists_reordered_head {c} (hc : c ∈ spec.cuts) :
    ∃ spec' rest, Reordered spec spec' ∧ spec'.cuts = c :: rest := by
  obtain ⟨l, r, h⟩ := append_of_mem hc
  have hp : (c :: (l ++ r)).Perm spec.cuts := h ▸ List.perm_middle.symm
  exact ⟨{ spec with cuts := c :: (l ++ r), nodup := (hp.map _).nodup_iff.2 spec.nodup }, l ++ r,
    ⟨hp, rfl, rfl, rfl⟩, rfl⟩

variable {spec' : Spec K}

lemma Reordered.returns (h : Reordered spec spec') :
    (∃ v, evaluateTree py spec' = .ok v) ↔ ∃ v, evaluateTree py spec = .ok v := by
  rw [evaluateTree_returns, evaluateTree_returns, h.flags, Ne, Ne, ← length_eq_zero_iff,
    ← length_eq_zero_iff, h.cuts.length_eq]
  simp only [h.cuts.mem_iff]

/-- Every node passes, and the cut reconciles with all cuts: listed first, it is accepted. -/
structure Spec.Leads (spec : Spec K) (c : String × Node K) : Prop where
  passes : ∀ d ∈ spec.cuts, ∀ s ∈ d.2.subtrees, Passes spec.flags s
  reconciled : ∀ d ∈ spec.cuts, Reconciled (agg c.2) (agg d.2)

lemma Reordered.accepts_iff (h : Reordered spec spec') {c rest}
    (hc : spec'.cuts = c :: rest) : spec'.Accepts ↔ spec.Leads c := by
  have hrec : reconcileCuts spec'.aggs = [] ↔ ∀ d ∈ spec.cuts, Reconciled (agg c.2) (agg d.2) := by
    simp only [Spec.aggs, hc, map_cons, reconcileCuts_eq_nil, forall_mem_map,
      ← h.cuts.mem_iff, forall_mem_cons]
    exact (and_iff_right (Reconciled.refl _)).symm
  refine ⟨fun ha => ⟨?_, hrec.1 ha.reconciled⟩, fun hl => ⟨?_, hrec.2 hl.reconciled⟩⟩
  · intro d hd
    rw [← h.flags]
    exact ha.passes d (h.cuts.mem_iff.2 hd)
  · intro d hd
    rw [h.flags]
    exact hl.passes d (h.cuts.mem_iff.1 hd)

lemma Reordered.result (h : Reordered spec spec') {c rest v}
    (hc : spec'.cuts = c :: rest) (hv : evaluateTree py spec' = .ok v) :
    (v.verdict = .rejected ↔ ¬spec.Leads c) ∧
    (v.verdict = .flagged ↔ spec.Leads c ∧ ValueDestroying spec.hurdle (agg c.2)) ∧
    v.bankTotalEc = some (agg c.2).ec ∧ v.bankRaroc = bankRaroc (agg c.2) ∧
    v.bankEconomicProfit = some (economicProfit (agg c.2).rar spec.hurdle (agg c.2).ec) := by
  obtain ⟨hr, bank, hb, hrest⟩ := evaluateTree_spec hv
  have hbank : bank = agg c.2 := by
    rw [Spec.aggs, hc] at hb
    exact (Option.some.inj hb).symm
  subst hbank
  rw [h.accepts_iff hc] at hr hrest
  rw [h.hurdle] at hrest
  exact ⟨hr, hrest⟩

lemma Verdict.eq_of_iff {v w : Verdict} (hr : v = .rejected ↔ w = .rejected)
    (hf : v = .flagged ↔ w = .flagged) : v = w := by
  cases v <;> cases w <;> simp_all

lemma agree_iff {spec₁ spec₂ : Spec K} {c d v₁ v₂ rest₁ rest₂}
    (h₁ : Reordered spec spec₁) (h₂ : Reordered spec spec₂) (hc : spec₁.cuts = c :: rest₁)
    (hd : spec₂.cuts = d :: rest₂) (hv₁ : evaluateTree py spec₁ = .ok v₁)
    (hv₂ : evaluateTree py spec₂ = .ok v₂) :
    Agree v₁ v₂ ↔ (spec.Leads c ↔ spec.Leads d) ∧
      (spec.Leads c → Exchangeable spec.hurdle (agg c.2) (agg d.2)) := by
  obtain ⟨hr₁, hf₁, hec₁, hra₁, hep₁⟩ := h₁.result hc hv₁
  obtain ⟨hr₂, hf₂, hec₂, hra₂, hep₂⟩ := h₂.result hd hv₂
  have hdm : d ∈ spec.cuts := h₂.cuts.mem_iff.1 (hd ▸ .head _)
  refine ⟨?_, ?_⟩
  · intro ha
    have hiff : spec.Leads c ↔ spec.Leads d := by
      rw [← not_iff_not, ← hr₁, ← hr₂, ha.verdict]
    refine ⟨hiff, fun hl => ?_⟩
    have hne : v₁.verdict ≠ .rejected := fun he => hr₁.1 he hl
    refine ⟨hl.reconciled d hdm, ?_, ?_, ?_, ?_⟩
    · have := ha.ec hne
      rw [hec₁, hec₂] at this
      cases this with
      | some hcl => exact hcl
    · rw [ha.verdict, hf₂] at hf₁
      exact ⟨fun hvd => (hf₁.2 ⟨hl, hvd⟩).2, fun hvd => (hf₁.1 ⟨hiff.1 hl, hvd⟩).2⟩
    · have := ha.raroc hne
      rwa [hra₁, hra₂] at this
    · have := ha.economicProfit hne
      rw [hep₁, hep₂] at this
      cases this with
      | some hcl => exact hcl
  · intro ⟨hiff, hex⟩
    have hl : v₁.verdict ≠ .rejected → spec.Leads c := fun hne => not_not.1 fun hn => hne (hr₁.2 hn)
    refine ⟨?_, ?_, ?_, ?_⟩
    · apply Verdict.eq_of_iff
      · rw [hr₁, hr₂, hiff]
      · rw [hf₁, hf₂]
        refine ⟨?_, ?_⟩
        · intro ⟨hlc, hvd⟩
          exact ⟨hiff.1 hlc, (hex hlc).flag.1 hvd⟩
        · intro ⟨hld, hvd⟩
          exact ⟨hiff.2 hld, (hex (hiff.2 hld)).flag.2 hvd⟩
    · intro hne
      rw [hec₁, hec₂]
      exact .some (hex (hl hne)).ec
    · intro hne
      rw [hra₁, hra₂]
      exact (hex (hl hne)).raroc
    · intro hne
      rw [hep₁, hep₂]
      exact .some (hex (hl hne)).economicProfit

lemma stable_iff_cuts : spec.Stable ↔ ∀ c ∈ spec.cuts, ∀ d ∈ spec.cuts,
    (spec.Leads c ↔ spec.Leads d) ∧
      (spec.Leads c → Exchangeable spec.hurdle (agg c.2) (agg d.2)) := by
  refine ⟨?_, ?_⟩
  · intro hs c hc d hd
    cases hs with
    | inl h =>
      obtain ⟨e, he, s, hs, hn⟩ := h
      have hno : ∀ c, ¬spec.Leads c := fun c hl => hn (hl.passes e he s hs)
      exact ⟨iff_of_false (hno c) (hno d), fun hl => (hno c hl).elim⟩
    | inr h =>
      cases h with
      | inl h =>
        have hno : ∀ c ∈ spec.cuts, ¬spec.Leads c := by
          intro c hc hl
          obtain ⟨e, he, hn⟩ := h c hc
          exact hn (hl.reconciled e he)
        exact ⟨iff_of_false (hno c hc) (hno d hd), fun hl => (hno c hc hl).elim⟩
      | inr h =>
        exact ⟨⟨fun hl => ⟨hl.passes, fun e he => (h d hd e he).reconciled⟩,
          fun hl => ⟨hl.passes, fun e he => (h c hc e he).reconciled⟩⟩, fun _ => h c hc d hd⟩
  · intro h
    by_cases hp : ∀ c ∈ spec.cuts, ∀ s ∈ c.2.subtrees, Passes spec.flags s
    · right
      by_cases hl : ∃ c ∈ spec.cuts, spec.Leads c
      · obtain ⟨e, he, hle⟩ := hl
        exact .inr fun c hc d hd => (h c hc d hd).2 ((h e he c hc).1.1 hle)
      · left
        intro c hc
        by_contra hn
        push Not at hn
        exact hl ⟨c, hc, hp, hn⟩
    · left
      push Not at hp
      exact hp

/-- The order of the cuts does not matter exactly if some walk raises or the cuts are stable, whatever the
arithmetic. -/
theorem orderIndependent_iff : OrderIndependent py spec ↔
    ((∀ c ∈ spec.cuts, ∃ r, walk spec.flags c.2 = .ok r) → spec.Stable) := by
  refine ⟨?_, ?_⟩
  · intro h hw
    rw [stable_iff_cuts]
    intro c hc d hd
    obtain ⟨spec₁, rest₁, hr₁, hc₁⟩ := exists_reordered_head hc
    obtain ⟨spec₂, rest₂, hr₂, hc₂⟩ := exists_reordered_head hd
    have hret : ∃ v, evaluateTree py spec = .ok v := evaluateTree_returns.2 ⟨ne_nil_of_mem hc, hw⟩
    obtain ⟨v₁, hv₁⟩ := hr₁.returns.2 hret
    obtain ⟨v₂, hv₂⟩ := hr₂.returns.2 hret
    have ha := h spec₁ spec₂ hr₁ hr₂
    rw [hv₁, hv₂] at ha
    exact (agree_iff hr₁ hr₂ hc₁ hc₂ hv₁ hv₂).1 ha
  · intro h spec₁ spec₂ hr₁ hr₂
    have hiff : (∃ v, evaluateTree py spec₁ = .ok v) ↔ ∃ v, evaluateTree py spec₂ = .ok v :=
      hr₁.returns.trans hr₂.returns.symm
    cases hv₁ : evaluateTree py spec₁ with
    | error e₁ =>
      cases hv₂ : evaluateTree py spec₂ with
      | error e₂ => trivial
      | ok v₂ =>
        obtain ⟨v, hv⟩ := hiff.2 ⟨v₂, hv₂⟩
        rw [hv₁] at hv
        cases hv
    | ok v₁ =>
      obtain ⟨v₂, hv₂⟩ := hiff.1 ⟨v₁, hv₁⟩
      rw [hv₂]
      obtain ⟨-, hw⟩ := evaluateTree_returns.1 (hr₁.returns.1 ⟨v₁, hv₁⟩)
      obtain ⟨c, rest₁, hc⟩ := exists_cons_of_ne_nil (evaluateTree_eq_ok.1 hv₁).1
      obtain ⟨d, rest₂, hd⟩ := exists_cons_of_ne_nil (evaluateTree_eq_ok.1 hv₂).1
      exact (agree_iff hr₁ hr₂ hc hd hv₁ hv₂).2 (stable_iff_cuts.1 (h hw) c
        (hr₁.cuts.mem_iff.1 (hc ▸ .head _)) d (hr₂.cuts.mem_iff.1 (hd ▸ .head _)))

end

def singleCut (name : String) (ec rar : ℚ) : String × Node ℚ :=
  (name, .node {
    nodeRef := some "bank"
    label := ⟨some REQUIRED_REGIME_KEYS, some "market", none⟩
    risk := ⟨some 100, none, some ec, none, none, some rar, none, none, none⟩
    term := ⟨none, none, none, none, none, none, none⟩ } [])

def cutsSpec (cuts : List (String × Node ℚ)) (h : (cuts.map Prod.fst).Nodup) : Spec ℚ :=
  ⟨some "bank", cuts, some (1 / 2), none, none, none, h⟩

/-- Capitals that drift by the tolerance verify with the middle one first only; cuts with different returns
verify or are flagged. -/
theorem cut_order_changes_verdict :
    ((evaluateTree .decimal (cutsSpec [singleCut "b" (1 / 10000) 1, singleCut "a" 0 1,
        singleCut "c" (2 / 10000) 1] (by decide))).toOption.map (·.verdict) = some .verifies ∧
      (evaluateTree .decimal (cutsSpec [singleCut "a" 0 1, singleCut "b" (1 / 10000) 1,
        singleCut "c" (2 / 10000) 1] (by decide))).toOption.map (·.verdict) = some .rejected) ∧
    ((evaluateTree .decimal (cutsSpec [singleCut "a" 1 1, singleCut "b" 1 0]
        (by decide))).toOption.map (·.verdict) = some .verifies ∧
      (evaluateTree .decimal (cutsSpec [singleCut "b" 1 0, singleCut "a" 1 1]
        (by decide))).toOption.map (·.verdict) = some .flagged) := by
  decide +kernel

end SocioWorkspace.Omnirisk
