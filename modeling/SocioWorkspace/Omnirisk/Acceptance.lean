import SocioWorkspace.Omnirisk.Rollup

/-!
# What an accepted hierarchy satisfies

Every check of `walk` in `gbrg/governance/omnirisk_allocation.py` looks at the children of a node and at what is
aggregated from them, so what it demands of a tree that is not rejected holds for all leaves below every inner
node. The coherence gate is a deny-list and the sample-size rule yields to the flag of the leaf, so neither gives
the law it is named after. The bank figures are those of the first cut: a tree that verifies can report a loss.
-/

namespace SocioWorkspace.Omnirisk
open RoseTree List

variable {t : Node ℚ}

lemma provisional_of_leaf {l} (hl : l ∈ t.leaves) (hp : l.provisional = true) :
    (agg t).provisional = true := by
  refine fold_of_mem_leaves (fun a : NodeAgg ℚ => a.provisional = true) ?_ hl hp
  intro data aggs a ha hpa
  exact Bool.or_eq_true_iff.2 (.inl (any_eq_true.2 ⟨a, ha, hpa⟩))

section
variable {flags : Flags} {n : Node ℚ}

lemma coherent_of_passes (hf : flags.incoherenceOverride = false) (hn : n.children ≠ [])
    (hp : ∀ s ∈ n.subtrees, Passes flags s) {l} (hl : l ∈ n.leaves) : l.measure ∉ NONCOHERENT_MEASURES := by
  obtain ⟨p, hmem, hchild⟩ := exists_parent_of_mem_leaves hn hl
  have hm := filterMap_eq_nil_iff.1 (hp p hmem).gate _ hchild
  unfold NodeData.measure
  cases hr : l.risk.measure with
  | none => decide
  | some m => simpa [hr, hf] using hm

lemma provisional_of_passes (hf : flags.allowProvisional = false) (hn : n.children ≠ [])
    (hp : Passes flags n) {l} (hl : l ∈ n.leaves) (hlp : l.provisional = true) :
    n.label.declaredProvisional = true := by
  cases n with
  | node data cs =>
    have hcs : cs ≠ [] := hn
    rw [leaves_node data hcs] at hl
    obtain ⟨c, hc, hlc⟩ := mem_flatMap.1 hl
    have hbelow : (cs.map agg).any (·.provisional) = true :=
      any_eq_true.2 ⟨agg c, mem_map_of_mem hc, provisional_of_leaf hlc hlp⟩
    have hchecks := hp.rollUp hn
    simp only [checkRollUp, append_eq_nil_iff] at hchecks
    by_contra hdeclared
    have hdenied : data.declaredProvisional = false := Bool.eq_false_iff.2 hdeclared
    exact absurd hchecks.2 (by simp [hbelow, hdenied, hf])

variable {py : PyFormat ℚ} {spec : Spec ℚ} {v : AllocationVerdict ℚ}

def Spec.Inner (spec : Spec ℚ) (n : Node ℚ) : Prop := ∃ cut ∈ spec.cuts, n ∈ cut.2.subtrees ∧ n.children ≠ []

lemma passes_below (h : evaluateTree py spec = .ok v) (hv : v.verdict ≠ .rejected) {n}
    (hn : spec.Inner n) : ∀ s ∈ n.subtrees, Passes spec.flags s := by
  have hacc : spec.Accepts := not_not.1 fun hna => hv ((evaluateTree_spec h).1.2 hna)
  obtain ⟨cut, hcut, hmem, -⟩ := hn
  exact fun s hs => hacc.passes cut hcut s (subtrees_trans hs hmem)

def bookLeaf (ref : String) (measure : Option String) (n : ℤ) (provisional : Option Bool) :
    NodeData ℚ where
  nodeRef := some ref
  label := ⟨some REQUIRED_REGIME_KEYS, some "equity", none⟩
  risk := ⟨some n, measure, some 4, none, some 5, some 1, provisional, some (99 / 100), some 1⟩
  term := ⟨none, none, none, none, none, none, none⟩

def bookRoot : NodeData ℚ where
  nodeRef := some "book"
  label := ⟨some REQUIRED_REGIME_KEYS, some "equity", none⟩
  risk := ⟨none, none, none, some 8, none, none, none, none, none⟩
  term := ⟨none, none, none, none, none, none, none⟩

def bookSpec (measure : Option String) (n : ℤ) (provisional : Option Bool) : Spec ℚ where
  treeId := some "book"
  cuts := [("desk", .node bookRoot
    [.node (bookLeaf "a" none 100 none) [], .node (bookLeaf "b" measure n provisional) []])]
  hurdleRate := some (1 / 10)
  incoherenceOverride := none
  allowProvisional := none
  rescale := none
  nodup := List.nodup_singleton _

lemma book_accepted : ∃ v, evaluateTree .decimal (bookSpec none 100 none) = .ok v ∧ v.verdict ≠ .rejected :=
  ⟨_, rfl, by decide +kernel⟩

/-- Every leaf uses a coherent measure, and every inner node above a small sample is provisional. -/
def Spec.Teeth (spec : Spec ℚ) : Prop :=
  ∀ n, spec.Inner n →
    (∀ l ∈ n.leaves, l.measure ∈ COHERENT_MEASURES) ∧
    ((∃ l ∈ n.leaves, l.nSamples < MIN_SAMPLES) → n.label.declaredProvisional)

/-- An accepted tree has the two laws exactly if no leaf uses a measure unknown to both lists, and every
inner node above a leaf that denies being provisional is declared so. -/
theorem evaluateTree_teeth_iff (hi : spec.flags.incoherenceOverride = false)
    (ha : spec.flags.allowProvisional = false) (h : evaluateTree py spec = .ok v)
    (hv : v.verdict ≠ .rejected) :
    spec.Teeth ↔ ∀ n, spec.Inner n → ∀ l ∈ n.leaves,
      (l.measure ∈ COHERENT_MEASURES ∨ l.measure ∈ NONCOHERENT_MEASURES) ∧
      (l.nSamples < MIN_SAMPLES → l.risk.provisional = some false →
        n.label.declaredProvisional) := by
  refine ⟨?_, ?_⟩
  · intro ht n hn l hl
    obtain ⟨hm, hp⟩ := ht n hn
    exact ⟨.inl (hm l hl), fun hs _ => hp ⟨l, hl, hs⟩⟩
  · intro hk n hn
    have hp := passes_below h hv hn
    obtain ⟨-, -, -, hc⟩ := id hn
    refine ⟨?_, ?_⟩
    · intro l hl
      cases (hk n hn l hl).1 with
      | inl hm => exact hm
      | inr hm => exact (coherent_of_passes hi hc hp hl hm).elim
    · intro ⟨l, hl, hs⟩
      by_cases hd : l.risk.provisional = some false
      · exact (hk n hn l hl).2 hs hd
      · -- without a flag the sample size decides, and a flag that is set decides itself
        have hlp : l.provisional = true := by
          unfold NodeData.provisional
          cases hr : l.risk.provisional with
          | none => simpa using hs
          | some b =>
            cases b with
            | true => rfl
            | false => exact (hd hr).elim
        exact provisional_of_passes ha hc (hp n (self_mem_subtrees n)) hl hlp

theorem evaluateTree_teeth_iff_book :
    ∃ v, evaluateTree .decimal (bookSpec none 100 none) = .ok v ∧ v.verdict ≠ .rejected ∧
      ((bookSpec none 100 none).Teeth ↔ ∀ n, (bookSpec none 100 none).Inner n → ∀ l ∈ n.leaves,
        (l.measure ∈ COHERENT_MEASURES ∨ l.measure ∈ NONCOHERENT_MEASURES) ∧
        (l.nSamples < MIN_SAMPLES → l.risk.provisional = some false →
          n.label.declaredProvisional)) := by
  obtain ⟨v, h, hv⟩ := book_accepted
  exact ⟨v, h, hv, evaluateTree_teeth_iff rfl rfl h hv⟩

/-- A measure on neither list is accepted, and so is a leaf of five samples that denies being
provisional. -/
theorem unlisted_measure_and_denied_flag_verify :
    ((evaluateTree .decimal (bookSpec (some "cvar") 100 none)).toOption.map (·.verdict) =
        some .verifies ∧ ¬(bookSpec (some "cvar") 100 none).Teeth) ∧
    ((evaluateTree .decimal (bookSpec none 5 (some false))).toOption.map (·.verdict) =
        some .verifies ∧ ¬(bookSpec none 5 (some false)).Teeth) := by
  refine ⟨⟨by decide +kernel, ?_⟩, by decide +kernel, ?_⟩
  · intro h
    have hm := (h _ ⟨_, mem_singleton_self _, self_mem_subtrees _, cons_ne_nil _ _⟩).1
      (bookLeaf "b" (some "cvar") 100 none) (.tail _ (.head _))
    revert hm
    decide
  · intro h
    have hp := (h _ ⟨_, mem_singleton_self _, self_mem_subtrees _, cons_ne_nil _ _⟩).2
      ⟨bookLeaf "b" none 5 (some false), .tail _ (.head _), by decide⟩
    exact Bool.false_ne_true hp

def Spec.bankLeaves (spec : Spec ℚ) : List (NodeData ℚ) := spec.cuts.head?.elim [] (·.2.leaves)

def Spec.bankEc (spec : Spec ℚ) : ℚ := (spec.bankLeaves.map (·.contribution)).sum

def Spec.bankRar (spec : Spec ℚ) : ℚ := (spec.bankLeaves.map (·.rar)).sum

lemma bank_totals {spec : Spec ℚ} {bank} (h : spec.aggs.head?.map (·.2) = some bank) :
    bank.ec = spec.bankEc ∧ bank.rar = spec.bankRar := by
  unfold Spec.bankEc Spec.bankRar Spec.bankLeaves
  unfold Spec.aggs at h
  cases hc : spec.cuts with
  | nil =>
    rw [hc] at h
    cases h
  | cons cut cuts =>
    rw [hc] at h
    cases h
    exact ⟨agg_ec cut.2, agg_rar cut.2⟩

lemma not_valueDestroying {hurdle : ℚ} {bank} : ¬ValueDestroying hurdle bank ↔
    bank.ec = 0 ∨ hurdle ≤ bank.rar / bank.ec := by
  unfold ValueDestroying bankRaroc raroc
  by_cases hz : bank.ec = 0
  · simp [hz]
  · simp [hz]

/-- With the RAROC at the hurdle the profit is as expected for positive capital only: without capital there
is no ratio, and negative capital turns the comparison around. -/
lemma economicProfit_nonneg_iff {hurdle rar ec : ℚ} (h : ec = 0 ∨ hurdle ≤ rar / ec) :
    0 ≤ economicProfit rar hurdle ec ↔
      0 < ec ∨ (ec = 0 ∧ 0 ≤ rar) ∨ (ec < 0 ∧ rar = hurdle * ec) := by
  unfold economicProfit
  rcases lt_trichotomy ec 0 with hneg | rfl | hpos
  · have hle : rar ≤ hurdle * ec := (le_div_iff_of_neg hneg).1 (h.resolve_left hneg.ne)
    simp only [hneg.not_gt, hneg.ne, hneg, false_and, true_and, false_or, sub_nonneg]
    exact ⟨fun hge => le_antisymm hle hge, fun he => he.ge⟩
  · simp
  · have hle : hurdle * ec ≤ rar := (le_div_iff₀ hpos).1 (h.resolve_left hpos.ne')
    simp only [hpos, true_or, iff_true, sub_nonneg]
    exact hle

def AllocationVerdict.ProfitNonneg (v : AllocationVerdict ℚ) : Prop :=
  ∃ p, v.bankEconomicProfit = some p ∧ 0 ≤ p

/-- The profit of a tree that verifies is not negative exactly if the capital is positive, or zero with no
negative return, or negative with a return at the hurdle. -/
theorem evaluateTree_profit_iff (h : evaluateTree py spec = .ok v) (hv : v.verdict = .verifies) :
    v.ProfitNonneg ↔ 0 < spec.bankEc ∨ (spec.bankEc = 0 ∧ 0 ≤ spec.bankRar) ∨
      (spec.bankEc < 0 ∧ spec.bankRar = spec.hurdle * spec.bankEc) := by
  obtain ⟨hr, bank, hbank, hf, -, -, hp⟩ := evaluateTree_spec h
  have hacc : spec.Accepts := by
    by_contra hna
    rw [hr.2 hna] at hv
    cases hv
  have hnd : ¬ValueDestroying spec.hurdle bank := by
    intro hd
    rw [hf.2 ⟨hacc, hd⟩] at hv
    cases hv
  obtain ⟨hec, hrar⟩ := bank_totals hbank
  rw [← hec, ← hrar, ← economicProfit_nonneg_iff (not_valueDestroying.1 hnd),
    AllocationVerdict.ProfitNonneg, hp]
  simp only [Option.some.injEq, exists_eq_left']

end

def soleSpec (ec rar : ℚ) : Spec ℚ where
  treeId := some "sole"
  cuts := [("desk", .node {
    nodeRef := some "position"
    label := ⟨some REQUIRED_REGIME_KEYS, some "equity", none⟩
    risk := ⟨some 100, none, some ec, none, none, some rar, none, none, none⟩
    term := ⟨none, none, none, none, none, none, none⟩ } [])]
  hurdleRate := some (1 / 10)
  incoherenceOverride := none
  allowProvisional := none
  rescale := none
  nodup := List.nodup_singleton _

/-- The same two positions in two cuts, flat and below a desk of their own. -/
def deskSpec : Spec ℚ where
  treeId := some "desks"
  cuts := [("flat", .node bookRoot [.node (bookLeaf "a" none 100 none) [], .node (bookLeaf "b" none 100 none) []]),
    ("desks", .node bookRoot [.node bookRoot
      [.node (bookLeaf "a" none 100 none) [], .node (bookLeaf "b" none 100 none) []]])]
  hurdleRate := some (1 / 10)
  incoherenceOverride := none
  allowProvisional := none
  rescale := none
  nodup := by decide

theorem evaluateTree_profit_iff_desks : ∃ v, evaluateTree .decimal deskSpec = .ok v ∧ v.verdict = .verifies ∧
    (v.ProfitNonneg ↔ 0 < deskSpec.bankEc ∨ (deskSpec.bankEc = 0 ∧ 0 ≤ deskSpec.bankRar) ∨
      (deskSpec.bankEc < 0 ∧ deskSpec.bankRar = deskSpec.hurdle * deskSpec.bankEc)) := by
  obtain ⟨v, h, hv⟩ : ∃ v, evaluateTree .decimal deskSpec = .ok v ∧ v.verdict = .verifies :=
    ⟨_, rfl, by decide +kernel⟩
  exact ⟨v, h, hv, evaluateTree_profit_iff h hv⟩

/-- A loss on no capital verifies, and so does a loss on negative capital. -/
theorem loss_without_capital_verifies :
    (evaluateTree .decimal (soleSpec 0 (-7))).toOption.map
        (fun v => (v.verdict, v.bankEconomicProfit)) = some (.verifies, some (-7)) ∧
    (evaluateTree .decimal (soleSpec (-100) (-30))).toOption.map
        (fun v => (v.verdict, v.bankEconomicProfit)) = some (.verifies, some (-20)) := by
  refine ⟨?_, ?_⟩
  · decide +kernel
  · decide +kernel

end SocioWorkspace.Omnirisk
