import SocioWorkspace.Holographic.Cells
import SocioWorkspace.Holographic.Seizure
import SocioWorkspace.Lib.OrderedDict

/-!
# How the copies are spread

Model of `disperse_shards` and `disperse_with_replicas` of `automation/storage_resilience.py`, which like
`_place` of `automation/leaf_propagation.py` take every so-manyth node of the mesh. No bottom group is met
twice at a distance of three; a distance of two depends on where the groups of three are.
-/

namespace SocioWorkspace.Holographic
open List

inductive DisperseError where
  | emptyMesh
  | shards (shards mesh : ℕ)
  | copies (total shards replicas mesh : ℕ)
  | zeroDivision
deriving DecidableEq

def shardKey (s : ℕ) : String := "shard-" ++ toString s

/-- Python `disperse_shards`: the shard of each node. -/
def disperseShards (nodes : List String) (p : Placement) :
    Except DisperseError (List (String × String)) :=
  if nodes = [] then .error .emptyMesh
  else
    let ordered := (buildTree nodes).leaves
    if ordered.length < p.rsN then .error (.shards p.rsN ordered.length)
    else if p.rsN = 0 then .error .zeroDivision
    else
      let stride := max 1 (ordered.length / p.rsN)
      .ok ((List.range p.rsN).foldl (fun d i =>
        OrderedDict.set (· == ·) (ordered.getD ((i * stride) % ordered.length) "") (shardKey i) d) [])

/-- Python `disperse_with_replicas`; the slots are counted on from shard to shard. -/
def disperseWithReplicas (nodes : List String) (p : Placement) :
    Except DisperseError (List (String × List String)) :=
  if nodes = [] then .error .emptyMesh
  else
    let ordered := (buildTree nodes).leaves
    let total := p.rsN * p.shardReplicas
    if ordered.length < total then .error (.copies total p.rsN p.shardReplicas ordered.length)
    else if total = 0 then .error .zeroDivision
    else
      let stride := max 1 (ordered.length / total)
      .ok ((List.range p.rsN).map fun s => (shardKey s, slots ordered p.shardReplicas stride s))

/-- No two of the copies are in one bottom group of the mesh. -/
def Spread (nodes copies : List String) : Prop :=
  copies.Pairwise fun a b => ∀ g ∈ bottomGroups (buildTree nodes), ¬(a ∈ g ∧ b ∈ g)

/-- No two of the first `m` slots are in one cell. -/
def SpreadSlots (n m stride : ℕ) : Prop :=
  ∀ i j, i < j → j < m → ∀ s l, Cell n s l → ¬(s ≤ i * stride ∧ j * stride < s + l)

/-- Where the cells have at most two nodes, up to one at the end. -/
def Paired (n : ℕ) : Prop := ∃ k, 4 * 3 ^ k ≤ n + 1 ∧ n ≤ 6 * 3 ^ k

section
variable {n m : ℕ}

/-- Where the cells are not so, there is one of three nodes at an even position that is not too late. -/
lemma exists_cell_of_not_paired (hn : 4 ≤ n) (h : ¬Paired n) :
    ∃ i, Cell n (2 * i) 3 ∧ 3 * (2 * i) + 6 ≤ 2 * n := by
  obtain ⟨k, hlow, hhigh⟩ := exists_nat_pow_near (x := n - 1) (y := 3) (by omega) (by omega)
  cases k with
  | zero => omega
  | succ k =>
    have hpow : 3 ^ (k + 1 + 1) = 9 * 3 ^ k := by rw [pow_succ, pow_succ]; omega
    by_cases hsmall : n + 2 ≤ 4 * 3 ^ k
    · exact exists_cell_three (by omega) hsmall
    · have hlarge : 6 * 3 ^ k < n := by
        by_contra hle
        exact h ⟨k, by omega, by omega⟩
      exact ⟨0, cell_zero_three hlarge (by omega), by omega⟩

lemma spreadSlots_one (hle : m ≤ n) : SpreadSlots n m 1 ↔ m ≤ 1 := by
  refine ⟨fun h => ?_, fun h i j hij hj => ?_⟩
  · by_contra hm
    obtain ⟨l, hl, hcell⟩ := exists_first_cell (n := n) (by omega)
    exact h 0 1 (by omega) (by omega) 0 l hcell ⟨by omega, by omega⟩
  · omega

/-- Every second slot meets a cell twice just where the cell has three nodes and starts at a slot. -/
lemma spreadSlots_two (hm : 2 ≤ m) (h2 : 2 * m ≤ n) (h3 : n < 3 * m) : SpreadSlots n m 2 ↔ Paired n := by
  refine ⟨fun h => ?_, fun h => ?_⟩
  · by_contra hpaired
    obtain ⟨i, hcell, hi⟩ := exists_cell_of_not_paired (by omega) hpaired
    exact h i (i + 1) (by omega) (by omega) _ 3 hcell ⟨by omega, by omega⟩
  · obtain ⟨k, hlow, hhigh⟩ := h
    intro i j hij hj s l hcell hmeets
    have hl := hcell.inv_le
    obtain rfl : l = 3 := by omega
    have hend := cell_three hlow hhigh hcell
    omega

lemma spreadSlots_of_three_le {stride} (h : 3 ≤ stride) : SpreadSlots n m stride := by
  intro i j hij _ s l hcell hmeets
  have hl := hcell.inv_le
  have hnext : (i + 1) * stride ≤ j * stride := Nat.mul_le_mul_right stride hij
  rw [Nat.add_mul, Nat.one_mul] at hnext
  omega

lemma spreadSlots_iff (hm : 0 < m) (hle : m ≤ n) :
    SpreadSlots n m (max 1 (n / m)) ↔ m = 1 ∨ 3 * m ≤ n ∨ (2 * m ≤ n ∧ Paired n) := by
  have hpos : 1 ≤ n / m := (Nat.le_div_iff_mul_le hm).2 (by omega)
  rw [max_eq_right hpos]
  rcases Nat.lt_or_ge n (2 * m) with hlt | h2
  · have hdiv : n / m = 1 := Nat.div_eq_of_lt_le (by omega) (by omega)
    rw [hdiv, spreadSlots_one hle]
    omega
  · rcases Nat.lt_or_ge n (3 * m) with hlt | h3
    · have hdiv : n / m = 2 := Nat.div_eq_of_lt_le (by omega) (by omega)
      rw [hdiv]
      by_cases h1 : m = 1
      · refine iff_of_true (fun i j hij hj => ?_) (.inl h1)
        omega
      · rw [spreadSlots_two (by omega) h2 hlt]
        refine ⟨fun h => .inr (.inr ⟨h2, h⟩), fun h => ?_⟩
        rcases h with h | h | h
        · exact absurd h h1
        · omega
        · exact h.2
    · have hdiv : 3 ≤ n / m := (Nat.le_div_iff_mul_le hm).2 h3
      exact iff_of_true (spreadSlots_of_three_le hdiv) (.inr (.inl h3))

end

def slotNodes (nodes : List String) (n R : ℕ) : List String :=
  (List.range (n * R)).map fun j => nodes.getD ((j * stride nodes n R) % nodes.length) ""

lemma flatMap_range_eq {α : Type} (f : ℕ → α) (n R : ℕ) :
    ((range n).flatMap fun i => (range R).map fun r => f (i * R + r)) =
      (range (n * R)).map f := by
  induction n with
  | zero => rw [Nat.zero_mul]; rfl
  | succ n ih =>
    rw [range_succ, flatMap_append, ih, flatMap_singleton, Nat.succ_mul, range_add, map_append, map_map]
    rfl

section
variable {nodes : List String} {n R : ℕ}

lemma flatMap_slots : (range n).flatMap (slots nodes R (stride nodes n R)) = slotNodes nodes n R :=
  flatMap_range_eq (fun j => nodes.getD ((j * stride nodes n R) % nodes.length) "") n R

lemma getD_mem_take_drop (hnodup : nodes.Nodup) {i s l} (hi : i < nodes.length) :
    nodes.getD i "" ∈ (nodes.drop s).take l ↔ s ≤ i ∧ i < s + l := by
  rw [getD_eq_getElem _ _ hi, mem_take_iff_getElem]
  refine ⟨fun h => ?_, fun h => ?_⟩
  · obtain ⟨j, hj, he⟩ := h
    rw [getElem_drop, hnodup.getElem_inj_iff] at he
    omega
  · have hj : i - s < min l (nodes.drop s).length := by
      rw [length_drop]
      omega
    refine ⟨i - s, hj, ?_⟩
    rw [getElem_drop, hnodup.getElem_inj_iff]
    omega

lemma spread_slotNodes (hne : nodes ≠ []) (hnodup : nodes.Nodup) (hpos : 0 < n * R)
    (hle : n * R ≤ nodes.length) : Spread nodes (slotNodes nodes n R) ↔
      SpreadSlots nodes.length (n * R) (stride nodes n R) := by
  have hslot {j s l : ℕ} (hj : j < n * R) :
      nodes.getD ((j * stride nodes n R) % nodes.length) "" ∈ (nodes.drop s).take l ↔
        s ≤ j * stride nodes n R ∧ j * stride nodes n R < s + l := by
    have hlt := mul_stride_lt hpos hle hj
    rw [Nat.mod_eq_of_lt hlt, getD_mem_take_drop hnodup hlt]
  rw [Spread, slotNodes, pairwise_map, pairwise_iff_getElem]
  simp only [length_range, getElem_range, mem_bottomGroups hne]
  refine ⟨fun h i j hij hj s l hcell hmeets => ?_, fun h i j hi hj hij g hg hboth => ?_⟩
  · have hmono : i * stride nodes n R ≤ j * stride nodes n R := Nat.mul_le_mul_right _ hij.le
    refine h i j (hij.trans hj) hj hij _ ⟨s, l, hcell, rfl⟩ ⟨?_, ?_⟩
    · exact (hslot (hij.trans hj)).2 ⟨hmeets.1, lt_of_le_of_lt hmono hmeets.2⟩
    · exact (hslot hj).2 ⟨hmeets.1.trans hmono, hmeets.2⟩
  · obtain ⟨s, l, hcell, rfl⟩ := hg
    exact h i j hij hj s l hcell ⟨((hslot hi).1 hboth.1).1, ((hslot hj).1 hboth.2).2⟩

lemma nodup_slotNodes (hnodup : nodes.Nodup) (hpos : 0 < n * R) (hle : n * R ≤ nodes.length) :
    (slotNodes nodes n R).Nodup := by
  refine nodup_range.map_on fun j hj j' hj' he => ?_
  exact slotNode_inj hpos hle hnodup (mem_range.1 hj) (mem_range.1 hj') he

lemma guarded_returns_iff {ε α : Type} {empty few zero out total} {Q : α → Prop}
    (hne : nodes ≠ []) (hle : total ≤ nodes.length) :
    (∃ result, (if nodes = [] then .error empty
        else if nodes.length < total then .error few
        else if total = 0 then .error zero
        else .ok out : Except ε α) = .ok result ∧ Q result) ↔ 0 < total ∧ Q out := by
  rw [if_neg hne, if_neg (not_lt.2 hle)]
  split_ifs with hzero
  · refine iff_of_false (fun h => ?_) (by omega)
    obtain ⟨result, h, -⟩ := h
    cases h
  · refine ⟨fun h => ?_, fun h => ⟨out, rfl, h.2⟩⟩
    obtain ⟨result, h, hq⟩ := h
    cases h
    exact ⟨Nat.pos_of_ne_zero hzero, hq⟩

variable {Q : List String → Prop}

lemma place_returns_iff (hne : nodes ≠ []) (hle : n * R ≤ nodes.length) {xs} (hxs : xs.length = n) :
    (∃ mapping, place nodes xs R = .ok mapping ∧ Q (mapping.flatMap Prod.snd)) ↔
      0 < n * R ∧ Q (slotNodes nodes n R) := by
  subst hxs
  have hcopies : (xs.zipIdx.map fun p => (p.1, slots nodes R (stride nodes xs.length R) p.2)).flatMap
      Prod.snd = slotNodes nodes xs.length R := by
    rw [flatMap_map, ← flatMap_slots, range_eq_range', ← zipIdx_map_snd 0 xs, flatMap_map]
  unfold place
  simp only [leaves_buildTree]
  rw [← hcopies]
  exact guarded_returns_iff (Q := fun mapping : List (ℕ × List String) => Q (mapping.flatMap Prod.snd)) hne hle

lemma disperseWithReplicas_returns_iff {p} (hne : nodes ≠ [])
    (hle : p.rsN * p.shardReplicas ≤ nodes.length) :
    (∃ out, disperseWithReplicas nodes p = .ok out ∧ Q (out.flatMap Prod.snd)) ↔
      0 < p.rsN * p.shardReplicas ∧ Q (slotNodes nodes p.rsN p.shardReplicas) := by
  have hcopies : ((range p.rsN).map fun s => (shardKey s,
      slots nodes p.shardReplicas (stride nodes p.rsN p.shardReplicas) s)).flatMap Prod.snd =
        slotNodes nodes p.rsN p.shardReplicas := by
    rw [flatMap_map, ← flatMap_slots]
  unfold disperseWithReplicas
  simp only [leaves_buildTree]
  rw [← hcopies]
  exact guarded_returns_iff (Q := fun out : List (String × List String) => Q (out.flatMap Prod.snd)) hne hle

lemma disperseShards_returns_iff {p} (hne : nodes ≠ []) (hnodup : nodes.Nodup)
    (hle : p.rsN ≤ nodes.length) :
    (∃ out, disperseShards nodes p = .ok out ∧ Q (out.map Prod.fst)) ↔
      0 < p.rsN ∧ Q (slotNodes nodes p.rsN 1) := by
  unfold disperseShards
  simp only [leaves_buildTree]
  refine (guarded_returns_iff (Q := fun out : List (String × String) => Q (out.map Prod.fst)) hne hle).trans
    (and_congr_right fun hpos => ?_)
  have hslots := nodup_slotNodes (n := p.rsN) (R := 1) hnodup (by omega) (by omega)
  have hone : p.rsN * 1 = p.rsN := Nat.mul_one _
  rw [slotNodes, stride, hone] at hslots ⊢
  rw [OrderedDict.foldl_set_of_nodup shardKey hslots, map_map]
  rfl

end

/-- The copies are in different bottom groups exactly if there is one copy, or the mesh has three nodes for
each copy, or two and at most the last bottom group has three. Without a copy their distance is a division
by zero. -/
theorem copies_spread_iff (nodes : List String) (p : Placement) (hne : nodes ≠ [])
    (hnodup : nodes.Nodup)
    (hgroups : p.rsN * p.shardReplicas ≤ (bottomGroups (buildTree nodes)).length) :
    ((∀ xs : List ℕ, xs.Nodup → xs.length = p.rsN →
        ∃ mapping, place nodes xs p.shardReplicas = .ok mapping ∧ Spread nodes (mapping.flatMap Prod.snd)) ∧
      (∃ out, disperseWithReplicas nodes p = .ok out ∧ Spread nodes (out.flatMap Prod.snd)) ∧
      (p.shardReplicas = 1 → ∃ out, disperseShards nodes p = .ok out ∧ Spread nodes (out.map Prod.fst))) ↔
    0 < p.rsN * p.shardReplicas ∧ (p.rsN * p.shardReplicas = 1 ∨
      3 * (p.rsN * p.shardReplicas) ≤ nodes.length ∨ (2 * (p.rsN * p.shardReplicas) ≤ nodes.length ∧
        ∃ k, 4 * 3 ^ k ≤ nodes.length + 1 ∧ nodes.length ≤ 6 * 3 ^ k)) := by
  have hle := hgroups.trans (length_bottomGroups_le hne)
  have hspread : 0 < p.rsN * p.shardReplicas ∧ Spread nodes (slotNodes nodes p.rsN p.shardReplicas) ↔
      0 < p.rsN * p.shardReplicas ∧ (p.rsN * p.shardReplicas = 1 ∨
        3 * (p.rsN * p.shardReplicas) ≤ nodes.length ∨
          (2 * (p.rsN * p.shardReplicas) ≤ nodes.length ∧ Paired nodes.length)) :=
    and_congr_right fun hpos =>
      (spread_slotNodes hne hnodup hpos hle).trans (spreadSlots_iff hpos hle)
  refine Iff.trans ?_ hspread
  rw [disperseWithReplicas_returns_iff hne hle]
  refine ⟨fun h => h.2.1, fun h => ⟨?_, h, fun hone => ?_⟩⟩
  · intro xs _ hxs
    exact (place_returns_iff hne hle hxs).2 h
  · rw [hone, Nat.mul_one] at hle h
    exact (disperseShards_returns_iff hne hnodup hle).2 h

lemma bottomGroups_of_split3 {nodes a b c} (hlt : 3 < nodes.length)
    (hsplit : split3 nodes = [a, b, c]) (ha : a.length ≤ 3) (hb : b.length ≤ 3) (hc : c.length ≤ 3) :
    bottomGroups (buildTree nodes) = [a, b, c] := by
  rw [buildTree_of_lt hlt, hsplit]
  refine (bottomGroups_parts a b c).trans ?_
  rw [buildTree_of_le ha, buildTree_of_le hb, buildTree_of_le hc]
  simp only [bottomGroups_backends]
  rfl

def sixNodes : List String := ["a", "b", "c", "d", "e", "f"]

lemma bottomGroups_sixNodes : bottomGroups (buildTree sixNodes) = [["a", "b"], ["c", "d"], ["e", "f"]] :=
  bottomGroups_of_split3 (by decide) (by decide) (by decide) (by decide) (by decide)

/-- Three copies on three pairs. -/
theorem sixNodes_spread :
    (∀ xs : List ℕ, xs.Nodup → xs.length = 3 → ∃ mapping, place sixNodes xs 1 = .ok mapping ∧
      Spread sixNodes (mapping.flatMap Prod.snd)) ∧
    (∃ out, disperseWithReplicas sixNodes ⟨2, 1, 1⟩ = .ok out ∧ Spread sixNodes (out.flatMap Prod.snd)) ∧
    ((1 : ℕ) = 1 → ∃ out, disperseShards sixNodes ⟨2, 1, 1⟩ = .ok out ∧
      Spread sixNodes (out.map Prod.fst)) :=
  (copies_spread_iff sixNodes ⟨2, 1, 1⟩ (cons_ne_nil _ _) (by decide)
    (by rw [bottomGroups_sixNodes]; decide)).2 ⟨by decide, .inr (.inr ⟨by decide, 0, by decide⟩)⟩

def eightNodes : List String := ["a", "b", "c", "d", "e", "f", "g", "h"]

lemma bottomGroups_eightNodes :
    bottomGroups (buildTree eightNodes) = [["a", "b", "c"], ["d", "e", "f"], ["g", "h"]] :=
  bottomGroups_of_split3 (by decide) (by decide) (by decide) (by decide) (by decide)

/-- Three copies on eight nodes with three bottom groups: two of the copies are in the first group. -/
theorem eightNodes_not_spread :
    eightNodes.Nodup ∧ (bottomGroups (buildTree eightNodes)).length = 3 ∧
    (place eightNodes [1, 2, 3] 1).toOption = some [(1, ["a"]), (2, ["c"]), (3, ["e"])] ∧
    (disperseWithReplicas eightNodes ⟨2, 1, 1⟩).toOption =
      some [("shard-0", ["a"]), ("shard-1", ["c"]), ("shard-2", ["e"])] ∧
    (disperseShards eightNodes ⟨2, 1, 1⟩).toOption =
      some [("a", "shard-0"), ("c", "shard-1"), ("e", "shard-2")] ∧
    ¬Spread eightNodes ["a", "c", "e"] := by
  unfold place disperseWithReplicas disperseShards
  rw [Spread, leaves_buildTree, bottomGroups_eightNodes]
  refine ⟨by decide, rfl, by decide, by decide +kernel, by decide +kernel, ?_⟩
  intro h
  have hpair := rel_of_pairwise_cons h (mem_cons_self ..)
  exact hpair _ (mem_cons_self ..) (by decide)

end SocioWorkspace.Holographic
