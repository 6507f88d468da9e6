import SocioWorkspace.Holographic.Topology
import Mathlib.Algebra.Order.Archimedean.Basic

/-!
# The bottom groups of the mesh

The groups of `build_tree` whose members are backends, as intervals of positions in the list of nodes. A
`Cell n s l` is such a group of `l` nodes from position `s` on in the mesh over `n` nodes. Which cells there
are depends on `n` alone, through the balanced parts.
-/

namespace SocioWorkspace.Holographic
open List

def MeshTree.id? : MeshTree → Option String
  | .backend id => some id
  | .group _ => none

mutual
/-- The groups whose members are all backends. -/
def bottomGroups : MeshTree → List (List String)
  | .backend _ => []
  | .group members =>
    match members.mapM MeshTree.id? with
    | some ids => [ids]
    | none => bottomGroupsAll members

def bottomGroupsAll : List MeshTree → List (List String)
  | [] => []
  | t :: ts => bottomGroups t ++ bottomGroupsAll ts
end

/-- The mesh over `n` nodes has a bottom group of `l` nodes from position `s` on. -/
inductive Cell : ℕ → ℕ → ℕ → Prop where
  | whole {n : ℕ} :
    1 ≤ n →
    n ≤ 3 →
    Cell n 0 n
  | first {a b c s l : ℕ} :
    Balanced a b c →
    Cell a s l →
    Cell (a + b + c) s l
  | middle {a b c s l : ℕ} :
    Balanced a b c →
    Cell b s l →
    Cell (a + b + c) (a + s) l
  | last {a b c s l : ℕ} :
    Balanced a b c →
    Cell c s l →
    Cell (a + b + c) (a + b + s) l

section
variable {nodes : List String}

lemma bottomGroups_backends (nodes : List String) : bottomGroups (.group (nodes.map .backend)) = [nodes] := by
  rw [bottomGroups, mapM_map_eq_some (f := MeshTree.id?) (g := .backend) fun _ => rfl]

lemma id?_buildTree (nodes : List String) : (buildTree nodes).id? = none := by
  rw [buildTree]
  split_ifs
  · rfl
  · rfl

lemma bottomGroups_parts (a b c : List String) :
    bottomGroups (.group [buildTree a, buildTree b, buildTree c]) =
      bottomGroups (buildTree a) ++ (bottomGroups (buildTree b) ++ bottomGroups (buildTree c)) := by
  have hnone : [buildTree a, buildTree b, buildTree c].mapM MeshTree.id? = none := by
    rw [mapM_cons, id?_buildTree]
    rfl
  rw [bottomGroups, hnone]
  show bottomGroups _ ++ (bottomGroups _ ++ (bottomGroups _ ++ [])) = _
  rw [append_nil]

lemma length_bottomGroups_le (hne : nodes ≠ []) : (bottomGroups (buildTree nodes)).length ≤ nodes.length := by
  refine buildTree_induct (P := fun nodes t => (bottomGroups t).length ≤ nodes.length) ?_ ?_ hne
  · intro nodes hne _
    rw [bottomGroups_backends]
    exact length_pos_of_ne_nil hne
  · intro a b c _ ha hb hc
    rw [bottomGroups_parts]
    simp only [length_append]
    omega

lemma Cell.inv_le {n s l} (h : Cell n s l) : 1 ≤ l ∧ l ≤ 3 ∧ s + l ≤ n := by
  induction h with
  | whole h1 h3 => omega
  | first _ _ ih => omega
  | middle _ _ ih => omega
  | last _ _ ih => omega

lemma Cell.eq_whole {n s l} (h : Cell n s l) (hn : n ≤ 3) : s = 0 ∧ l = n := by
  have hmore {a b c : ℕ} (hbal : Balanced a b c) : 3 < a + b + c := by
    obtain ⟨hpos, hlast, hmiddle, hfirst, hmany⟩ := hbal
    omega
  cases h with
  | whole => exact ⟨rfl, rfl⟩
  | first hbal _ | middle hbal _ | last hbal _ => exact absurd hn (not_le.2 (hmore hbal))

lemma take_drop_append (a b : List String) {s l} (h : s + l ≤ a.length) :
    ((a ++ b).drop s).take l = (a.drop s).take l := by
  rw [drop_append_of_le_length (by omega), take_append_of_le_length]
  rw [length_drop]
  omega

lemma take_drop_append_right (a b : List String) (s l : ℕ) :
    ((a ++ b).drop (a.length + s)).take l = (b.drop s).take l := by
  rw [← drop_drop, drop_left]

lemma cell_parts {a b c s l} (hbal : Balanced a b c) : Cell (a + b + c) s l ↔
    Cell a s l ∨ (∃ s', s = a + s' ∧ Cell b s' l) ∨ ∃ s', s = a + b + s' ∧ Cell c s' l := by
  refine ⟨fun h => ?_, fun h => ?_⟩
  · obtain ⟨hpos, hlast, hmiddle, hfirst, hmany⟩ := hbal
    generalize hn : a + b + c = n at h
    -- the sizes of balanced parts are determined by their sum
    have hsame {a' b' c' : ℕ} (hbal : Balanced a' b' c') (hn : a + b + c = a' + b' + c') :
        a' = a ∧ b' = b ∧ c' = c := by
      obtain ⟨hpos', hlast', hmiddle', hfirst', hmany'⟩ := hbal
      omega
    cases h with
    | whole h1 h3 => omega
    | first hbal h =>
      obtain ⟨rfl, rfl, rfl⟩ := hsame hbal hn
      exact .inl h
    | middle hbal h =>
      obtain ⟨rfl, rfl, rfl⟩ := hsame hbal hn
      exact .inr (.inl ⟨_, rfl, h⟩)
    | last hbal h =>
      obtain ⟨rfl, rfl, rfl⟩ := hsame hbal hn
      exact .inr (.inr ⟨_, rfl, h⟩)
  · rcases h with h | ⟨s', rfl, h⟩ | ⟨s', rfl, h⟩
    · exact .first hbal h
    · exact .middle hbal h
    · exact .last hbal h

lemma mem_bottomGroups (hne : nodes ≠ []) {g} :
    g ∈ bottomGroups (buildTree nodes) ↔
      ∃ s l, Cell nodes.length s l ∧ g = (nodes.drop s).take l := by
  refine buildTree_induct (P := fun nodes t => g ∈ bottomGroups t ↔
    ∃ s l, Cell nodes.length s l ∧ g = (nodes.drop s).take l) ?_ ?_ hne
  · intro nodes hne hle
    rw [bottomGroups_backends, mem_singleton]
    refine ⟨fun h => ?_, fun h => ?_⟩
    · refine ⟨0, nodes.length, .whole (length_pos_of_ne_nil hne) hle, ?_⟩
      rw [h, drop_zero, take_length]
    · obtain ⟨s, l, hcell, rfl⟩ := h
      obtain ⟨rfl, rfl⟩ := hcell.eq_whole hle
      rw [drop_zero, take_length]
  · intro a b c hbal ha hb hc
    rw [bottomGroups_parts, mem_append, mem_append, ha, hb, hc, length_append, length_append]
    simp only [cell_parts hbal, or_and_right, exists_or]
    refine or_congr ?_ (or_congr ?_ ?_)
    · refine exists_congr fun s => exists_congr fun l => and_congr_right fun hcell => ?_
      have hle := hcell.inv_le
      rw [append_assoc, take_drop_append a (b ++ c) hle.2.2]
    · refine ⟨fun h => ?_, fun h => ?_⟩
      · obtain ⟨s, l, hcell, rfl⟩ := h
        refine ⟨a.length + s, l, ⟨s, rfl, hcell⟩, ?_⟩
        rw [append_assoc, take_drop_append_right, take_drop_append b c hcell.inv_le.2.2]
      · obtain ⟨_, l, ⟨s, rfl, hcell⟩, rfl⟩ := h
        refine ⟨s, l, hcell, ?_⟩
        rw [append_assoc, take_drop_append_right, take_drop_append b c hcell.inv_le.2.2]
    · refine ⟨fun h => ?_, fun h => ?_⟩
      · obtain ⟨s, l, hcell, rfl⟩ := h
        refine ⟨a.length + b.length + s, l, ⟨s, rfl, hcell⟩, ?_⟩
        rw [← length_append, take_drop_append_right]
      · obtain ⟨_, l, ⟨s, rfl, hcell⟩, rfl⟩ := h
        refine ⟨s, l, hcell, ?_⟩
        rw [← length_append, take_drop_append_right]

end

lemma exists_balanced {n} (h : 3 < n) : ∃ a b c, n = a + b + c ∧ Balanced a b c :=
  ⟨(n + 2) / 3, (n + 1) / 3, n / 3, by omega, by constructor <;> omega⟩

lemma exists_first_cell {n} (h : 2 ≤ n) : ∃ l, 2 ≤ l ∧ Cell n 0 l := by
  induction n using Nat.strong_induction_on with
  | _ n ih =>
    by_cases hle : n ≤ 3
    · exact ⟨n, h, .whole (by omega) hle⟩
    · obtain ⟨a, b, c, rfl, hbal⟩ := exists_balanced (not_le.1 hle)
      have hpos := hbal.pos
      obtain ⟨l, hl, hcell⟩ := ih a (by omega) hbal.many
      exact ⟨l, hl, .first hbal hcell⟩

variable {n k : ℕ}

/-- In the upper third between two powers of three the first cell has three nodes. -/
lemma cell_zero_three (hlt : 6 * 3 ^ k < n) (hle : n ≤ 9 * 3 ^ k) : Cell n 0 3 := by
  induction k generalizing n with
  | zero =>
    obtain ⟨a, b, c, rfl, hbal⟩ := exists_balanced (n := n) (by omega)
    obtain ⟨hpos, hlast, hmiddle, hfirst, hmany⟩ := id hbal
    obtain rfl : a = 3 := by omega
    exact .first hbal (.whole (by omega) le_rfl)
  | succ k ih =>
    rw [pow_succ] at hlt hle
    obtain ⟨a, b, c, rfl, hbal⟩ := exists_balanced (n := n) (by omega)
    obtain ⟨hpos, hlast, hmiddle, hfirst, hmany⟩ := id hbal
    exact .first hbal (ih (by omega) (by omega))

/-- One node before four thirds of a power of three, the last cell has three nodes. -/
lemma cell_last_three (h : n + 1 = 4 * 3 ^ k) : Cell n (n - 3) 3 := by
  induction k generalizing n with
  | zero =>
    obtain rfl : n = 3 := by omega
    exact .whole (by omega) le_rfl
  | succ k ih =>
    rw [pow_succ] at h
    have hk : 1 ≤ 3 ^ k := Nat.one_le_pow k 3 (by omega)
    obtain ⟨a, b, c, rfl, hbal⟩ := exists_balanced (n := n) (by omega)
    obtain ⟨hpos, hlast, hmiddle, hfirst, hmany⟩ := id hbal
    have hcell := Cell.last hbal (ih (n := c) (by omega))
    have hstart : a + b + c - 3 = a + b + (c - 3) := by omega
    rwa [hstart]

/-- Below that, a cell of three nodes starts at an even position in the first two thirds. -/
lemma exists_cell_three (hlt : 3 ^ (k + 1) < n) (hle : n + 2 ≤ 4 * 3 ^ k) :
    ∃ i, Cell n (2 * i) 3 ∧ 3 * (2 * i) + 6 ≤ 2 * n := by
  induction k generalizing n with
  | zero => omega
  | succ k ih =>
    have hk : 1 ≤ 3 ^ k := Nat.one_le_pow k 3 (by omega)
    rw [pow_succ, pow_succ] at hlt
    rw [pow_succ] at hle
    obtain ⟨a, b, c, rfl, hbal⟩ := exists_balanced (n := n) (by omega)
    obtain ⟨hpos, hlast, hmiddle, hfirst, hmany⟩ := id hbal
    rcases Nat.lt_trichotomy (a + 1) (4 * 3 ^ k) with hsmall | heq | hbig
    · obtain ⟨i, hcell, hi⟩ := ih (n := a) (by rw [pow_succ]; omega) (by omega)
      exact ⟨i, .first hbal hcell, by omega⟩
    · -- the first part ends with a cell of three
      refine ⟨(a - 3) / 2, ?_, by omega⟩
      have hstart : 2 * ((a - 3) / 2) = a - 3 := by omega
      rw [hstart]
      exact .first hbal (cell_last_three heq)
    · -- the second part does
      refine ⟨(a + b - 3) / 2, ?_, by omega⟩
      have hstart : 2 * ((a + b - 3) / 2) = a + (b - 3) := by omega
      rw [hstart]
      exact .middle hbal (cell_last_three (k := k) (by omega))

/-- From there up to the double of a power of three, at most the last cell has three nodes. -/
lemma cell_three {n k s} (hlow : 4 * 3 ^ k ≤ n + 1) (hhigh : n ≤ 6 * 3 ^ k) (h : Cell n s 3) : s + 3 = n := by
  -- a cell of three in a part is at the end of the last part, with all parts as small as they may be
  suffices hend : n + 1 = 4 * 3 ^ k ∧ s + 3 = n from hend.2
  induction k generalizing n s with
  | zero =>
    cases h with
    | whole h1 h3 => exact ⟨rfl, rfl⟩
    | first hbal h | middle hbal h | last hbal h =>
      obtain ⟨hpos, hlast, hmiddle, hfirst, hmany⟩ := hbal
      have hle := h.inv_le
      omega
  | succ k ih =>
    have hk : 1 ≤ 3 ^ k := Nat.one_le_pow k 3 (by omega)
    rw [pow_succ] at hlow hhigh ⊢
    cases h with
    | whole h1 h3 => omega
    | first hbal h | middle hbal h | last hbal h =>
      obtain ⟨hpos, hlast, hmiddle, hfirst, hmany⟩ := hbal
      have hend := ih (by omega) (by omega) h
      omega

end SocioWorkspace.Holographic
