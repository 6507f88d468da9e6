import SocioWorkspace.Holographic.Quorum

/-!
# The shape of the mesh

What `build_tree` of `automation/mesh_topology.py` makes of some nodes: a group of backends for up to
three, and otherwise a group of three trees over parts whose sizes differ by at most one, the larger ones
first. `buildTree_induct` is the rule by which everything about the mesh is proved.
-/

namespace SocioWorkspace.Holographic
open List MeshTree

/-- The sizes of three parts of more than three nodes, the larger ones first. -/
structure Balanced (a b c : ℕ) : Prop where
  pos : 1 ≤ c
  last : c ≤ b
  middle : b ≤ a
  first : a ≤ c + 1
  many : 2 ≤ a

variable {nodes : List String}

lemma splitSizes_eq (n : ℕ) : splitSizes n = [(n + 2) / 3, (n + 1) / 3, n / 3] := by
  have hsize (i : ℕ) (hi : i < 3) : (n / 3 + if i < n % 3 then 1 else 0) = (n + 2 - i) / 3 := by
    split_ifs <;> omega
  show [n / 3 + (if 0 < n % 3 then 1 else 0), n / 3 + (if 1 < n % 3 then 1 else 0),
    n / 3 + (if 2 < n % 3 then 1 else 0)] = _
  rw [hsize 0 (by omega), hsize 1 (by omega), hsize 2 (by omega)]
  rfl

lemma exists_split3 (h : 3 < nodes.length) : ∃ a b c, split3 nodes = [a, b, c] ∧ nodes = a ++ b ++ c ∧
    Balanced a.length b.length c.length := by
  have hflat := flatten_split3 nodes
  rw [split3, splitSizes_eq, splitAt, if_neg (by omega), splitAt, if_neg (by omega), splitAt,
    if_neg (by omega), splitAt] at hflat ⊢
  refine ⟨_, _, _, rfl, ?_, ?_⟩
  · simpa only [flatten_cons, flatten_nil, append_nil, append_assoc] using hflat.symm
  · constructor <;> simp only [length_take, length_drop] <;> omega

lemma buildTree_of_le (h : nodes.length ≤ 3) : buildTree nodes = .group (nodes.map .backend) := by
  rw [buildTree, if_pos h]

lemma buildTree_of_lt (h : 3 < nodes.length) : buildTree nodes = .group ((split3 nodes).map buildTree) := by
  rw [buildTree, if_neg (not_le.2 h), attach_map_val]

/-- Induction over the mesh: up to three backends, or three trees over balanced parts. -/
theorem buildTree_induct {P : List String → MeshTree → Prop}
    (backends : ∀ nodes : List String, nodes ≠ [] → nodes.length ≤ 3 → P nodes (.group (nodes.map .backend)))
    (parts : ∀ a b c : List String, Balanced a.length b.length c.length →
      P a (buildTree a) → P b (buildTree b) → P c (buildTree c) →
      P (a ++ b ++ c) (.group [buildTree a, buildTree b, buildTree c]))
    (hne : nodes ≠ []) : P nodes (buildTree nodes) := by
  induction hn : nodes.length using Nat.strong_induction_on generalizing nodes with
  | _ n ih =>
    by_cases h : nodes.length ≤ 3
    · rw [buildTree_of_le h]
      exact backends nodes hne h
    · obtain ⟨a, b, c, hsplit, happend, hbal⟩ := exists_split3 (not_le.1 h)
      rw [buildTree_of_lt (not_le.1 h), hsplit]
      obtain ⟨hpos, hlast, hmiddle, hfirst, hmany⟩ := hbal
      have hsum : a.length + b.length + c.length = n := by
        rw [← hn, happend, length_append, length_append]
      have hpart (part : List String) (hpart : 1 ≤ part.length) (hlt : part.length < n) :
          P part (buildTree part) :=
        ih part.length hlt (ne_nil_of_length_pos hpart) rfl
      rw [happend]
      refine parts a b c ⟨hpos, hlast, hmiddle, hfirst, hmany⟩ ?_ ?_ ?_
      · exact hpart a (by omega) (by omega)
      · exact hpart b (by omega) (by omega)
      · exact hpart c (by omega) (by omega)

mutual
/-- Python `depth`. The `max` of an empty group would raise. -/
def MeshTree.depth : MeshTree → ℕ
  | .backend _ => 0
  | .group members => 1 + depthAll members

def MeshTree.depthAll : List MeshTree → ℕ
  | [] => 0
  | t :: ts => max t.depth (depthAll ts)
end

/-- Every internal node has between one and three children. -/
inductive MeshTree.Ternary : MeshTree → Prop where
  | backend id : Ternary (.backend id)
  | group {members : List MeshTree} : 1 ≤ members.length → members.length ≤ 3 →
    (∀ t ∈ members, Ternary t) → Ternary (.group members)

lemma depthAll_backends (ids : List String) : depthAll (ids.map .backend) = 0 := by
  induction ids with
  | nil => rfl
  | cons id ids ih => rw [map_cons, depthAll, ih, depth, max_self]

/-- The least depth that has room for three parts is one more than that for the largest. -/
lemma isLeast_depth_parts {a b c da db dc : ℕ} (h : Balanced a b c)
    (ha : IsLeast {d | 1 ≤ d ∧ a ≤ 3 ^ d} da) (hb : IsLeast {d | 1 ≤ d ∧ b ≤ 3 ^ d} db)
    (hc : IsLeast {d | 1 ≤ d ∧ c ≤ 3 ^ d} dc) :
    IsLeast {d | 1 ≤ d ∧ a + b + c ≤ 3 ^ d} (1 + max da (max db (max dc 0))) := by
  obtain ⟨hpos, hlast, hmiddle, hfirst, hmany⟩ := h
  obtain ⟨⟨hda, hroom⟩, hleast⟩ := ha
  have hdb : db ≤ da := hb.2 ⟨hda, hmiddle.trans hroom⟩
  have hdc : dc ≤ da := hc.2 ⟨hda, (hlast.trans hmiddle).trans hroom⟩
  rw [max_eq_left (by omega), Nat.add_comm 1]
  refine ⟨⟨by omega, ?_⟩, ?_⟩
  · rw [pow_succ]
    omega
  · rintro d ⟨hd, hsum⟩
    obtain ⟨e, rfl⟩ := Nat.exists_eq_add_of_le' hd
    rw [pow_succ] at hsum
    have he : 1 ≤ e := by
      by_contra h0
      obtain rfl : e = 0 := by omega
      omega
    have hle : da ≤ e := hleast ⟨he, by omega⟩
    omega

/-- Python `build_tree`: the leaves are the nodes in their order, every group has at most three members, and the
depth is the least that three-way splits allow. -/
theorem buildTree_shape (node : String) (rest : List String) :
    (buildTree (node :: rest)).leaves = node :: rest ∧ (buildTree (node :: rest)).Ternary ∧
      IsLeast {d | 1 ≤ d ∧ (node :: rest).length ≤ 3 ^ d} (buildTree (node :: rest)).depth := by
  refine ⟨leaves_buildTree _, buildTree_induct (P := fun nodes t =>
    t.Ternary ∧ IsLeast {d | 1 ≤ d ∧ nodes.length ≤ 3 ^ d} t.depth) ?_ ?_ (cons_ne_nil node rest)⟩
  · intro nodes hne hlen
    refine ⟨.group ?_ ?_ fun t ht => ?_, ?_⟩
    · rw [length_map]
      exact length_pos_of_ne_nil hne
    · rwa [length_map]
    · obtain ⟨id, -, rfl⟩ := mem_map.1 ht
      exact .backend id
    · rw [depth, depthAll_backends]
      exact ⟨⟨le_rfl, hlen⟩, fun d hd => hd.1⟩
  · rintro a b c hbal ⟨hta, ha⟩ ⟨htb, hb⟩ ⟨htc, hc⟩
    refine ⟨.group (Nat.succ_pos 2) le_rfl ?_, ?_⟩
    · simp [hta, htb, htc]
    · simp only [length_append]
      exact isLeast_depth_parts hbal ha hb hc

end SocioWorkspace.Holographic
