import SocioWorkspace.Holographic.Propagation

/-!
# Reading after a seizure of nodes

`propagate` over a store that gives back what was put into it, and `fetch` from what is left when
some nodes are gone. The slots of all copies are distinct, so a fragment is lost only with all its
replicas, and `k` fragments survive the loss of fewer than `(m + 1) * R` nodes.
-/

namespace SocioWorkspace.Holographic
open SocioWorkspace.Lists List Nat

lemma lookup_slot {α : Type} (l : List ((String × String) × α)) (node key : String) (a : α)
    (node' key' : String) : (((node, key), a) :: l).lookup (node', key') =
      if node' = node ∧ key' = key then some a else l.lookup (node', key') := by
  by_cases h : node' = node ∧ key' = key
  · obtain ⟨rfl, rfl⟩ := h
    simp
  · have hne : ((node', key') == (node, key)) = false := by
      simpa using h
    simp only [lookup_cons, hne, h, if_false]

structure HonestStore (σ : Type) where
  put : σ → String → String → Bytes → σ
  get : σ → String → String → Answer
  get_put : ∀ s node key b node' key', get (put s node key b) node' key' =
    if node' = node ∧ key' = key then .bytes b else get s node' key'

def inMemoryStore : HonestStore (List ((String × String) × Bytes)) where
  put store node frag data := ((node, frag), data) :: store
  get store node frag :=
    match store.lookup (node, frag) with
    | some b => .bytes b
    | none => .nothing
  get_put s node key b node' key' := by
    rw [lookup_slot]
    split_ifs <;> rfl

lemma fragKey_inj {root x y} (h : fragKey root x = fragKey root y) : x = y := by
  have hchars := congrArg String.toList h
  simp only [fragKey, String.toList_append, append_cancel_left_eq] at hchars
  exact toDigits_inj (by simpa [toString, Nat.repr] using hchars)

/-- The last `#` of a key ends the root. -/
lemma fragKey_root {root root' x y} (h : fragKey root x = fragKey root' y) : root = root' := by
  have hhash : ∀ n : ℕ, '#' ∉ (toString n).toList := by
    intro n hmem
    have hdigit : '#'.isDigit = true := by
      apply digits_isDigit (n := n)
      simpa [toString, Nat.repr] using hmem
    cases hdigit
  have hchars := congrArg String.toList h
  simp only [fragKey, String.toList_append, append_assoc] at hchars
  have hne : ∀ {a b c d : List Char}, '#' ∉ c → a ++ ('#' :: c) = b ++ ('#' :: d) →
      ∃ e, a = b ++ e := by
    intro a b c d hc he
    obtain ⟨e, he⟩ | ⟨e, rfl, he⟩ := append_eq_append_iff.1 he
    · cases e with
      | nil => exact ⟨[], by simpa using he.1.symm⟩
      | cons z e =>
        obtain ⟨-, rfl⟩ := List.cons.inj he.2
        exact absurd (mem_append_right e (mem_cons_self ..)) hc
    · exact ⟨e, rfl⟩
  obtain ⟨e, he⟩ := hne (hhash x) hchars
  obtain ⟨e', he'⟩ := hne (hhash y) hchars.symm
  have hnil : e' ++ e = [] := by
    rw [he'] at he
    have hlen := congrArg List.length he
    simp only [length_append] at hlen
    exact length_eq_zero_iff.1 (by rw [length_append]; omega)
  rw [(append_eq_nil_iff.1 hnil).2, append_nil] at he
  exact String.toList_inj.1 he

lemma get_puts {σ : Type} (store : HonestStore σ) {root} {value : ℕ → Bytes}
    {ops : List (String × ℕ × Bytes)} (hvalue : ∀ c ∈ ops, c.2.2 = value c.2.1) {node : String}
    {x : ℕ} {b : Bytes} (hmem : (node, x, b) ∈ ops) (s : σ) :
    store.get (ops.foldl (fun s c => store.put s c.1 (fragKey root c.2.1) c.2.2) s) node
      (fragKey root x) = .bytes (value x) := by
  induction ops using List.reverseRecOn with
  | nil => cases hmem
  | append_singleton ops c ih =>
    rw [foldl_append, foldl_cons, foldl_nil, store.get_put]
    by_cases h : node = c.1 ∧ fragKey root x = fragKey root c.2.1
    · rw [if_pos h, hvalue c (by simp), fragKey_inj h.2]
    · rw [if_neg h]
      apply ih fun c' hc => hvalue c' (mem_append_left _ hc)
      cases mem_append.1 hmem with
      | inl hmem => exact hmem
      | inr hlast =>
        obtain rfl := mem_singleton.1 hlast
        exact absurd ⟨rfl, rfl⟩ h

def stride (nodes : List String) (n R : ℕ) : ℕ := max 1 (nodes.length / (n * R))

def lost (nodes : List String) (n R : ℕ) (S : Finset String) : Finset ℕ :=
  (Finset.range n).filter fun i => ∀ node ∈ slots nodes R (stride nodes n R) i, node ∈ S

section
variable {nodes : List String} {n R : ℕ}

lemma slot_lt {i r} (hi : i < n) (hr : r < R) : i * R + r < n * R :=
  calc i * R + r < i * R + R := Nat.add_lt_add_left hr _
    _ = (i + 1) * R := (succ_mul i R).symm
    _ ≤ n * R := Nat.mul_le_mul_right R hi

lemma slot_inj {i r i' r'} (hr : r < R) (hr' : r' < R) (h : i * R + r = i' * R + r') : i = i' ∧ r = r' := by
  have hpos : 0 < R := lt_of_le_of_lt (Nat.zero_le _) hr
  have hself : ∀ i r, r < R → (i * R + r) / R = i ∧ (i * R + r) % R = r := by
    intro i r hr
    refine (Nat.div_mod_unique hpos).2 ⟨?_, hr⟩
    rw [Nat.mul_comm, Nat.add_comm]
  obtain ⟨hdiv, hmod⟩ := hself i r hr
  obtain ⟨hdiv', hmod'⟩ := hself i' r' hr'
  rw [h] at hdiv hmod
  exact ⟨hdiv.symm.trans hdiv', hmod.symm.trans hmod'⟩

lemma lost_subset (S : Finset String) : lost nodes n R S ⊆ Finset.range n := Finset.filter_subset _ _

variable (hpos : 0 < n * R) (hle : n * R ≤ nodes.length)
include hpos hle

lemma mul_stride_lt {j} (hj : j < n * R) : j * stride nodes n R < nodes.length := by
  have hstride : stride nodes n R = nodes.length / (n * R) := max_eq_right (Nat.div_pos hle hpos)
  rw [hstride]
  calc j * (nodes.length / (n * R))
      < n * R * (nodes.length / (n * R)) := Nat.mul_lt_mul_of_pos_right hj (Nat.div_pos hle hpos)
    _ ≤ nodes.length := mul_div_le _ _

lemma slots_subset {i node} (h : node ∈ slots nodes R (stride nodes n R) i) : node ∈ nodes := by
  obtain ⟨r, -, rfl⟩ := mem_map.1 h
  have hlt : ((i * R + r) * stride nodes n R) % nodes.length < nodes.length :=
    mod_lt _ (lt_of_lt_of_le hpos hle)
  rw [getD_eq_getElem _ _ hlt]
  exact getElem_mem hlt

variable (hnodes : nodes.Nodup)
include hnodes

lemma slotNode_inj {j j'} (hj : j < n * R) (hj' : j' < n * R)
    (h : nodes.getD ((j * stride nodes n R) % nodes.length) "" =
      nodes.getD ((j' * stride nodes n R) % nodes.length) "") : j = j' := by
  have hlt := mul_stride_lt hpos hle hj
  have hlt' := mul_stride_lt hpos hle hj'
  rw [mod_eq_of_lt hlt, mod_eq_of_lt hlt', getD_eq_getElem _ _ hlt,
    getD_eq_getElem _ _ hlt', hnodes.getElem_inj_iff] at h
  exact eq_of_mul_eq_mul_right (lt_of_lt_of_le Nat.one_pos (Nat.le_max_left 1 _)) h

lemma slots_disjoint {i i'} (hi : i < n) (hi' : i' < n) {node}
    (h : node ∈ slots nodes R (stride nodes n R) i)
    (h' : node ∈ slots nodes R (stride nodes n R) i') : i = i' := by
  obtain ⟨r, hr, rfl⟩ := mem_map.1 h
  obtain ⟨r', hr', he⟩ := mem_map.1 h'
  rw [mem_range] at hr hr'
  exact (slot_inj hr hr' (slotNode_inj hpos hle hnodes (slot_lt hi hr) (slot_lt hi' hr') he.symm)).1

lemma card_slots {i} (hi : i < n) : (slots nodes R (stride nodes n R) i).toFinset.card = R := by
  rw [toFinset_card_of_nodup, slots, length_map, length_range]
  refine List.nodup_range.map_on fun r hr r' hr' he => ?_
  rw [mem_range] at hr hr'
  exact (slot_inj hr hr' (slotNode_inj hpos hle hnodes (slot_lt hi hr) (slot_lt hi hr') he)).2

lemma lost_mul_le (S : Finset String) : (lost nodes n R S).card * R ≤ S.card := by
  have hmem : ∀ i ∈ lost nodes n R S, i < n := by
    intro i hi
    exact Finset.mem_range.1 (lost_subset S hi)
  have hdisjoint : (lost nodes n R S : Set ℕ).PairwiseDisjoint
      fun i => (slots nodes R (stride nodes n R) i).toFinset := by
    intro i hi i' hi' hne
    refine Finset.disjoint_left.2 fun node hnode hnode' => hne ?_
    rw [mem_toFinset] at hnode hnode'
    exact slots_disjoint hpos hle hnodes (hmem i hi) (hmem i' hi') hnode hnode'
  calc (lost nodes n R S).card * R
      = ∑ i ∈ lost nodes n R S, (slots nodes R (stride nodes n R) i).toFinset.card := by
        rw [Finset.sum_congr rfl fun i hi => card_slots hpos hle hnodes (hmem i hi),
          Finset.sum_const, smul_eq_mul]
    _ = ((lost nodes n R S).biUnion fun i => (slots nodes R (stride nodes n R) i).toFinset).card :=
        (Finset.card_biUnion hdisjoint).symm
    _ ≤ S.card := by
        refine Finset.card_le_card fun node hnode => ?_
        obtain ⟨i, hi, hslot⟩ := Finset.mem_biUnion.1 hnode
        exact (Finset.mem_filter.1 hi).2 node (mem_toFinset.1 hslot)

/-- Fewer than `(m + 1) * R` nodes are too few to lose more than `m` fragments. -/
lemma card_lost_le {S m} (hS : S.card ≤ (m + 1) * R - 1) : (lost nodes n R S).card ≤ m := by
  have hlost := lost_mul_le hpos hle hnodes S
  have hbound : 0 < (m + 1) * R := Nat.mul_pos (succ_pos m) (Nat.pos_of_mul_pos_left hpos)
  refine Nat.lt_add_one_iff.1 (Nat.lt_of_mul_lt_mul_right (a := R) ?_)
  omega

end

section
variable {sha256Hex : Bytes → String} {leaf : Bytes} {nodes : List String} {placement : Placement}
  {tier : String} {get : String → String → Answer} {reachable : Option (List String)}

lemma mem_assigned {n R x ns} :
    (x, ns) ∈ assigned nodes n R ↔ ∃ i < n, x = i + 1 ∧ ns = slots nodes R (stride nodes n R) i := by
  simp [assigned, stride, eq_comm]

lemma fetch_of_true (hk : 1 ≤ placement.rsK) (hn : placement.rsN ≤ 255)
    (htrue : ∀ p ∈ gather get reachable (manifestOf sha256Hex leaf nodes placement tier),
      p.2 = fragment leaf placement.rsK p.1) (hcount : placement.rsK ≤
      (gather get reachable (manifestOf sha256Hex leaf nodes placement tier)).length) :
    fetch sha256Hex get reachable MAX_ATTEMPTS (manifestOf sha256Hex leaf nodes placement tier) =
      .ok leaf := by
  have hnodup := @nodup_gather sha256Hex leaf nodes placement tier get reachable
  have hle := @le_of_mem_gather sha256Hex leaf nodes placement tier get reachable hn
  generalize havail : gather get reachable (manifestOf sha256Hex leaf nodes placement tier) = avail
    at htrue hcount hnodup hle
  have hperm : (answering avail).Perm (avail.map (·.1)) := perm_insertionSort _ _
  rw [fetch_eq_ok, havail]
  refine ⟨0, (answering avail).take placement.rsK, by decide, ?_, ?_, rfl, by simp⟩
  · apply head_combinations
    rwa [length_answering]
  · apply decode_eq hk rfl ((hperm.nodup_iff.2 hnodup).sublist (take_sublist _ _))
    · rw [length_take, length_answering]
      exact Nat.min_eq_left hcount
    · intro x hx
      have hx' := hperm.subset (mem_of_mem_take hx)
      obtain ⟨p, hp, rfl⟩ := mem_map.1 hx'
      exact ⟨hle hx', (SortedMap.lookup_eq_some hnodup).2 (htrue p hp ▸ hp)⟩

lemma get_written {σ : Type} (store : HonestStore σ) {s} {x : ℕ} {ns : List String}
    {node : String} (hx : (x, ns) ∈ assigned nodes placement.rsN placement.shardReplicas)
    (hnode : node ∈ ns) :
    store.get ((copiesOf leaf nodes placement).foldl (fun s c =>
      store.put s c.1 (fragKey (merkleRoot sha256Hex leaf) c.2.1) c.2.2) s) node
      (fragKey (merkleRoot sha256Hex leaf) x) = .bytes (fragment leaf placement.rsK x) := by
  refine get_puts store (b := fragment leaf placement.rsK x) (fun c hc => ?_) ?_ s
  · obtain ⟨p, -, hc⟩ := mem_flatMap.1 hc
    obtain ⟨node, -, rfl⟩ := mem_map.1 hc
    rfl
  · exact mem_flatMap.2 ⟨(x, ns), hx, mem_map.2 ⟨node, hnode, rfl⟩⟩

lemma length_gather {S}
    (hkept : ∀ i < placement.rsN, i ∉ lost nodes placement.rsN placement.shardReplicas S →
      ∃ b, (i + 1, b) ∈ gather get reachable (manifestOf sha256Hex leaf nodes placement tier)) :
    placement.rsN - (lost nodes placement.rsN placement.shardReplicas S).card ≤
      (gather get reachable (manifestOf sha256Hex leaf nodes placement tier)).length := by
  have hsub : ((Finset.range placement.rsN \ lost nodes placement.rsN placement.shardReplicas
      S).image (· + 1)) ⊆ ((gather get reachable
        (manifestOf sha256Hex leaf nodes placement tier)).map (·.1)).toFinset := by
    intro x hx
    obtain ⟨i, hi, rfl⟩ := Finset.mem_image.1 hx
    obtain ⟨hin, hnot⟩ := Finset.mem_sdiff.1 hi
    obtain ⟨b, hb⟩ := hkept i (Finset.mem_range.1 hin) hnot
    exact mem_toFinset.2 (mem_map.2 ⟨_, hb, rfl⟩)
  have hcard := Finset.card_le_card hsub
  rwa [Finset.card_image_of_injective _ (add_left_injective 1),
    Finset.card_sdiff_of_subset (lost_subset S), Finset.card_range,
    toFinset_card_of_nodup nodup_gather, length_map] at hcard

/-- After the loss of fewer than `(m + 1) * R` nodes a fetch still returns the leaf. -/
theorem fetch_after_seizure {σ : Type} (store : HonestStore σ) {s s' : σ}
    {manifest : PropagationManifest} (hnodes : nodes.Nodup)
    (h : propagate sha256Hex store.put leaf nodes placement tier s = .ok (manifest, s'))
    {S : Finset String} (hS : S.card ≤ (placement.rsM + 1) * placement.shardReplicas - 1) :
    fetch sha256Hex (store.get s') (some (nodes.filter (· ∉ S))) MAX_ATTEMPTS manifest =
      .ok leaf := by
  obtain ⟨⟨⟨hk, hn⟩, hpos, hle⟩, rfl, rfl⟩ := propagate_eq_ok.1 h
  apply fetch_of_true hk hn
  · intro p hp
    obtain ⟨ns, hns, hcopy⟩ := mem_gather.1 hp
    obtain ⟨node, hnode, -, hget⟩ := exists_of_firstCopy hcopy
    exact Answer.bytes.inj (hget.symm.trans (get_written store hns hnode))
  · have hfew := card_lost_le hpos hle hnodes hS
    refine le_trans (le_sub_of_add_le (Nat.add_le_add_left hfew _)) (length_gather ?_)
    intro i hi hnot
    obtain ⟨node, hnode, hout⟩ : ∃ node ∈ slots nodes placement.shardReplicas
        (stride nodes placement.rsN placement.shardReplicas) i, node ∉ S := by
      by_contra hall
      push Not at hall
      exact hnot (Finset.mem_filter.2 ⟨Finset.mem_range.2 hi, hall⟩)
    have hns : (i + 1, slots nodes placement.shardReplicas
        (stride nodes placement.rsN placement.shardReplicas) i) ∈
        assigned nodes placement.rsN placement.shardReplicas := mem_assigned.2 ⟨i, hi, rfl, rfl⟩
    have hasks : Asks (some (nodes.filter (· ∉ S))) node := by
      rintro r hr
      obtain rfl := Option.some.inj hr
      exact mem_filter.2 ⟨slots_subset hpos hle hnode, by simpa using hout⟩
    obtain ⟨b, hb⟩ := firstCopy_ne_none hnode hasks (get_written store hns hnode)
    exact ⟨b, mem_gather.2 ⟨_, hns, hb⟩⟩

/-- Three fragments in two copies each, two of which are needed: both copies of the first one are lost, and one
of the second. -/
theorem fetch_after_seizure_eight : ∃ manifest s',
    propagate sha256HexDigest inMemoryStore.put [⟨0x61⟩, ⟨0x62⟩, ⟨0x63⟩] ["a", "b", "c", "d", "e", "f", "g", "h"]
      ⟨2, 1, 2⟩ "runtime" [] = .ok (manifest, s') ∧
    fetch sha256HexDigest (inMemoryStore.get s')
      (some (["a", "b", "c", "d", "e", "f", "g", "h"].filter (· ∉ ({"a", "b", "d"} : Finset String))))
      MAX_ATTEMPTS manifest = .ok [⟨0x61⟩, ⟨0x62⟩, ⟨0x63⟩] := by
  refine ⟨_, _, propagate_eq_ok.2 ⟨by decide, rfl, rfl⟩, ?_⟩
  exact fetch_after_seizure inMemoryStore (by decide) (propagate_eq_ok.2 ⟨by decide, rfl, rfl⟩) (by decide)

end

end SocioWorkspace.Holographic
