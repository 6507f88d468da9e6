import SocioWorkspace.Holographic.Byzantine
import SocioWorkspace.Holographic.Seizure

/-!
# Writing a leaf again

A sequence of `propagate` calls over one store. A fragment key names the root of the leaf and the
index of the fragment, but not `k`, so a leaf that is written again with another `k` overwrites
fragments that an earlier manifest counts on.

`propagateAll_eq` says what the store holds after all the writes, by induction over them, and
`propagated_readable_iff` of which manifests the fragments left still decode.
-/

namespace SocioWorkspace.Holographic
open List

structure Write where
  leaf : Bytes
  placement : Placement
  tier : String

def Accepted (nodes : List String) (placement : Placement) : Prop :=
  (1 ≤ placement.rsK ∧ placement.rsN ≤ 255) ∧
    0 < placement.rsN * placement.shardReplicas ∧
    placement.rsN * placement.shardReplicas ≤ nodes.length

instance (nodes : List String) (placement : Placement) : Decidable (Accepted nodes placement) :=
  inferInstanceAs (Decidable (_ ∧ _))

/-- Calls of `propagate` in turn: the manifests they return, and the store. A call that raises puts
nothing. -/
def propagateAll {σ : Type} (sha256Hex : Bytes → String) (put : σ → String → String → Bytes → σ)
    (nodes : List String) : List Write → σ → List (Write × PropagationManifest) × σ
  | [], s => ([], s)
  | w :: writes, s =>
    match propagate sha256Hex put w.leaf nodes w.placement w.tier s with
    | .error _ => propagateAll sha256Hex put nodes writes s
    | .ok (manifest, s') =>
      let later := propagateAll sha256Hex put nodes writes s'
      ((w, manifest) :: later.1, later.2)

def Holds (nodes : List String) (placement : Placement) (node : String) (x : ℕ) : Prop :=
  ∃ p ∈ assigned nodes placement.rsN placement.shardReplicas, p.1 = x ∧ node ∈ p.2

instance (nodes : List String) (placement : Placement) (node : String) (x : ℕ) :
    Decidable (Holds nodes placement node x) :=
  inferInstanceAs (Decidable (∃ p ∈ _, _))

/-- A write of a leaf that puts a fragment of it on a node. -/
def Touches (nodes : List String) (leaf : Bytes) (node : String) (x : ℕ) (w : Write) : Prop :=
  w.leaf = leaf ∧ Holds nodes w.placement node x

instance (nodes : List String) (leaf : Bytes) (node : String) (x : ℕ) (w : Write) :
    Decidable (Touches nodes leaf node x w) :=
  inferInstanceAs (Decidable (_ ∧ _))

def lastK (nodes : List String) (writes : List Write) (leaf : Bytes) (node : String) (x : ℕ) :
    Option ℕ :=
  (writes.reverse.find? fun w => Touches nodes leaf node x w).map fun w => w.placement.rsK

def kept (nodes : List String) (writes : List Write) (w : Write) : List (ℕ × Bytes) :=
  (assigned nodes w.placement.rsN w.placement.shardReplicas).map fun p =>
    (p.1, fragment w.leaf
      ((lastK nodes writes w.leaf (p.2.headD "") p.1).getD w.placement.rsK) p.1)

section
variable {nodes : List String} {writes : List Write} {leaf : Bytes} {node : String} {x : ℕ}

lemma lastK_append (w : Write) : lastK nodes (writes ++ [w]) leaf node x =
    if Touches nodes leaf node x w then some w.placement.rsK
    else lastK nodes writes leaf node x := by
  rw [lastK, reverse_append, reverse_singleton, singleton_append, find?_cons]
  by_cases h : Touches nodes leaf node x w
  · simp [h]
  · simp [h, lastK]

lemma exists_of_lastK {k} (h : lastK nodes writes leaf node x = some k) :
    ∃ w ∈ writes, w.leaf = leaf ∧ w.placement.rsK = k := by
  obtain ⟨w, hw, hk⟩ := Option.map_eq_some_iff.1 h
  refine ⟨w, mem_reverse.1 (mem_of_find?_eq_some hw), ?_, hk⟩
  have htouch : Touches nodes leaf node x w := by simpa using find?_some hw
  exact htouch.1

lemma lastK_ne_none {w} (hw : w ∈ writes) (h : Touches nodes leaf node x w) :
    ∃ k, lastK nodes writes leaf node x = some k := by
  cases hlast : lastK nodes writes leaf node x with
  | some k => exact ⟨k, rfl⟩
  | none =>
    have hnone := find?_eq_none.1 (Option.map_eq_none_iff.1 hlast) w (mem_reverse.2 hw)
    exact absurd (decide_eq_true h) hnone

end

section
variable {σ : Type} (sha256Hex : Bytes → String) (store : HonestStore σ) (nodes : List String)

def writeLeaf (s : σ) (w : Write) : σ :=
  (copiesOf w.leaf nodes w.placement).foldl
    (fun s c => store.put s c.1 (fragKey (merkleRoot sha256Hex w.leaf) c.2.1) c.2.2) s

lemma propagateAll_eq (writes : List Write) (s : σ) :
    propagateAll sha256Hex store.put nodes writes s =
      ((writes.filter fun w => Accepted nodes w.placement).map fun w =>
          (w, manifestOf sha256Hex w.leaf nodes w.placement w.tier),
        (writes.filter fun w => Accepted nodes w.placement).foldl
          (writeLeaf sha256Hex store nodes) s) := by
  induction writes generalizing s with
  | nil => rfl
  | cons w writes ih =>
    rw [propagateAll]
    by_cases hw : Accepted nodes w.placement
    · have hok : propagate sha256Hex store.put w.leaf nodes w.placement w.tier s = .ok (_, _) :=
        propagate_eq_ok.2 ⟨hw, rfl, rfl⟩
      rw [filter_cons_of_pos (by simpa using hw), hok]
      simp only [ih, map_cons, foldl_cons]
      rfl
    · rw [filter_cons_of_neg (by simpa using hw)]
      cases h : propagate sha256Hex store.put w.leaf nodes w.placement w.tier s with
      | error e => exact ih s
      | ok r => exact absurd (propagate_eq_ok.1 h).1 hw

variable {sha256Hex}

variable {leaf : Bytes}

lemma get_writeLeaf {w : Write}
    (hroot : merkleRoot sha256Hex w.leaf = merkleRoot sha256Hex leaf → w.leaf = leaf)
    (node : String) (x : ℕ) (s : σ) :
    store.get (writeLeaf sha256Hex store nodes s w) node (fragKey (merkleRoot sha256Hex leaf) x) =
      if Touches nodes leaf node x w then .bytes (fragment leaf w.placement.rsK x)
      else store.get s node (fragKey (merkleRoot sha256Hex leaf) x) := by
  by_cases h : Touches nodes leaf node x w
  · obtain ⟨rfl, p, hp, rfl, hnode⟩ := id h
    rw [if_pos h]
    exact get_written store hp hnode
  · rw [if_neg h]
    refine foldlRecOn (motive := fun s' => store.get s' node _ = _) _ _ rfl fun s' hs c hc => ?_
    rw [store.get_put, if_neg ?_, hs]
    rintro ⟨rfl, hkey⟩
    obtain ⟨p, hp, hc⟩ := mem_flatMap.1 hc
    obtain ⟨node, hnode, rfl⟩ := mem_map.1 hc
    have hleaf := hroot (fragKey_root hkey).symm
    subst hleaf
    exact h ⟨rfl, p, hp, (fragKey_inj hkey).symm, hnode⟩

variable {writes : List Write}

lemma get_writeAll
    (hroots : ∀ w ∈ writes, merkleRoot sha256Hex w.leaf = merkleRoot sha256Hex leaf → w.leaf = leaf)
    (node : String) (x : ℕ) (s : σ) :
    store.get (writes.foldl (writeLeaf sha256Hex store nodes) s) node
        (fragKey (merkleRoot sha256Hex leaf) x) =
      match lastK nodes writes leaf node x with
      | some k => .bytes (fragment leaf k x)
      | none => store.get s node (fragKey (merkleRoot sha256Hex leaf) x) := by
  induction writes using List.reverseRecOn with
  | nil => rfl
  | append_singleton writes w ih =>
    rw [foldl_append, foldl_cons, foldl_nil,
      get_writeLeaf store nodes (hroots w (by simp)), lastK_append,
      ih fun w' hw' => hroots w' (mem_append_left _ hw')]
    split_ifs <;> rfl

lemma gather_rewritten {w} (hw : w ∈ writes) (hpos : 0 < w.placement.shardReplicas)
    (hroots : ∀ w' ∈ writes,
      merkleRoot sha256Hex w'.leaf = merkleRoot sha256Hex w.leaf → w'.leaf = w.leaf) (s : σ) :
    gather (store.get (writes.foldl (writeLeaf sha256Hex store nodes) s)) none
      (manifestOf sha256Hex w.leaf nodes w.placement w.tier) = kept nodes writes w := by
  rw [gather, kept, ← filterMap_eq_map]
  refine filterMap_congr fun p hp => ?_
  obtain ⟨x, ns⟩ := p
  cases ns with
  | nil =>
    obtain ⟨i, -, -, hns⟩ := mem_assigned.1 hp
    have hlen := congrArg List.length hns
    rw [slots, length_map, length_range] at hlen
    exact absurd hpos (by rw [← hlen]; exact lt_irrefl 0)
  | cons node ns =>
    have htouch : Touches nodes w.leaf node x w := ⟨rfl, _, hp, rfl, mem_cons_self ..⟩
    obtain ⟨k, hk⟩ := lastK_ne_none hw htouch
    have hget := get_writeAll store nodes hroots node x s
    rw [hk] at hget
    have hfirst : firstCopy (store.get (writes.foldl (writeLeaf sha256Hex store nodes) s)) none
        (fragKey (merkleRoot sha256Hex w.leaf) x) (node :: ns) = some (fragment w.leaf k x) := by
      rw [firstCopy, findSome?_cons, if_pos (asks_none node), hget]
    show (firstCopy _ none (fragKey (merkleRoot sha256Hex w.leaf) x) (node :: ns)).map _ = _
    rw [hfirst]
    simp [hk]

/-- Every manifest that was returned makes a fetch from all nodes return its leaf. -/
def Readable (sha256Hex : Bytes → String) (get : String → String → Answer)
    (returned : List (Write × PropagationManifest)) : Prop :=
  ∀ p ∈ returned, fetch sha256Hex get none MAX_ATTEMPTS p.2 = .ok p.1.leaf

def Committed (sha256Hex : Bytes → String) (leaf : Bytes) : Prop :=
  ∀ b, b.length ≤ leaf.length → merkleRoot sha256Hex b = merkleRoot sha256Hex leaf → b = leaf

lemma Committed.leaf_eq {leaf leaf'} (h : Committed sha256Hex leaf)
    (h' : Committed sha256Hex leaf') (he : merkleRoot sha256Hex leaf = merkleRoot sha256Hex leaf') :
    leaf = leaf' := by
  cases le_total leaf.length leaf'.length with
  | inl hle => exact h' leaf hle he
  | inr hle => exact (h leaf' hle he.symm).symm

lemma Committed.binds {put : σ → String → String → Bytes → σ} {nodes} {placement tier s s' manifest}
    {get : String → String → Answer} {reachable} (hleaf : Committed sha256Hex leaf)
    (h : propagate sha256Hex put leaf nodes placement tier s = .ok (manifest, s')) :
    Binds sha256Hex manifest (gather get reachable manifest) leaf := by
  intro combo hcombo b hdec hdigest
  obtain ⟨hk, hlen, -⟩ := manifest_of_written h
  have hchosen := chosen_of_written h hcombo
  have hlong : ¬ Short (gather get reachable manifest) combo := by
    intro hshort
    rw [decode_short hk hchosen hshort] at hdec
    cases hdec
  obtain ⟨bs, -, -, -, hok⟩ := decode_long hk hchosen hlong
  obtain rfl := Except.ok.inj (hdec.symm.trans hok)
  apply hleaf
  · rw [length_take, hlen]
    exact Nat.min_le_left _ _
  · rw [merkleRoot, merkleRoot, hdigest]

/-- All manifests are readable just when the fragments that the last writes of each leaf have left decode to
it. -/
theorem propagated_readable_iff {writes : List Write}
    (hleaves : ∀ w ∈ writes, Committed sha256Hex w.leaf) (s : σ) :
    Readable sha256Hex (store.get (propagateAll sha256Hex store.put nodes writes s).2)
        (propagateAll sha256Hex store.put nodes writes s).1 ↔
      ∀ w ∈ writes.filter fun w => Accepted nodes w.placement,
        Routed w.leaf w.placement.rsK MAX_ATTEMPTS
          (kept nodes (writes.filter fun w => Accepted nodes w.placement) w) := by
  rw [propagateAll_eq, Readable, forall_mem_map]
  refine forall₂_congr fun w hw => ?_
  obtain ⟨hmem, haccepted⟩ := mem_filter.1 hw
  have haccepted : Accepted nodes w.placement := of_decide_eq_true haccepted
  have hwritten : propagate sha256Hex store.put w.leaf nodes w.placement w.tier s = .ok (_, _) :=
    propagate_eq_ok.2 ⟨haccepted, rfl, rfl⟩
  have hgather := gather_rewritten store nodes hw
    (Nat.pos_of_mul_pos_left haccepted.2.1)
    (fun w' hw' => (hleaves w' (mem_filter.1 hw').1).leaf_eq (hleaves w hmem)) s
  constructor
  · intro hfetch
    have hrouted := routed_of_fetch hwritten hfetch
    rwa [hgather] at hrouted
  · intro hrouted
    refine fetch_of_routed hwritten ((hleaves w hmem).binds hwritten) ?_
    rwa [hgather]

/-- Writing a leaf again does no harm with the same `k`. -/
theorem readable_of_same_k (hleaves : ∀ w ∈ writes, Committed sha256Hex w.leaf)
    (hsame : ∀ w ∈ writes, ∀ w' ∈ writes, w.leaf = w'.leaf → w.placement.rsK = w'.placement.rsK) (s : σ) :
    Readable sha256Hex (store.get (propagateAll sha256Hex store.put nodes writes s).2)
      (propagateAll sha256Hex store.put nodes writes s).1 := by
  rw [propagateAll_eq, Readable, forall_mem_map]
  intro w hw
  obtain ⟨hmem, haccepted⟩ := mem_filter.1 hw
  have haccepted : Accepted nodes w.placement := of_decide_eq_true haccepted
  have hgather := gather_rewritten store nodes hw
    (Nat.pos_of_mul_pos_left haccepted.2.1)
    (fun w' hw' => (hleaves w' (mem_filter.1 hw').1).leaf_eq (hleaves w hmem)) s
  apply fetch_of_true haccepted.1.1 haccepted.1.2
  · rw [hgather]
    intro p hp
    obtain ⟨q, -, rfl⟩ := mem_map.1 hp
    cases hlast : lastK nodes (writes.filter fun w => Accepted nodes w.placement) w.leaf
        (q.2.headD "") q.1 with
    | none => rfl
    | some k =>
      obtain ⟨w', hw', hleaf, rfl⟩ := exists_of_lastK hlast
      rw [Option.getD_some, hsame w' (mem_filter.1 hw').1 w hmem hleaf]
  · rw [hgather, kept, length_map, assigned, length_map, length_range]
    exact Nat.le_add_right _ _

end

def twice (k k' : ℕ) : List Write :=
  [⟨[⟨0x61⟩, ⟨0x62⟩], ⟨k, 0, 1⟩, "runtime"⟩, ⟨[⟨0x61⟩, ⟨0x62⟩], ⟨k', 0, 1⟩, "runtime"⟩]

def plainDigest (leaf : Bytes) : String := String.ofList (leaf.map fun b => Char.ofNat b.bits.toNat)

lemma committed_plainDigest (leaf : Bytes) : Committed plainDigest leaf := by
  intro b _ h
  have hchars := String.ofList_injective ((String.append_right_inj _).1 h)
  refine map_injective_iff.2 (fun x y hxy => ?_) hchars
  have hval : ∀ z : Gf256, (Char.ofNat z.bits.toNat).toNat = z.bits.toNat := by
    intro z
    rw [Char.toNat_ofNat, if_pos (.inl (by omega))]
  apply Gf256.ext_bits
  apply BitVec.eq_of_toNat_eq
  rw [← hval x, hxy, hval y]

/-- Two leaves with different codings, the first one written again with fewer spare fragments. -/
def mixedWrites : List Write :=
  [⟨[⟨0x61⟩, ⟨0x62⟩], ⟨2, 1, 1⟩, "runtime"⟩, ⟨[⟨0x63⟩], ⟨1, 1, 1⟩, "baseline"⟩,
    ⟨[⟨0x61⟩, ⟨0x62⟩], ⟨2, 0, 1⟩, "runtime"⟩]

theorem propagated_readable_iff_mixed :
    Readable plainDigest
      (inMemoryStore.get (propagateAll plainDigest inMemoryStore.put ["a", "b", "c"] mixedWrites []).2)
      (propagateAll plainDigest inMemoryStore.put ["a", "b", "c"] mixedWrites []).1 ∧
    ∀ w ∈ mixedWrites.filter fun w => Accepted ["a", "b", "c"] w.placement,
      Routed w.leaf w.placement.rsK MAX_ATTEMPTS
        (kept ["a", "b", "c"] (mixedWrites.filter fun w => Accepted ["a", "b", "c"] w.placement) w) := by
  have hread := @readable_of_same_k _ plainDigest inMemoryStore ["a", "b", "c"] mixedWrites
    (fun w _ => committed_plainDigest w.leaf) (by decide) []
  exact ⟨hread, (propagated_readable_iff inMemoryStore ["a", "b", "c"]
    (fun w _ => committed_plainDigest w.leaf) []).1 hread⟩

lemma fragment_sum : fragment [⟨0x61⟩, ⟨0x62⟩] 2 1 = [⟨0x03⟩] := by
  show [((0 * 1 + ⟨0x62⟩) * 1 + ⟨0x61⟩ : Gf256)] = [⟨0x03⟩]
  rw [mul_one, mul_one, zero_add]
  rfl

lemma digest_sum_ne : sha256HexDigest [⟨0x03⟩] ≠ sha256HexDigest [⟨0x61⟩, ⟨0x62⟩] := by
  decide +kernel

lemma kept_twice : kept ["a", "b"] (twice 1 2) ⟨[⟨0x61⟩, ⟨0x62⟩], ⟨1, 0, 1⟩, "runtime"⟩ =
    [(1, [⟨0x03⟩])] := by
  have hlast : lastK ["a", "b"] (twice 1 2) [⟨0x61⟩, ⟨0x62⟩] "a" 1 = some 2 := by decide +kernel
  show [(1, fragment [⟨0x61⟩, ⟨0x62⟩]
    ((lastK ["a", "b"] (twice 1 2) [⟨0x61⟩, ⟨0x62⟩] "a" 1).getD 1) 1)] = _
  rw [hlast, Option.getD_some, fragment_sum]

/-- The second write has put the sum of the bytes where the first had put the leaf. -/
theorem rewritten_unreadable :
    ∃ manifest, (⟨[⟨0x61⟩, ⟨0x62⟩], ⟨1, 0, 1⟩, "runtime"⟩, manifest) ∈
        (propagateAll sha256HexDigest inMemoryStore.put ["a", "b"] (twice 1 2) []).1 ∧
      fetch sha256HexDigest (inMemoryStore.get
          (propagateAll sha256HexDigest inMemoryStore.put ["a", "b"] (twice 1 2) []).2) none
        MAX_ATTEMPTS manifest = .error (.integrity 1 1 1) := by
  have hall : ∀ w ∈ twice 1 2, Accepted ["a", "b"] w.placement := by decide
  have hsame : ∀ w ∈ twice 1 2, w.leaf = [⟨0x61⟩, ⟨0x62⟩] := by decide
  rw [propagateAll_eq, filter_eq_self.2 fun w hw => decide_eq_true (hall w hw)]
  refine ⟨_, mem_cons_self .., ?_⟩
  have hgather := gather_rewritten inMemoryStore ["a", "b"]
    (show (⟨[⟨0x61⟩, ⟨0x62⟩], ⟨1, 0, 1⟩, "runtime"⟩ : Write) ∈ twice 1 2 from mem_cons_self ..)
    (by decide) (fun w hw (_ : merkleRoot sha256HexDigest w.leaf = _) => hsame w hw) []
  rw [kept_twice] at hgather
  have hroot : merkleRoot sha256HexDigest [⟨0x03⟩] ≠
      merkleRoot sha256HexDigest [⟨0x61⟩, ⟨0x62⟩] :=
    fun h => digest_sum_ne ((String.append_right_inj _).1 h)
  rw [fetch_eq_search (by rw [hgather]; exact le_refl 1), hgather]
  show search _ _ _ _ 0 [[1]] = _
  rw [search, if_neg (by decide), decode_singleton rfl (by decide)]
  exact if_neg hroot

end SocioWorkspace.Holographic
