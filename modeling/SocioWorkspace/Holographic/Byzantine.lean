import SocioWorkspace.Holographic.Propagation

/-!
# Reading from lying nodes

`fetch` of `automation/leaf_propagation.py` against nodes that answer what they like. A fetch keeps
the first answer for each fragment and tries the `k`-subsets of the kept answers in lexicographic
order, at most `MAX_ATTEMPTS` of them.

`decode_eq_ok_iff` says which subset `fetch` accepts, `routed_of_fetch` and `fetch_of_routed` are the two
directions of `fetch_routed_iff`: the leaf is returned just when a subset that fits comes up, before a short
one.
-/

namespace SocioWorkspace.Holographic
open SocioWorkspace.Lists List

def answer (avail : List (ℕ × Bytes)) (x : ℕ) : Bytes := (avail.lookup x).getD []

/-- Some answer of a subset is shorter than that of its smallest id. -/
def Short (avail : List (ℕ × Bytes)) (combo : List ℕ) : Prop :=
  ∃ x ∈ combo.head?, ∃ y ∈ combo, (answer avail y).length < (answer avail x).length

/-- The answers of a subset are the values of blocks that begin with the leaf, as many as the answer of the
smallest id is long. -/
def Fits (leaf : Bytes) (avail : List (ℕ × Bytes)) (combo : List ℕ) : Prop :=
  ∃ bs : List Bytes, (∀ b ∈ bs, b.length = combo.length) ∧
    (∀ x ∈ combo.head?, (answer avail x).length = bs.length) ∧
    (∀ x ∈ combo, (answer avail x).take bs.length = bs.map fun block => evalPoly block (point x)) ∧
    bs.flatten.take leaf.length = leaf

/-- The subsets that a fetch tries: distinct points in ascending order. -/
structure Chosen (k : ℕ) (combo : List ℕ) : Prop where
  nodup : combo.Nodup
  sorted : combo.Pairwise (· ≤ ·)
  count : combo.length = k
  range : ∀ x ∈ combo, x ≤ 255

section
variable {manifest : PropagationManifest} {avail : List (ℕ × Bytes)} {combo : List ℕ} {leaf : Bytes}

def handed (avail : List (ℕ × Bytes)) (combo : List ℕ) : List (ℕ × Bytes) :=
  combo.map fun x => (x, answer avail x)

lemma map_fst_handed : (handed avail combo).map (·.1) = combo := by
  rw [handed, map_map]
  exact map_id combo

lemma handed_mem {x} (hx : x ∈ combo) : (x, answer avail x) ∈ handed avail combo := mem_map_of_mem hx

lemma mem_handed {p} (hp : p ∈ handed avail combo) : p.1 ∈ combo ∧ p.2 = answer avail p.1 := by
  obtain ⟨x, hx, rfl⟩ := mem_map.1 hp
  exact ⟨hx, rfl⟩

namespace Chosen

variable {k : ℕ}

lemma nodup_handed (hc : Chosen k combo) : ((handed avail combo).map (·.1)).Nodup := by
  rw [map_fst_handed]
  exact hc.nodup

lemma length_handed (hc : Chosen k combo) : (handed avail combo).length = k := by
  rw [handed, length_map, hc.count]

lemma range_handed (hc : Chosen k combo) : ∀ p ∈ handed avail combo, p.1 ≤ 255 :=
  fun p hp => hc.range p.1 (mem_handed hp).1

lemma head_le {k x} (hc : Chosen k combo) (hx : x ∈ combo.head?) : ∀ y ∈ combo, x ≤ y := by
  cases combo with
  | nil => cases hx
  | cons z rest =>
    obtain rfl := Option.some.inj hx
    intro y hy
    cases mem_cons.1 hy with
    | inl h => exact h.ge
    | inr h => exact rel_of_pairwise_cons hc.sorted h

lemma exists_head (hc : Chosen k combo) (hk : 1 ≤ k) : ∃ x, x ∈ combo.head? := by
  cases combo with
  | nil => exact absurd hc.count (Nat.ne_of_lt hk)
  | cons x rest => exact ⟨x, rfl⟩

end Chosen

section
variable (hk : 1 ≤ manifest.k) (hc : Chosen manifest.k combo)
include hk hc

lemma decode_short (h : Short avail combo) : decode manifest avail combo = .error .index := by
  obtain ⟨x, hx, y, hy, hlt⟩ := h
  refine reconstruct_short hk hc.nodup_handed hc.length_handed hc.range_handed
    (handed_mem (mem_of_mem_head? hx)) ?_ (handed_mem hy) hlt
  exact fun p hp => hc.head_le hx p.1 (mem_handed hp).1

lemma decode_long (h : ¬ Short avail combo) :
    ∃ bs : List Bytes, (∀ b ∈ bs, b.length = combo.length) ∧
      (∀ x ∈ combo.head?, (answer avail x).length = bs.length) ∧
      (∀ x ∈ combo, (answer avail x).take bs.length = bs.map fun block => evalPoly block (point x)) ∧
      decode manifest avail combo = .ok (bs.flatten.take manifest.origLen) := by
  obtain ⟨x, hx⟩ := hc.exists_head hk
  obtain ⟨bs, hlen, hblocks, hvalues, hrec⟩ :=
    reconstruct_long hk hc.nodup_handed hc.length_handed hc.range_handed
      (handed_mem (mem_of_mem_head? hx)) (fun p hp => hc.head_le hx p.1 (mem_handed hp).1)
      (fun p hp => by
        obtain ⟨hp, he⟩ := mem_handed hp
        rw [he]
        exact not_lt.1 fun hlt => h ⟨x, hx, p.1, hp, hlt⟩)
  refine ⟨bs, ?_, ?_, ?_, hrec⟩
  · rw [hc.count]
    exact hblocks
  · intro x' hx'
    obtain rfl := Option.mem_unique hx hx'
    exact hlen
  · exact fun y hy => hvalues _ (handed_mem hy)

end

lemma decode_eq_ok_iff (hk : 1 ≤ manifest.k) (hlen : manifest.origLen = leaf.length)
    (hc : Chosen manifest.k combo) : decode manifest avail combo = .ok leaf ↔ Fits leaf avail combo := by
  constructor
  · intro hdec
    have hlong : ¬ Short avail combo := by
      intro h
      rw [decode_short hk hc h] at hdec
      cases hdec
    obtain ⟨bs, hblocks, hfirst, hvalues, hok⟩ := decode_long hk hc hlong
    rw [hdec, hlen] at hok
    exact ⟨bs, hblocks, hfirst, hvalues, (Except.ok.inj hok).symm⟩
  · rintro ⟨bs, hblocks, hfirst, hvalues, hleaf⟩
    obtain ⟨x, hx⟩ := hc.exists_head hk
    rw [hc.count] at hblocks
    refine Eq.trans (reconstruct_of_blocks hk hc.nodup_handed hc.length_handed.ge hblocks ?_ ?_) ?_
    · intro p hp
      obtain ⟨hpc, he⟩ := mem_handed hp
      rw [he]
      exact ⟨hc.range_handed p hp, hvalues p.1 hpc⟩
    · intro p hp hmin
      obtain ⟨hpc, he⟩ := mem_handed hp
      have hpx : p.1 = x := le_antisymm (hmin _ (handed_mem (mem_of_mem_head? hx)))
        (hc.head_le hx p.1 hpc)
      rw [he, hpx]
      exact hfirst x hx
    · rw [hlen, hleaf]

/-- With `k = 1` a fragment is the leaf itself. -/
lemma decode_singleton (hk : manifest.k = 1) {x} (hx : x ≤ 255) :
    decode manifest avail [x] = .ok ((answer avail x).take manifest.origLen) := by
  have hc : Chosen manifest.k [x] := by
    refine ⟨nodup_singleton x, pairwise_singleton _ x, hk.symm, fun y hy => ?_⟩
    rwa [mem_singleton.1 hy]
  have hflatten : ((answer avail x).map fun c => [c]).flatten = answer avail x := flatMap_singleton' _
  refine Eq.trans (@reconstruct_of_blocks _ _ _ hk.ge hc.nodup_handed hc.length_handed.ge
    ((answer avail x).map fun c => [c]) ?_ ?_ ?_) (by rw [hflatten])
  · intro b hb
    obtain ⟨c, -, rfl⟩ := mem_map.1 hb
    exact hk.symm
  · intro p hp
    refine ⟨hc.range_handed p hp, ?_⟩
    obtain ⟨hpx, he⟩ := mem_handed hp
    rw [he, mem_singleton.1 hpx, length_map, take_length, map_map]
    refine (map_id'' (fun c => ?_) _).symm
    show mul 0 _ + c = c
    rw [mul, if_pos (.inl rfl)]
    exact zero_add c
  · intro p hp _
    obtain ⟨hpx, he⟩ := mem_handed hp
    rw [he, mem_singleton.1 hpx, length_map]

end

section
variable {sha256Hex : Bytes → String} {σ : Type} {put : σ → String → String → Bytes → σ}
  {leaf : Bytes} {nodes : List String} {placement : Placement} {tier : String} {s s' : σ}
  {manifest : PropagationManifest} {get : String → String → Answer}
  {reachable : Option (List String)}

/-- No subset of the answers decodes to other bytes with the digest of the leaf. -/
def Binds (sha256Hex : Bytes → String) (manifest : PropagationManifest) (avail : List (ℕ × Bytes))
    (leaf : Bytes) : Prop :=
  ∀ combo ∈ combinations (answering avail) manifest.k, ∀ b,
    decode manifest avail combo = .ok b → sha256Hex b = sha256Hex leaf → b = leaf

/-- One of the first subsets fits the leaf, and no subset before it is short. -/
def Routed (leaf : Bytes) (k maxAttempts : ℕ) (avail : List (ℕ × Bytes)) : Prop :=
  ∃ i < maxAttempts, ∃ combo, (combinations (answering avail) k)[i]? = some combo ∧
    Fits leaf avail combo ∧ ∀ c ∈ (combinations (answering avail) k).take i, ¬ Short avail c

/-- Enough fragments have a node that answers with the true bytes. -/
def Quorum (leaf : Bytes) (manifest : PropagationManifest) (get : String → String → Answer)
    (reachable : Option (List String)) : Prop :=
  ∃ ids : Finset ℕ, manifest.k ≤ ids.card ∧ ∀ x ∈ ids, ∃ ns, (x, ns) ∈ manifest.fragmentNodes ∧
    ∃ node ∈ ns, Asks reachable node ∧
      get node (fragKey manifest.root x) = .bytes (fragment leaf manifest.k x)

section
variable (h : propagate sha256Hex put leaf nodes placement tier s = .ok (manifest, s'))
include h

lemma chosen_of_written {combo}
    (hc : combo ∈ combinations (answering (gather get reachable manifest)) manifest.k) :
    Chosen manifest.k combo := by
  obtain ⟨⟨⟨-, hn⟩, -⟩, rfl, -⟩ := propagate_eq_ok.1 h
  obtain ⟨hsub, hcount⟩ := mem_combinations.1 hc
  refine ⟨?_, ?_, hcount, ?_⟩
  · exact ((perm_insertionSort _ _).nodup_iff.2 nodup_gather).sublist hsub
  · exact (pairwise_insertionSort (· ≤ ·) _).sublist hsub
  · exact fun x hx => le_of_mem_gather hn ((perm_insertionSort _ _).subset (hsub.subset hx))

lemma manifest_of_written :
    1 ≤ manifest.k ∧ manifest.origLen = leaf.length ∧
      manifest.root = merkleRoot sha256Hex leaf := by
  obtain ⟨⟨⟨hk, -⟩, -⟩, rfl, -⟩ := propagate_eq_ok.1 h
  exact ⟨hk, rfl, rfl⟩

lemma routed_of_fetch (hf : fetch sha256Hex get reachable MAX_ATTEMPTS manifest = .ok leaf) :
    Routed leaf manifest.k MAX_ATTEMPTS (gather get reachable manifest) := by
  obtain ⟨hk, hlen, -⟩ := manifest_of_written h
  obtain ⟨i, combo, hi, hcombo, hdec, -, hbefore⟩ := fetch_eq_ok.1 hf
  have hchosen := chosen_of_written h (mem_of_getElem? hcombo)
  refine ⟨i, hi, combo, hcombo, (decode_eq_ok_iff hk hlen hchosen).1 hdec, ?_⟩
  intro c hc hshort
  obtain ⟨b, hb, -⟩ := hbefore c hc
  rw [decode_short hk (chosen_of_written h (mem_of_mem_take hc)) hshort] at hb
  cases hb

lemma fetch_of_routed (hbinds : Binds sha256Hex manifest (gather get reachable manifest) leaf)
    (hr : Routed leaf manifest.k MAX_ATTEMPTS (gather get reachable manifest)) :
    fetch sha256Hex get reachable MAX_ATTEMPTS manifest = .ok leaf := by
  obtain ⟨hk, hlen, hroot⟩ := manifest_of_written h
  obtain ⟨i, hi, combo, hcombo, hfits, hbefore⟩ := hr
  have hchosen := chosen_of_written h (mem_of_getElem? hcombo)
  have hdec := (decode_eq_ok_iff hk hlen hchosen).2 hfits
  refine fetch_eq_ok.2 ⟨i, combo, hi, hcombo, hdec, hroot.symm, fun c hc => ?_⟩
  -- a subset before it decodes to something else, or to the leaf
  have hcmem := mem_of_mem_take hc
  obtain ⟨bs, -, -, -, hdec⟩ := decode_long hk (chosen_of_written h hcmem) (hbefore c hc)
  refine ⟨_, hdec, fun hr => hbinds c hcmem _ hdec ?_⟩
  rw [hroot] at hr
  exact (String.append_right_inj _).1 hr

/-- A fetch returns the leaf just when one of the first subsets fits it and none before is short. So Byzantine
answers are routed around, as long as `k` fragments have a truthful node, just when such a subset exists then. -/
theorem fetch_routed_iff (hbinds : Binds sha256Hex manifest (gather get reachable manifest) leaf) :
    (fetch sha256Hex get reachable MAX_ATTEMPTS manifest = .ok leaf ↔
      Routed leaf manifest.k MAX_ATTEMPTS (gather get reachable manifest)) ∧
    (((Quorum leaf manifest get reachable → fetch sha256Hex get reachable MAX_ATTEMPTS manifest = .ok leaf) ∧
        ((∃ attempts fragments k, fetch sha256Hex get reachable MAX_ATTEMPTS manifest =
          .error (.integrity attempts fragments k)) → ¬Quorum leaf manifest get reachable)) ↔
      (Quorum leaf manifest get reachable →
        Routed leaf manifest.k MAX_ATTEMPTS (gather get reachable manifest))) := by
  have hiff : fetch sha256Hex get reachable MAX_ATTEMPTS manifest = .ok leaf ↔
      Routed leaf manifest.k MAX_ATTEMPTS (gather get reachable manifest) :=
    ⟨routed_of_fetch h, fetch_of_routed h hbinds⟩
  refine ⟨hiff, fun hclaim hquorum => hiff.1 (hclaim.1 hquorum), fun hrouted => ?_⟩
  refine ⟨fun hquorum => hiff.2 (hrouted hquorum), ?_⟩
  rintro ⟨attempts, fragments, k, herror⟩ hquorum
  rw [hiff.2 (hrouted hquorum)] at herror
  cases herror

end

def oneByte (placement : Placement) : PropagationManifest :=
  manifestOf sha256HexDigest [⟨0x61⟩] ["a", "b"] placement "runtime"

def firstLies (node _key : String) : Answer := .bytes (if node = "a" then [⟨0x62⟩] else [⟨0x61⟩])

lemma propagate_oneByte (placement : Placement) (hk : 1 ≤ placement.rsK ∧ placement.rsN ≤ 255)
    (hn : 0 < placement.rsN * placement.shardReplicas ∧ placement.rsN * placement.shardReplicas ≤ 2) :
    propagate sha256HexDigest (fun (s : Unit) _ _ _ => s) [⟨0x61⟩] ["a", "b"] placement "runtime" ()
      = .ok (oneByte placement, ()) :=
  propagate_eq_ok.2 ⟨⟨hk, hn⟩, rfl, rfl⟩

lemma gather_oneByte : gather firstLies none (oneByte ⟨1, 1, 1⟩) = [(1, [⟨0x62⟩]), (2, [⟨0x61⟩])] := by
  decide +kernel

lemma digest_lie_ne : sha256HexDigest [⟨0x62⟩] ≠ sha256HexDigest [⟨0x61⟩] := by decide +kernel

/-- No other bytes with the digest of the leaf come out when `a` lies about its fragment. -/
lemma binds_oneByte : Binds sha256HexDigest (oneByte ⟨1, 1, 1⟩)
    (gather firstLies none (oneByte ⟨1, 1, 1⟩)) [⟨0x61⟩] := by
  rw [gather_oneByte]
  intro combo hcombo b hb hdigest
  have hcombos : combo ∈ [[1], [2]] := hcombo
  cases mem_cons.1 hcombos with
  | inl h =>
    subst h
    obtain rfl := Except.ok.inj ((decode_singleton rfl (by decide)).symm.trans hb)
    exact absurd hdigest digest_lie_ne
  | inr h =>
    obtain rfl := mem_singleton.1 h
    exact (Except.ok.inj ((decode_singleton rfl (by decide)).symm.trans hb)).symm

/-- The lie of `a` about the first fragment is routed around with the second. -/
theorem fetch_routed_iff_oneByte :
    fetch sha256HexDigest firstLies none MAX_ATTEMPTS (oneByte ⟨1, 1, 1⟩) = .ok [⟨0x61⟩] ∧
    Routed [⟨0x61⟩] 1 MAX_ATTEMPTS (gather firstLies none (oneByte ⟨1, 1, 1⟩)) := by
  have hrouted : Routed [⟨0x61⟩] 1 MAX_ATTEMPTS (gather firstLies none (oneByte ⟨1, 1, 1⟩)) := by
    rw [gather_oneByte]
    refine ⟨1, by decide, [2], rfl, ⟨[[⟨0x61⟩]], by decide, ?_, ?_, rfl⟩, ?_⟩
    · intro x hx
      rw [← Option.some.inj hx]
      rfl
    · intro x hx
      rw [mem_singleton.1 hx]
      rfl
    · rintro c hc ⟨x, hx, y, hy, hlt⟩
      obtain rfl := mem_singleton.1 (show c ∈ [[1]] from hc)
      obtain rfl := Option.some.inj hx
      obtain rfl := mem_singleton.1 hy
      exact lt_irrefl _ hlt
  exact ⟨(fetch_routed_iff (propagate_oneByte ⟨1, 1, 1⟩ (by decide) (by decide))
    binds_oneByte).1.2 hrouted, hrouted⟩

end

def twoBytes : PropagationManifest :=
  manifestOf sha256HexDigest [⟨0x61⟩, ⟨0x62⟩] ["a", "b", "c"] ⟨2, 1, 1⟩ "runtime"

def secondEmpty (node _key : String) : Answer :=
  .bytes (if node = "b" then [] else fragment [⟨0x61⟩, ⟨0x62⟩] 2 (if node = "a" then 1 else 3))

lemma fetch_firstLies : fetch sha256HexDigest firstLies none MAX_ATTEMPTS (oneByte ⟨1, 0, 2⟩) =
    .error (.integrity 1 1 1) := by
  have hgather : gather firstLies none (oneByte ⟨1, 0, 2⟩) = [(1, [⟨0x62⟩])] := by decide +kernel
  have hroot : merkleRoot sha256HexDigest [⟨0x62⟩] ≠ (oneByte ⟨1, 0, 2⟩).root :=
    fun h => digest_lie_ne ((String.append_right_inj _).1 h)
  have hcombos : combinations (answering [(1, [⟨0x62⟩])]) (oneByte ⟨1, 0, 2⟩).k = [[1]] := rfl
  have hdec : decode (oneByte ⟨1, 0, 2⟩) [(1, [⟨0x62⟩])] [1] = .ok [⟨0x62⟩] :=
    decode_singleton rfl (by decide)
  rw [fetch_eq_search (by rw [hgather]; decide), hgather, hcombos, search, if_neg (by decide), hdec]
  simp only [hroot, if_false]
  rfl

lemma gather_twoBytes : gather secondEmpty none twoBytes =
    [(1, fragment [⟨0x61⟩, ⟨0x62⟩] 2 1), (2, []), (3, fragment [⟨0x61⟩, ⟨0x62⟩] 2 3)] := rfl

lemma fetch_secondEmpty : fetch sha256HexDigest secondEmpty none MAX_ATTEMPTS twoBytes =
    .error (.ida .index) := by
  have hshort : decode twoBytes (gather secondEmpty none twoBytes) [1, 2] = .error .index := by
    refine decode_short (by decide) ⟨by decide, by decide, rfl, by decide⟩ ?_
    rw [gather_twoBytes]
    exact ⟨1, rfl, 2, by decide, by decide⟩
  have hcombos : combinations (answering (gather secondEmpty none twoBytes)) twoBytes.k =
      [[1, 2], [1, 3], [2, 3]] := by
    rw [gather_twoBytes]
    rfl
  rw [fetch_eq_search (by rw [gather_twoBytes]; decide), hcombos, search, if_neg (by decide), hshort]

/-- A lie in front of the true copy of a fragment hides it, and an answer without bytes raises. -/
theorem lies_not_routed_around :
    (propagate sha256HexDigest (fun (s : Unit) _ _ _ => s) [⟨0x61⟩] ["a", "b"] ⟨1, 0, 2⟩ "runtime" ()
        = .ok (oneByte ⟨1, 0, 2⟩, ()) ∧
      Quorum [⟨0x61⟩] (oneByte ⟨1, 0, 2⟩) firstLies none ∧
      fetch sha256HexDigest firstLies none MAX_ATTEMPTS (oneByte ⟨1, 0, 2⟩) = .error (.integrity 1 1 1)) ∧
    (propagate sha256HexDigest (fun (s : Unit) _ _ _ => s) [⟨0x61⟩, ⟨0x62⟩] ["a", "b", "c"] ⟨2, 1, 1⟩
        "runtime" () = .ok (twoBytes, ()) ∧
      Quorum [⟨0x61⟩, ⟨0x62⟩] twoBytes secondEmpty none ∧
      fetch sha256HexDigest secondEmpty none MAX_ATTEMPTS twoBytes = .error (.ida .index)) := by
  refine ⟨⟨propagate_oneByte _ (by decide) (by decide), ⟨{1}, by decide, ?_⟩,
    fetch_firstLies⟩, ⟨propagate_eq_ok.2 ⟨by decide, rfl, rfl⟩, ⟨{1, 3}, by decide, ?_⟩,
    fetch_secondEmpty⟩⟩
  · intro x hx
    obtain rfl := Finset.mem_singleton.1 hx
    exact ⟨["a", "b"], by decide +kernel, "b", by decide, nofun, rfl⟩
  · intro x hx
    cases Finset.mem_insert.1 hx with
    | inl h =>
      subst h
      exact ⟨["a"], by decide +kernel, "a", by decide, nofun, rfl⟩
    | inr h =>
      obtain rfl := Finset.mem_singleton.1 h
      exact ⟨["c"], by decide +kernel, "c", by decide, nofun, rfl⟩

end SocioWorkspace.Holographic
