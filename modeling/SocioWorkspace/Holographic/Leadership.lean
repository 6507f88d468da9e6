import SocioWorkspace.Holographic.Topology
import SocioWorkspace.Lib.Windows

/-!
# The leader of the mesh

Model of `tree_leader` and `turn_length` of `automation/mesh_topology.py`. The epoch is read as a mixed-radix
number along the tree, so a backend leads in one residue class of epochs, whose period is the product of the
sizes of the groups above it.

`leads_group_iff` is the step from a group to its members. `leads_once_per_period` and `evenTurn_iff` are
inductions over the tree: how often a backend leads, and when all of them lead equally often.
-/

namespace SocioWorkspace.Holographic
open Windows List MeshTree Option

mutual
/-- Python `tree_leader`; in a group without members the remainder raises. -/
def treeLeader : MeshTree → ℤ → Option String
  | .backend id, _ => some id
  | .group members, epoch =>
    leaderAt members (epoch % members.length).toNat (epoch / members.length)

def leaderAt : List MeshTree → ℕ → ℤ → Option String
  | [], _, _ => none
  | t :: _, 0, epoch => treeLeader t epoch
  | _ :: ts, i + 1, epoch => leaderAt ts i epoch
end

mutual
/-- Python `turn_length`; in a group without members `max` raises. -/
def turnLength : MeshTree → Option ℕ
  | .backend _ => some 1
  | .group members => do
    let lengths ← turnLengths members
    let longest ← lengths.max?
    return members.length * longest

def turnLengths : List MeshTree → Option (List ℕ)
  | [] => some []
  | t :: ts => do
    let length ← turnLength t
    let lengths ← turnLengths ts
    return length :: lengths
end

def Leads (t : MeshTree) (b : String) (epoch : ℤ) : Prop := treeLeader t epoch = some b

instance decidableLeads (t : MeshTree) (b : String) : DecidablePred (Leads t b) :=
  fun epoch => inferInstanceAs (Decidable (treeLeader t epoch = some b))

/-- The product of the numbers of members of the groups on a path from the root to a backend. -/
inductive PathProduct : MeshTree → String → ℕ → Prop where
  | backend (id : String) :
    PathProduct (.backend id) id 1
  | group {members : List MeshTree} {t : MeshTree} {b : String} {p : ℕ} :
    t ∈ members →
    PathProduct t b p →
    PathProduct (.group members) b (members.length * p)

section
variable {t : MeshTree} {members : List MeshTree} {b : String} {p T : ℕ} {e : ℤ}

lemma leaderAt_eq_some {i} : leaderAt members i e = some b ↔ ∃ t, members[i]? = some t ∧ Leads t b e := by
  induction members generalizing i with
  | nil => simp [leaderAt]
  | cons t ts ih =>
    cases i with
    | zero => simp [leaderAt, Leads]
    | succ i => rw [leaderAt, ih, getElem?_cons_succ]

lemma mem_leaves_group : b ∈ (group members).leaves ↔ ∃ t ∈ members, b ∈ t.leaves := by
  rw [leaves, leavesAll_eq, mem_flatMap]

lemma mem_leaves_of_leads (h : Leads t b e) : b ∈ t.leaves := by
  induction t using induct generalizing e with
  | backend id =>
    cases h
    exact mem_singleton_self b
  | group members ih =>
    obtain ⟨t, ht, hlead⟩ := leaderAt_eq_some.1 h
    have hmem := mem_of_getElem? ht
    exact mem_leaves_group.2 ⟨t, hmem, ih t hmem hlead⟩

lemma PathProduct.mem_leaves (h : PathProduct t b p) : b ∈ t.leaves := by
  induction h with
  | backend id => exact mem_singleton_self id
  | group hmem _ ih => exact mem_leaves_group.2 ⟨_, hmem, ih⟩

lemma exists_pathProduct (h : b ∈ t.leaves) : ∃ p, PathProduct t b p := by
  induction t using induct with
  | backend id =>
    cases mem_singleton.1 h
    exact ⟨1, .backend b⟩
  | group members ih =>
    obtain ⟨t, hmem, hb⟩ := mem_leaves_group.1 h
    obtain ⟨p, hp⟩ := ih t hmem hb
    exact ⟨_, .group hmem hp⟩

lemma eq_of_mem_leaves (hnodup : (group members).leaves.Nodup) {i j : ℕ} {t t'}
    (hi : members[i]? = some t) (hj : members[j]? = some t') (hb : b ∈ t.leaves)
    (hb' : b ∈ t'.leaves) : i = j := by
  rw [leaves, leavesAll_eq, nodup_flatMap] at hnodup
  obtain ⟨hi', rfl⟩ := List.getElem?_eq_some_iff.1 hi
  obtain ⟨hj', rfl⟩ := List.getElem?_eq_some_iff.1 hj
  have hpairwise := pairwise_iff_getElem.1 hnodup.2
  rcases lt_trichotomy i j with hlt | heq | hgt
  · exact absurd hb' (hpairwise i j hi' hj' hlt hb)
  · exact heq
  · exact absurd hb (hpairwise j i hj' hi' hgt hb')

lemma leads_group_iff (hnodup : (group members).leaves.Nodup) {i : ℕ}
    (hi : members[i]? = some t) (hb : b ∈ t.leaves) :
    Leads (.group members) b e ↔ e % members.length = i ∧ Leads t b (e / members.length) := by
  obtain ⟨hlt, -⟩ := List.getElem?_eq_some_iff.1 hi
  have hnonneg : 0 ≤ e % (members.length : ℤ) := Int.emod_nonneg e (by omega)
  refine leaderAt_eq_some.trans ⟨fun h => ?_, fun h => ?_⟩
  · obtain ⟨t', hj, hlead⟩ := h
    have hij := eq_of_mem_leaves hnodup hi hj hb (mem_leaves_of_leads hlead)
    rw [← hij, hi] at hj
    cases hj
    exact ⟨by omega, hlead⟩
  · rw [h.1, Int.toNat_natCast]
    exact ⟨t, hi, h.2⟩

/-- A backend leads in one residue class of epochs. -/
lemma PathProduct.recurs (h : PathProduct t b p) (hnodup : t.leaves.Nodup) : Recurs p (Leads t b) := by
  induction h with
  | backend id => exact recurs_one fun _ => rfl
  | @group members t b p hmem hp ih =>
    have hsub : t.leaves.Nodup := by
      rw [leaves, leavesAll_eq, nodup_flatMap] at hnodup
      exact hnodup.1 t hmem
    obtain ⟨i, hi⟩ := mem_iff_getElem?.1 hmem
    obtain ⟨hlt, -⟩ := List.getElem?_eq_some_iff.1 hi
    have hgroup : Leads (.group members) b =
        fun e : ℤ => e % members.length = i ∧ Leads t b (e / members.length) :=
      funext fun e => propext (leads_group_iff hnodup hi hp.mem_leaves)
    rw [hgroup]
    exact (ih hsub).digit hlt

lemma turnLengths_eq_some {ts lengths} :
    turnLengths ts = some lengths ↔ List.Forall₂ (fun t l => turnLength t = some l) ts lengths := by
  induction ts generalizing lengths with
  | nil => simp [turnLengths, eq_comm]
  | cons t ts ih =>
    rw [turnLengths, forall₂_cons_left_iff]
    simp only [← ih]
    refine ⟨fun h => ?_, fun h => ?_⟩
    · obtain ⟨l, hl, h⟩ := bind_eq_some_iff.1 h
      obtain ⟨ls, hls, h⟩ := bind_eq_some_iff.1 h
      exact ⟨l, ls, hl, hls, (some.inj h).symm⟩
    · obtain ⟨l, ls, hl, hls, rfl⟩ := h
      rw [hl, hls]
      rfl

/-- The turn of a group is as many turns of the member with the longest one as it has members. -/
lemma turnLength_group (h : turnLength (.group members) = some T) : ∃ longest,
    (∀ t ∈ members, ∃ l, turnLength t = some l ∧ l ≤ longest) ∧
      (∃ t ∈ members, turnLength t = some longest) ∧ T = members.length * longest := by
  obtain ⟨lengths, hlengths, h⟩ := bind_eq_some_iff.1 h
  obtain ⟨longest, hmax, h⟩ := bind_eq_some_iff.1 h
  obtain ⟨hmem, hle⟩ := max?_eq_some_iff.1 hmax
  have hall := turnLengths_eq_some.1 hlengths
  refine ⟨longest, fun t ht => ?_, ?_, (some.inj h).symm⟩
  · obtain ⟨l, hl, hturn⟩ := exists_mem_of_forall₂ hall ht
    exact ⟨l, hturn, hle l hl⟩
  · exact exists_mem_of_forall₂ hall.flip hmem

lemma exists_turnLength_group (hne : members ≠ []) (h : ∀ t ∈ members, ∃ l, turnLength t = some l) :
    ∃ T, turnLength (.group members) = some T := by
  have hlengths : ∃ lengths, List.Forall₂ (fun t l => turnLength t = some l) members lengths := by
    clear hne
    induction members with
    | nil => exact ⟨[], .nil⟩
    | cons t ts ih =>
      rw [forall_mem_cons] at h
      obtain ⟨l, hl⟩ := h.1
      obtain ⟨ls, hls⟩ := ih h.2
      exact ⟨l :: ls, .cons hl hls⟩
  obtain ⟨lengths, hlengths⟩ := hlengths
  have hmax : lengths.max? ≠ none := by
    rw [ne_eq, max?_eq_none_iff, ← length_eq_zero_iff, ← hlengths.length_eq, length_eq_zero_iff]
    exact hne
  obtain ⟨longest, hlongest⟩ := ne_none_iff_exists'.1 hmax
  refine ⟨members.length * longest, ?_⟩
  rw [turnLength, turnLengths_eq_some.2 hlengths]
  show (lengths.max? >>= fun longest => some (members.length * longest)) = _
  rw [hlongest]
  rfl

lemma PathProduct.le_turnLength (h : PathProduct t b p) (hT : turnLength t = some T) : p ≤ T := by
  induction h generalizing T with
  | backend id => exact (some.inj hT).le
  | group hmem _ ih =>
    obtain ⟨longest, hall, -, rfl⟩ := turnLength_group hT
    obtain ⟨l, hl, hle⟩ := hall _ hmem
    exact Nat.mul_le_mul_left _ ((ih hl).trans hle)

end

variable {nodes : List String}

lemma exists_turnLength (hne : nodes ≠ []) : ∃ T, turnLength (buildTree nodes) = some T := by
  refine buildTree_induct (P := fun _ t => ∃ T, turnLength t = some T) ?_ ?_ hne
  · intro nodes hne _
    refine exists_turnLength_group (by simpa using hne) fun t ht => ?_
    obtain ⟨id, -, rfl⟩ := mem_map.1 ht
    exact ⟨1, rfl⟩
  · intro a b c _ ha hb hc
    refine exists_turnLength_group (cons_ne_nil _ _) ?_
    simp only [forall_mem_cons]
    exact ⟨ha, hb, hc, fun _ h => absurd h not_mem_nil⟩

/-- Every backend leads once in as many epochs as the sizes of the groups above it multiply to, at most a
turn. -/
theorem leads_once_per_period (nodes : List String) (hne : nodes ≠ []) (hnodup : nodes.Nodup) :
    ∃ T, turnLength (buildTree nodes) = some T ∧ ∀ b ∈ nodes,
      (∃ p, PathProduct (buildTree nodes) b p) ∧ ∀ p, PathProduct (buildTree nodes) b p →
        (∀ e : ℤ, ∃! t, (e ≤ t ∧ t < e + p) ∧ treeLeader (buildTree nodes) t = some b) ∧ p ≤ T := by
  obtain ⟨T, hT⟩ := exists_turnLength hne
  refine ⟨T, hT, fun b hb => ⟨?_, fun p hp => ⟨?_, hp.le_turnLength hT⟩⟩⟩
  · apply exists_pathProduct
    rwa [leaves_buildTree]
  · apply (hp.recurs _).existsUnique
    rwa [leaves_buildTree]

/-- Four nodes, two of which share a group. -/
theorem four_lead_once_per_period : ["a", "b", "c", "d"].Nodup ∧
    ∃ T, turnLength (buildTree ["a", "b", "c", "d"]) = some T ∧ ∀ b ∈ ["a", "b", "c", "d"],
      (∃ p, PathProduct (buildTree ["a", "b", "c", "d"]) b p) ∧
      ∀ p, PathProduct (buildTree ["a", "b", "c", "d"]) b p →
        (∀ e : ℤ, ∃! t, (e ≤ t ∧ t < e + p) ∧
          treeLeader (buildTree ["a", "b", "c", "d"]) t = some b) ∧ p ≤ T :=
  ⟨by decide, leads_once_per_period _ (cons_ne_nil _ _) (by decide)⟩

/-- Wherever a turn starts, all backends lead equally often in it. -/
def EvenTurn (t : MeshTree) (T : ℕ) : Prop :=
  ∀ e, ∀ b ∈ t.leaves, ∀ b' ∈ t.leaves, hits (Leads t b) e T = hits (Leads t b') e T

def Uniform (t : MeshTree) (q : ℕ) : Prop := ∀ b p, PathProduct t b p → p = q

section
variable {t : MeshTree} {members : List MeshTree} {q T : ℕ}

lemma Uniform.of_members (h : ∀ t ∈ members, Uniform t q) :
    Uniform (.group members) (members.length * q) := by
  intro b p hp
  cases hp with
  | group hmem hp => rw [h _ hmem b _ hp]

lemma Uniform.member (h : Uniform (.group members) q) (hmem : t ∈ members) :
    Uniform t (q / members.length) := by
  intro b p hp
  have hlen : 0 < members.length := length_pos_of_mem hmem
  rw [← h b _ (.group hmem hp), Nat.mul_div_cancel_left p hlen]

lemma leaves_ne_nil (hT : turnLength t = some T) : t.leaves ≠ [] := by
  induction t using induct generalizing T with
  | backend id => exact cons_ne_nil id []
  | group members ih =>
    obtain ⟨longest, -, ⟨t, hmem, ht⟩, -⟩ := turnLength_group hT
    obtain ⟨b, hb⟩ := exists_mem_of_ne_nil _ (ih t hmem ht)
    exact ne_nil_of_mem (mem_leaves_group.2 ⟨t, hmem, hb⟩)

/-- If all backends have the same period, it is the turn and the number of backends. -/
lemma Uniform.eq_turnLength (h : Uniform t q) (hT : turnLength t = some T) : T = q ∧ t.leaves.length = q := by
  induction t using induct generalizing q T with
  | backend id => exact ⟨(some.inj hT).symm.trans (h id 1 (.backend id)), h id 1 (.backend id)⟩
  | group members ih =>
    obtain ⟨b, hb⟩ := exists_mem_of_ne_nil _ (leaves_ne_nil hT)
    obtain ⟨longest, hall, ⟨t, hmem, ht⟩, rfl⟩ := turnLength_group hT
    -- the period of the group is a multiple of the number of its members
    have hq : members.length * (q / members.length) = q := by
      obtain ⟨p, hp⟩ := exists_pathProduct hb
      cases hp with
      | group hmem hp => exact Nat.mul_div_cancel' ⟨_, (h b _ (.group hmem hp)).symm⟩
    have hlength : ∀ t ∈ members, t.leaves.length = q / members.length := by
      intro t hmem
      obtain ⟨l, hl, -⟩ := hall t hmem
      exact (ih t hmem (h.member hmem) hl).2
    refine ⟨?_, ?_⟩
    · rw [(ih t hmem (h.member hmem) ht).1, hq]
    · rw [leaves, leavesAll_eq, length_flatMap, map_congr_left hlength,
        map_const', sum_replicate, smul_eq_mul, hq]

lemma evenTurn_iff_uniform (hnodup : t.leaves.Nodup) (hT : turnLength t = some T) :
    EvenTurn t T ↔ ∃ q, Uniform t q := by
  refine ⟨fun heven => ?_, fun h => ?_⟩
  · obtain ⟨b₀, hb₀⟩ := exists_mem_of_ne_nil _ (leaves_ne_nil hT)
    obtain ⟨q, hq⟩ := exists_pathProduct hb₀
    have hpos : 0 < T := lt_of_lt_of_le (hq.recurs hnodup).pos (hq.le_turnLength hT)
    refine ⟨q, fun b p hp => ?_⟩
    apply (hp.recurs hnodup).period_eq (hq.recurs hnodup) hpos
    exact fun e => heven e b hp.mem_leaves b₀ hb₀
  · obtain ⟨q, hq⟩ := h
    have honce : ∀ e, ∀ b ∈ t.leaves, hits (Leads t b) e T = 1 := by
      intro e b hb
      obtain ⟨p, hp⟩ := exists_pathProduct hb
      rw [(hq.eq_turnLength hT).1, ← hq b p hp]
      exact (hp.recurs hnodup).hits_period e
    intro e b hb b' hb'
    rw [honce e b hb, honce e b' hb']

end

lemma uniform_backends (nodes : List String) :
    Uniform (.group (nodes.map .backend)) (nodes.map backend).length := by
  have hone : ∀ t ∈ nodes.map backend, Uniform t 1 := by
    intro t ht b p hp
    obtain ⟨id, -, rfl⟩ := mem_map.1 ht
    cases hp
    rfl
  simpa only [Nat.mul_one] using Uniform.of_members hone

lemma Uniform.length_eq (hne : nodes ≠ []) {q} (h : Uniform (buildTree nodes) q) : nodes.length = q := by
  obtain ⟨T, hT⟩ := exists_turnLength hne
  have hlength := (h.eq_turnLength hT).2
  rwa [leaves_buildTree] at hlength

lemma uniform_buildTree_iff (hne : nodes ≠ []) :
    (∃ q, Uniform (buildTree nodes) q) ↔
      ∃ k, nodes.length = 3 ^ k ∨ nodes.length = 2 * 3 ^ k := by
  refine buildTree_induct (P := fun nodes t => (∃ q, Uniform t q) ↔
    ∃ k, nodes.length = 3 ^ k ∨ nodes.length = 2 * 3 ^ k) ?_ ?_ hne
  · intro nodes hne hle
    have hpos := length_pos_of_ne_nil hne
    refine iff_of_true ⟨_, uniform_backends nodes⟩ ?_
    obtain h | h | h : nodes.length = 1 ∨ nodes.length = 2 ∨ nodes.length = 3 := by omega
    · exact ⟨0, .inl h⟩
    · exact ⟨0, .inr h⟩
    · exact ⟨1, .inl h⟩
  · intro a b c hbal ha hb hc
    obtain ⟨hpos, hlast, hmiddle, hfirst, hmany⟩ := hbal
    have hane : a ≠ [] := ne_nil_of_length_pos (by omega)
    have hbne : b ≠ [] := ne_nil_of_length_pos (by omega)
    have hcne : c ≠ [] := ne_nil_of_length_pos (by omega)
    rw [length_append, length_append]
    refine ⟨fun h => ?_, fun h => ?_⟩
    · obtain ⟨q, hq⟩ := h
      have hla := (hq.member (t := buildTree a) (by simp)).length_eq hane
      have hlb := (hq.member (t := buildTree b) (by simp)).length_eq hbne
      have hlc := (hq.member (t := buildTree c) (by simp)).length_eq hcne
      obtain ⟨k, hk⟩ := ha.1 ⟨_, hq.member (by simp)⟩
      refine ⟨k + 1, ?_⟩
      rw [pow_succ]
      omega
    · obtain ⟨k, hk⟩ := h
      cases k with
      | zero => omega
      | succ k =>
        rw [pow_succ] at hk
        obtain ⟨qa, hqa⟩ := ha.2 ⟨k, by omega⟩
        obtain ⟨qb, hqb⟩ := hb.2 ⟨k, by omega⟩
        obtain ⟨qc, hqc⟩ := hc.2 ⟨k, by omega⟩
        have hla := hqa.length_eq hane
        have hlb := hqb.length_eq hbne
        have hlc := hqc.length_eq hcne
        obtain rfl : qa = qb := by omega
        obtain rfl : qa = qc := by omega
        refine ⟨_, Uniform.of_members (q := qa) ?_⟩
        simp only [forall_mem_cons]
        exact ⟨hqa, hqb, hqc, fun _ h => absurd h not_mem_nil⟩

/-- A turn is even just for the powers of three and their doubles. -/
theorem evenTurn_iff (nodes : List String) (hne : nodes ≠ []) (hnodup : nodes.Nodup) :
    (∃ T, turnLength (buildTree nodes) = some T ∧ EvenTurn (buildTree nodes) T) ↔
      ∃ k, nodes.length = 3 ^ k ∨ nodes.length = 2 * 3 ^ k := by
  rw [← uniform_buildTree_iff hne]
  have hleaves : (buildTree nodes).leaves.Nodup := by rwa [leaves_buildTree]
  obtain ⟨T, hT⟩ := exists_turnLength hne
  rw [← evenTurn_iff_uniform hleaves hT]
  refine ⟨fun h => ?_, fun h => ⟨T, hT, h⟩⟩
  obtain ⟨T', hT', h⟩ := h
  rwa [some.inj (hT.symm.trans hT')]

/-- A turn of nine nodes is even. -/
theorem nine_evenTurn : ["a", "b", "c", "d", "e", "f", "g", "h", "i"].Nodup ∧
    ∃ T, turnLength (buildTree ["a", "b", "c", "d", "e", "f", "g", "h", "i"]) = some T ∧
      EvenTurn (buildTree ["a", "b", "c", "d", "e", "f", "g", "h", "i"]) T :=
  ⟨by decide, (evenTurn_iff _ (cons_ne_nil _ _) (by decide)).2 ⟨2, .inl rfl⟩⟩

lemma buildTree_four : buildTree ["a", "b", "c", "d"] =
    .group [.group [.backend "a", .backend "b"], .group [.backend "c"], .group [.backend "d"]] := by
  rw [buildTree_of_lt (by decide)]
  have hsplit : split3 ["a", "b", "c", "d"] = [["a", "b"], ["c"], ["d"]] := by decide
  simp [hsplit, buildTree_of_le]

/-- A turn of four nodes has six epochs, of which one of the nodes leads two and another one. -/
theorem four_not_evenTurn : turnLength (buildTree ["a", "b", "c", "d"]) = some 6 ∧
    hits (Leads (buildTree ["a", "b", "c", "d"]) "a") 0 6 = 1 ∧
    hits (Leads (buildTree ["a", "b", "c", "d"]) "c") 0 6 = 2 := by
  rw [buildTree_four]
  decide +kernel

end SocioWorkspace.Holographic
