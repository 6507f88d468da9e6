import SocioWorkspace.Lib.Forest
import SocioWorkspace.Lib.Sha256
import SocioWorkspace.Regis.Chain

/-!
# Replay of the Regis decision ledger

`replay` of `gbrg/crates/regis-core/src/ledger.rs` computes the connected components of the hypergraph whose
hyperedges are the subject lists of the surviving merges. The union-find structure is read as a forest
(`Represents`), and each operation has one lemma that says what forest it leaves.
-/

namespace SocioWorkspace.Regis
open Forest Relation List SortedMap UnionFind

/-- The clusters are the components of the graph, each sorted and keyed by a member. -/
structure Components (V : String → Prop) (E : String → String → Prop)
    (clusters : SortedMap String (List String)) : Prop where
  covers : ∀ x, V x ↔ ∃ k c, clusters.get? k = some c ∧ x ∈ c
  disjoint : ∀ k k' c c' x, clusters.get? k = some c → clusters.get? k' = some c' → x ∈ c → x ∈ c' → k = k'
  linked : ∀ k c x y, clusters.get? k = some c → x ∈ c → (y ∈ c ↔ V y ∧ EqvGen E x y)
  sorted : ∀ k c, clusters.get? k = some c → c.Pairwise (· < ·)
  keyed : ∀ k c, clusters.get? k = some c → k ∈ c

lemma sort_perm (l : List String) : (sort l).Perm l := perm_insertionSort (· ≤ ·) l

lemma sort_lt {l} (h : l.Nodup) : (sort l).Pairwise (· < ·) :=
  (pairwise_insertionSort (· ≤ ·) l).imp₂ (fun _ _ => lt_of_le_of_ne)
    ((sort_perm l).nodup_iff.mpr h)

section
variable {uf : UnionFind} {V : String → Prop} {E : String → String → Prop}

lemma get?_insert_eq (m : SortedMap String String) (k v) :
    (m.insert k v).get? = Function.update m.get? k (some v) := by
  funext l
  rw [get?_insert, Function.update_apply]

lemma add_of_mem {x y} (h : uf.parent.get? x = some y) : uf.add x = uf := by
  unfold add
  rw [h]
  exact if_pos rfl

lemma add_of_new {x} (h : uf.parent.get? x = none) :
    (uf.add x).parent.get? = Function.update uf.parent.get? x (some x) := by
  unfold add
  rw [h, if_neg (by simp)]
  exact get?_insert_eq ..

lemma add_represents (h : Represents uf.parent.get? V E) (x) :
    Represents (uf.add x).parent.get? (fun y => V y ∨ y = x) E := by
  cases hx : uf.parent.get? x with
  | none =>
    rw [add_of_new hx]
    exact h.add hx
  | some y =>
    rw [add_of_mem hx]
    have vx : V x := (h.nodes x).mp (by rw [hx]; rfl)
    exact h.congr (fun y => (or_iff_left_of_imp fun e => e ▸ vx).symm) fun _ _ => Iff.rfl

lemma add_root {x y r} (h : Root uf.parent.get? y r) : Root (uf.add x).parent.get? y r := by
  cases hx : uf.parent.get? x with
  | none =>
    rw [add_of_new hx]
    exact h.add hx
  | some z =>
    rw [add_of_mem hx]
    exact h

lemma findLoop_eq {parent n x r} (h : RootIn parent.get? n x r) {fuel}
    (hf : n < fuel) : findLoop parent fuel x = .ok r := by
  induction h generalizing fuel with
  | here h =>
    cases fuel with
    | zero => cases hf
    | succ fuel => rw [findLoop, h]; simp
  | up h ne _ ih =>
    cases fuel with
    | zero => cases hf
    | succ fuel =>
      rw [findLoop, h]
      simp only
      rw [if_neg ne]
      exact ih (Nat.lt_of_succ_lt_succ hf)

lemma find_represents (h : Represents uf.parent.get? V E) (x) :
    ∃ r, uf.find x = .ok (r, uf.add x) ∧ Root (uf.add x).parent.get? x r := by
  obtain ⟨r, n, hr⟩ := (add_represents h x).rooted x (.inr rfl)
  have hn : n < (uf.add x).parent.keys.length :=
    hr.lt_length fun y hy => mem_keys_iff.mpr (Option.isSome_iff_exists.mp hy)
  refine ⟨r, ?_, n, hr⟩
  show (findLoop (uf.add x).parent (uf.add x).parent.keys.length x).bind _ = _
  rw [findLoop_eq hr hn]
  rfl

lemma union_represents (h : Represents uf.parent.get? V E) (a b) :
    ∃ uf', uf.union a b = .ok uf' ∧ Represents uf'.parent.get? (fun y => (V y ∨ y = a) ∨ y = b)
      (fun x y => E x y ∨ x = a ∧ y = b) := by
  obtain ⟨ra, ea, ha⟩ := find_represents h a
  have h' := add_represents h a
  obtain ⟨rb, eb, hb⟩ := find_represents h' b
  have h'' := add_represents h' b
  -- the first argument keeps its root when the second one is added
  have ha' := add_root (x := b) ha
  have eq : uf.union a b = .ok (if ra ≠ rb then ⟨((uf.add a).add b).parent.insert ra rb⟩
      else (uf.add a).add b) := by
    unfold UnionFind.union
    rw [ea]
    show (find _ b).bind _ = _
    rw [eb]
    rfl
  refine ⟨_, eq, ?_⟩
  by_cases e : ra = rb
  · rw [if_neg (not_not.mpr e)]
    exact h''.join ha' (e ▸ hb)
  · rw [if_pos e]
    rw [get?_insert_eq]
    exact h''.link ha' hb e

lemma unionAll_represents {first} (rest : List String) (h : Represents uf.parent.get? V E) (hf : V first) :
    ∃ uf', unionAll first uf rest = .ok uf' ∧ Represents uf'.parent.get? (fun y => V y ∨ y ∈ rest)
      (fun x y => E x y ∨ x = first ∧ y ∈ rest) := by
  induction rest generalizing uf V E with
  | nil => exact ⟨uf, rfl, h.congr (by simp) (by simp)⟩
  | cons s rest ih =>
    obtain ⟨uf₁, e₁, h₁⟩ := union_represents h first s
    obtain ⟨uf₂, e₂, h₂⟩ := ih h₁ (.inl (.inl hf))
    refine ⟨uf₂, ?_, h₂.congr (fun y => ?_) fun x y => ?_⟩
    · rw [unionAll, e₁]
      exact e₂
    · have := fun e : y = first => e ▸ hf
      simp only [mem_cons]
      tauto
    · simp only [mem_cons]
      tauto

/-- The edges from the first subject and those between any two subjects have the same chains. -/
lemma joinSubjects_represents (subjects : List String) (h : Represents uf.parent.get? V E) :
    ∃ uf', joinSubjects uf subjects = .ok uf' ∧
      Represents uf'.parent.get? (fun y => V y ∨ y ∈ subjects)
        (fun x y => E x y ∨ x ∈ subjects ∧ y ∈ subjects) := by
  cases subjects with
  | nil => exact ⟨uf, rfl, h.congr (by simp) (by simp)⟩
  | cons first rest =>
    obtain ⟨uf', e, h'⟩ := unionAll_represents rest (add_represents h first) (.inr rfl)
    refine ⟨uf', e, ?_⟩
    have h'' : Represents uf'.parent.get? (fun y => V y ∨ y ∈ first :: rest)
        (fun x y => E x y ∨ x = first ∧ y ∈ rest) :=
      h'.congr (by simp [or_assoc]) fun _ _ => Iff.rfl
    have star : ∀ x ∈ first :: rest, EqvGen (fun x y => E x y ∨ x = first ∧ y ∈ rest) first x := by
      intro x hx
      cases mem_cons.mp hx with
      | inl e => rw [e]; exact .refl first
      | inr hx => exact .rel _ _ (.inr ⟨rfl, hx⟩)
    refine h''.of_chains (fun x y e => ?_) (fun x y e => ?_) fun x y e => ?_
    · cases e with
      | inl e => exact .rel _ _ (.inl e)
      | inr e => exact .rel _ _ (.inr ⟨by simp [e.1], by simp [e.2]⟩)
    · cases e with
      | inl e => exact .rel _ _ (.inl e)
      | inr e => exact ((star x e.1).symm).trans _ _ _ (star y e.2)
    · cases e with
      | inl e => exact ⟨.inl (h.edges x y e).1, .inl (h.edges x y e).2⟩
      | inr e => exact ⟨.inr e.1, .inr e.2⟩

section
variable (reversed : List String)

/-- A merge that no entry of the list `reversed` reverses. -/
def Kept (m : DecisionLedgerEntry) : Prop := m.op = .merge ∧ m.entryId ∉ reversed

def KeptSubject (entries : List DecisionLedgerEntry) (x : String) : Prop :=
  ∃ m ∈ entries, Kept reversed m ∧ x ∈ m.subjects

def KeptPair (entries : List DecisionLedgerEntry) (x y : String) : Prop :=
  ∃ m ∈ entries, Kept reversed m ∧ x ∈ m.subjects ∧ y ∈ m.subjects

end

lemma replayLoop_represents (reversed) (entries : List DecisionLedgerEntry)
    (h : Represents uf.parent.get? V E) :
    ∃ uf', replayLoop reversed uf entries = .ok uf' ∧
      Represents uf'.parent.get? (fun x => V x ∨ KeptSubject reversed entries x)
        (fun x y => E x y ∨ KeptPair reversed entries x y) := by
  unfold KeptSubject KeptPair
  induction entries generalizing uf V E with
  | nil => exact ⟨uf, rfl, h.congr (by simp) (by simp)⟩
  | cons e rest ih =>
    by_cases hk : Kept reversed e
    · obtain ⟨uf₁, e₁, h₁⟩ := joinSubjects_represents e.subjects h
      obtain ⟨uf₂, e₂, h₂⟩ := ih h₁
      refine ⟨uf₂, ?_, h₂.congr (by simp [hk, or_assoc]) (by simp [hk, or_assoc])⟩
      rw [replayLoop]
      refine (if_pos hk).trans ?_
      rw [e₁]
      exact e₂
    · obtain ⟨uf₁, e₁, h₁⟩ := ih h
      refine ⟨uf₁, ?_, h₁.congr (by simp [hk]) (by simp [hk])⟩
      rw [replayLoop]
      exact (if_neg hk).trans e₁

/-- The clusters hold the keys `ks` under their roots. -/
structure Gathered (p : String → Option String) (ks : List String)
    (out : SortedMap String (List String)) : Prop where
  members : ∀ r x, x ∈ (out.get? r).getD [] ↔ x ∈ ks ∧ Root p x r
  nodup : ∀ r, ((out.get? r).getD []).Nodup
  nonempty : ∀ r c, out.get? r = some c → c ≠ []

lemma gathered_empty (p) : Gathered p [] .empty where
  members r x := by simp [get?_empty]
  nodup r := by simp [get?_empty]
  nonempty r c h := by simp [get?_empty] at h

lemma get?_pushKey (out : SortedMap String (List String)) (r k s) :
    (pushKey out r k).get? s =
      if s = r then some ((out.get? r).getD [] ++ [k]) else out.get? s :=
  get?_insert ..

lemma Gathered.pushKey {p ks out k r} (h : Gathered p ks out) (hr : Root p k r) (hk : k ∉ ks) :
    Gathered p (k :: ks) (pushKey out r k) := by
  have absent : k ∉ (out.get? r).getD [] := fun hm => hk ((h.members r k).mp hm).1
  refine ⟨fun s x => ?_, fun s => ?_, fun s c hc => ?_⟩
  · rw [get?_pushKey]
    by_cases e : s = r
    · rw [if_pos e, e, Option.getD_some, mem_append, h.members, mem_singleton,
        mem_cons, or_and_right, or_comm]
      exact or_congr_left (iff_self_and.mpr fun e => e ▸ hr)
    · rw [if_neg e, h.members, mem_cons, or_and_right, or_iff_right]
      intro hx
      exact e ((hx.1 ▸ hx.2).unique hr)
  · rw [get?_pushKey]
    by_cases e : s = r
    · rw [if_pos e, Option.getD_some]
      exact (h.nodup r).append (nodup_singleton k) (disjoint_singleton.mpr absent)
    · rw [if_neg e]
      exact h.nodup s
  · rw [get?_pushKey] at hc
    by_cases e : s = r
    · rw [if_pos e] at hc
      cases hc
      simp
    · rw [if_neg e] at hc
      exact h.nonempty s c hc

lemma clustersLoop_gathered {out ks} (keys : List String) (h : Represents uf.parent.get? V E)
    (hg : Gathered uf.parent.get? ks out) (hv : ∀ k ∈ keys, V k) (hd : (keys ++ ks).Nodup) :
    ∃ out', clustersLoop uf out keys = .ok out' ∧
      Gathered uf.parent.get? (keys.reverse ++ ks) out' := by
  induction keys generalizing out ks with
  | nil => exact ⟨out, rfl, hg⟩
  | cons k keys ih =>
    obtain ⟨y, hy⟩ := Option.isSome_iff_exists.mp ((h.nodes k).mpr (hv k mem_cons_self))
    obtain ⟨r, e, hr⟩ := find_represents h k
    rw [add_of_mem hy] at e hr
    have hd' := nodup_cons.mp hd
    have hk : k ∉ ks := fun hm => hd'.1 (mem_append_right keys hm)
    obtain ⟨out', e', hg'⟩ := ih (hg.pushKey hr hk)
      (fun k hk => hv k (mem_cons_of_mem _ hk)) (nodup_middle.mpr hd)
    refine ⟨out', ?_, by simpa using hg'⟩
    rw [clustersLoop, e]
    exact e'

lemma components_of_roots {p : String → Option String} {clusters}
    (h : Represents p V E) (members : ∀ k c, clusters.get? k = some c → ∀ x, x ∈ c ↔ V x ∧ Root p x k)
    (sorted : ∀ k c, clusters.get? k = some c → c.Pairwise (· < ·))
    (nonempty : ∀ k c, clusters.get? k = some c → c ≠ [])
    (found : ∀ x k, Root p x k → ∃ c, clusters.get? k = some c) : Components V E clusters where
  covers x := by
    refine ⟨fun hx => ?_, ?_⟩
    · obtain ⟨r, hr⟩ := h.rooted x hx
      obtain ⟨c, hc⟩ := found x r hr
      exact ⟨r, c, hc, (members r c hc x).mpr ⟨hx, hr⟩⟩
    · intro ⟨k, c, hc, hx⟩
      exact ((members k c hc x).mp hx).1
  disjoint k k' c c' x hc hc' hx hx' := ((members k c hc x).mp hx).2.unique ((members k' c' hc' x).mp hx').2
  linked k c x y hc hx := by
    have hk := ((members k c hc x).mp hx).2
    rw [members k c hc]
    refine and_congr_right fun _ => ⟨fun hy => h.linked x y k hk hy, fun hl => ?_⟩
    exact (h.root_iff hl).mp hk
  sorted := sorted
  keyed k c hc := by
    obtain ⟨x, hx⟩ := exists_mem_of_ne_nil c (nonempty k c hc)
    have hk := ((members k c hc x).mp hx).2.self
    exact (members k c hc k).mpr ⟨h.node hk, hk⟩

lemma clusters_components (keyOrder : KeyOrder) (h : Represents uf.parent.get? V E) :
    ∃ clusters, uf.clusters keyOrder = .ok clusters ∧ Components V E clusters := by
  have perm := keyOrder.perm uf.parent.keys
  have mem_order : ∀ x, x ∈ keyOrder.order uf.parent.keys ↔ V x := by
    intro x
    rw [perm.mem_iff, mem_keys_iff, ← h.nodes, Option.isSome_iff_exists]
  have nodup : (keyOrder.order uf.parent.keys).Nodup := perm.nodup_iff.mpr uf.parent.keys_nodup
  obtain ⟨out, e, hg⟩ := clustersLoop_gathered _ h (gathered_empty _)
    (fun k hk => (mem_order k).mp hk) (by rwa [append_nil])
  have gathered : ∀ k c, (out.map sort).get? k = some c →
      ∃ d, out.get? k = some d ∧ c = sort d := by
    intro k c hc
    rw [get?_map, Option.map_eq_some_iff] at hc
    obtain ⟨d, hd, hc⟩ := hc
    exact ⟨d, hd, hc.symm⟩
  refine ⟨out.map sort, ?_, components_of_roots h ?_ ?_ ?_ ?_⟩
  · unfold clusters
    rw [e]
    rfl
  · intro k c hc x
    obtain ⟨d, hd, rfl⟩ := gathered k c hc
    have hm := hg.members k x
    rw [hd, Option.getD_some, append_nil, mem_reverse, mem_order] at hm
    rw [(sort_perm d).mem_iff, hm]
  · intro k c hc
    obtain ⟨d, hd, rfl⟩ := gathered k c hc
    have hn := hg.nodup k
    rw [hd, Option.getD_some] at hn
    exact sort_lt hn
  · intro k c hc e
    obtain ⟨d, hd, rfl⟩ := gathered k c hc
    exact hg.nonempty k d hd (perm_nil.mp (e ▸ (sort_perm d).symm))
  · intro x k hx
    have hm := (hg.members k x).mpr ⟨by simp [mem_order, h.node hx], hx⟩
    cases hc : out.get? k with
    | none =>
      rw [hc] at hm
      cases hm
    | some c => exact ⟨sort c, by rw [get?_map, hc]; rfl⟩

variable (l : DecisionLedger)

/-- Replay returns the components of the kept merges, whatever the entries are. -/
lemma replay_components (keyOrder : KeyOrder) :
    ∃ clusters, l.replay keyOrder = .ok clusters ∧
      Components (KeptSubject (reversed l.entries) l.entries)
        (KeptPair (reversed l.entries) l.entries) clusters := by
  have h₀ : Represents default.parent.get? (fun _ => False) (fun _ _ => False) := represents_empty
  obtain ⟨uf, e, h⟩ := replayLoop_represents (reversed l.entries) l.entries h₀
  simp only [false_or] at h
  obtain ⟨clusters, e', hc⟩ := clusters_components keyOrder h
  refine ⟨clusters, ?_, hc⟩
  unfold DecisionLedger.replay
  rw [e]
  exact e'

def Surviving (m : DecisionLedgerEntry) : Prop :=
  m ∈ l.entries ∧ m.op = .merge ∧ ∀ u ∈ l.entries, u.op = .unmerge → u.reversesEntryRef ≠ some m.entryId

def Subject (x : String) : Prop := ∃ m, Surviving l m ∧ x ∈ m.subjects

def Merged (x y : String) : Prop := ∃ m, Surviving l m ∧ x ∈ m.subjects ∧ y ∈ m.subjects

end

section
variable {digest : Preimage → String} {l : DecisionLedger}

/-- The entries that reverse one in a built ledger are its unmerges. -/
lemma surviving_iff (h : Built digest l) {m} :
    Surviving l m ↔ m ∈ l.entries ∧ Kept (reversed l.entries) m := by
  refine and_congr_right fun _ => and_congr_right fun _ => ?_
  unfold reversed
  rw [mem_filterMap]
  refine ⟨?_, fun hn u hu _ e => hn ⟨u, hu, e⟩⟩
  rintro hn ⟨u, hu, e⟩
  cases ho : u.op with
  | merge =>
    rw [h.merge_reverses u hu ho] at e
    cases e
  | unmerge => exact hn u hu ho e

lemma surviving_unmerge (h : Built digest l) {m} (hm : m ∈ l.entries) (decisionRef createdAt m') :
    Surviving (l.unmerge digest decisionRef m.entryId createdAt).1 m' ↔
      Surviving l m' ∧ m' ≠ m := by
  obtain ⟨u, eu, ou, ru⟩ : ∃ u, (l.unmerge digest decisionRef m.entryId createdAt).1.entries =
      l.entries ++ [u] ∧ u.op = .unmerge ∧ u.reversesEntryRef = some m.entryId :=
    ⟨_, rfl, rfl, rfl⟩
  unfold Surviving
  rw [eu]
  refine ⟨?_, ?_⟩
  · intro ⟨hm', ho, hn⟩
    cases mem_append.mp hm' with
    | inl hm' =>
      refine ⟨⟨hm', ho, fun v hv => hn v (mem_append_left _ hv)⟩, fun e => ?_⟩
      exact hn u (by simp) ou (e ▸ ru)
    | inr hm' =>
      rw [mem_singleton.mp hm', ou] at ho
      cases ho
  · intro ⟨⟨hm', ho, hn⟩, ne⟩
    refine ⟨mem_append_left _ hm', ho, fun v hv => ?_⟩
    cases mem_append.mp hv with
    | inl hv => exact hn v hv
    | inr hv =>
      rw [mem_singleton.mp hv, ru]
      intro _ e
      exact ne (h.labelled.entryId_inj hm' hm (Option.some.inj e).symm)

/-- Replay of a built ledger returns the components of the surviving merges; one more unmerge removes the
merge that it names and no other. -/
theorem replay_spec (keyOrder : KeyOrder) (h : Built digest l) :
    (∃ clusters, l.replay keyOrder = .ok clusters ∧ Components (Subject l) (Merged l) clusters) ∧
    ∀ m ∈ l.entries, m.op = .merge → ∀ decisionRef createdAt m',
      Surviving (l.unmerge digest decisionRef m.entryId createdAt).1 m' ↔
        Surviving l m' ∧ m' ≠ m := by
  refine ⟨?_, fun m hm _ => surviving_unmerge h hm⟩
  have hs : Subject l = KeptSubject (reversed l.entries) l.entries := by
    funext x
    simp only [Subject, KeptSubject, surviving_iff h, and_assoc]
  have hm : Merged l = KeptPair (reversed l.entries) l.entries := by
    funext x y
    simp only [Merged, KeptPair, surviving_iff h, and_assoc]
  rw [hs, hm]
  exact replay_components l keyOrder

lemma replayLoop_eq (reversed : List String) (uf : UnionFind) (entries : List DecisionLedgerEntry) :
    replayLoop reversed uf entries = ((entries.filter fun e => e.op = .merge ∧ e.entryId ∉ reversed).map
      (·.subjects)).foldlM joinSubjects uf := by
  induction entries generalizing uf with
  | nil => rfl
  | cons e rest ih =>
    rw [replayLoop]
    split
    · rename_i hkept
      rw [filter_cons_of_pos (by simpa using hkept), map_cons, foldlM_cons]
      exact bind_congr ih
    · rename_i hkept
      rw [filter_cons_of_neg (by simpa using hkept), ih]

/-- An unmerge takes back the merge that it names: replay gives what it gave before the merge. -/
theorem replay_unmerge_merge (keyOrder : KeyOrder) (h : Built digest l) (ref subjects ts ref' ts') :
    let m := l.merge digest ref subjects ts
    (m.1.unmerge digest ref' m.2 ts').1.replay keyOrder = l.replay keyOrder := by
  intro m
  -- the merge gets a new id, so the unmerge reverses no other entry
  have hnew : ∀ e ∈ l.entries, e.entryId ≠ m.2 := by
    intro e he heq
    obtain ⟨i, hi, rfl⟩ := mem_iff_getElem.1 he
    rw [h.labelled i _ (getElem?_eq_getElem hi)] at heq
    exact hi.ne (entryId_seq_inj heq)
  have hkept : (l.entries.filter fun e => e.op = .merge ∧ e.entryId ∉ reversed l.entries ++ [m.2]) =
      l.entries.filter fun e => e.op = .merge ∧ e.entryId ∉ reversed l.entries :=
    filter_congr fun e he => by simp [hnew e he]
  have hrev : reversed (m.1.unmerge digest ref' m.2 ts').1.entries = reversed l.entries ++ [m.2] := by
    simp [m, reversed, DecisionLedger.unmerge, DecisionLedger.merge, DecisionLedger.append]
  simp only [DecisionLedger.replay, replayLoop_eq, hrev, ← hkept]
  simp [m, DecisionLedger.unmerge, DecisionLedger.merge, DecisionLedger.append, filter_append]

end

def KeyOrder.ascending : KeyOrder := ⟨fun keys => keys, fun keys => .refl keys⟩

def undone (digest : Preimage → String) : DecisionLedger :=
  let (l, m) := DecisionLedger.new.merge digest "rd_1" ["a", "b"] "2026-08-01T00:00:00Z"
  let (l, _) := l.merge digest "rd_2" ["c", "d"] "2026-08-01T00:00:00Z"
  (l.unmerge digest "rd_undo" m "2026-08-01T00:00:00Z").1

lemma undone_built (digest) : Built digest (undone digest) := .unmerge (.merge (.merge .new ..) ..) ..

theorem replay_spec_undone :
    (∃ clusters, (undone (codeDigest sha256)).replay .ascending = .ok clusters ∧
      Components (Subject (undone (codeDigest sha256))) (Merged (undone (codeDigest sha256)))
        clusters) ∧
    ∀ m ∈ (undone (codeDigest sha256)).entries, m.op = .merge → ∀ decisionRef createdAt m',
      Surviving ((undone (codeDigest sha256)).unmerge (codeDigest sha256) decisionRef m.entryId
        createdAt).1 m' ↔ Surviving (undone (codeDigest sha256)) m' ∧ m' ≠ m :=
  replay_spec .ascending (undone_built (codeDigest sha256))

theorem replay_unmerge_merge_undone :
    let m := (undone (codeDigest sha256)).merge (codeDigest sha256) "rd_3" ["a", "c"] ""
    (m.1.unmerge (codeDigest sha256) "rd_4" m.2 "").1.replay .ascending =
      (undone (codeDigest sha256)).replay .ascending :=
  replay_unmerge_merge .ascending (undone_built (codeDigest sha256)) ..

end SocioWorkspace.Regis
