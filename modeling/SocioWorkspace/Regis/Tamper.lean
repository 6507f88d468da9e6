import SocioWorkspace.Lib.Basic
import SocioWorkspace.Regis.Replay

/-!
# Tamper evidence of the Regis decision ledger

Entry lists that pass `verify_chain` of `gbrg/crates/regis-core/src/ledger.rs` with the last hash of
a built ledger, when the digest is injective.

`verified_agrees` compares the entries with those recorded by induction along the chain.
`verifyChain_agrees_iff` says when the replayed clusters agree too, and `verifyChain_relabel` that the ids may
still be changed.
-/

namespace SocioWorkspace.Regis
open HashChain List

/-- The entries are equal in what the hashes cover, and in their hashes. -/
structure Hashed (a b : DecisionLedgerEntry) : Prop where
  op : a.op = b.op
  subjects : a.subjects.Perm b.subjects
  reverses : a.reversesEntryRef = b.reversesEntryRef
  hash : a.entryHash = b.entryHash

/-- The entries are equal in what replay reads, the subjects as sets. -/
structure Agrees (a b : DecisionLedgerEntry) : Prop where
  op : a.op = b.op
  subjects : ∀ x, x ∈ a.subjects ↔ x ∈ b.subjects
  reverses : a.reversesEntryRef = b.reversesEntryRef
  id : a.entryId = b.entryId

def SameClusters (c d : SortedMap String (List String)) : Prop :=
  ∀ cluster, (∃ k, c.get? k = some cluster) ↔ ∃ k, d.get? k = some cluster

lemma hashed_of_record {prevHash a b} (h : record prevHash a = record prevHash b) : Hashed a b := by
  unfold record preimage at h
  simp only [Prod.mk.injEq, Preimage.mk.injEq, true_and] at h
  obtain ⟨⟨op, -, subjects, reverses⟩, hash⟩ := h
  exact ⟨op, (sort_perm _).symm.trans (subjects ▸ sort_perm _), reverses, hash⟩

lemma hashed_of_records {prevHash as bs} (h : records prevHash as = records prevHash bs) :
    List.Forall₂ Hashed as bs := by
  induction as generalizing prevHash bs with
  | nil =>
    cases bs with
    | nil => exact .nil
    | cons b bs => cases h
  | cons a as ih =>
    cases bs with
    | nil => cases h
    | cons b bs =>
      obtain ⟨h₁, h₂⟩ := cons.inj h
      have hab := hashed_of_record h₁
      rw [hab.hash] at h₂
      exact .cons hab (ih h₂)

section
variable {digest : Preimage → String} {l : DecisionLedger} {entries : List DecisionLedgerEntry}

lemma verified_agrees (inj : Function.Injective digest) (h : l.verifyChain digest = true)
    (hv : (DecisionLedger.mk entries).verifyChain digest = true)
    (last : entries.getLast?.map (·.entryHash) = l.entries.getLast?.map (·.entryHash)) :
    List.Forall₂ Hashed entries l.entries := by
  apply hashed_of_records
  refine (verifyChain_iff.mp hv).2.eq_of_tip (hashes_binding inj) ?_ (verifyChain_iff.mp h).2 ?_
  · exact fun _ _ e => nomatch e
  rw [tip_records, tip_records]
  exact last

lemma agrees_iff_labelled (h : List.Forall₂ Hashed entries l.entries) (hl : Labelled l.entries) :
    List.Forall₂ Agrees entries l.entries ↔ Labelled entries := by
  obtain ⟨len, hashed⟩ := forall₂_iff_get.mp h
  -- the id that the ledger gives the entry at a position, from the hash of either list
  have label : ∀ i (h₁ : i < entries.length) (h₂ : i < l.entries.length),
      (l.entries.get ⟨i, h₂⟩).entryId = entryId i (entries.get ⟨i, h₁⟩).entryHash := by
    intro i h₁ h₂
    rw [(hashed i h₁ h₂).hash]
    exact hl i _ (getElem?_eq_getElem h₂)
  refine ⟨fun ha i e hi => ?_, fun hn => forall₂_iff_get.mpr ⟨len, fun i h₁ h₂ => ?_⟩⟩
  · obtain ⟨h₁, rfl⟩ := List.getElem?_eq_some_iff.mp hi
    exact ((forall₂_iff_get.mp ha).2 i h₁ (len ▸ h₁)).id.trans (label i h₁ (len ▸ h₁))
  · have hh := hashed i h₁ h₂
    refine ⟨hh.op, fun x => hh.subjects.mem_iff, hh.reverses, ?_⟩
    rw [label i h₁ h₂]
    exact hn i _ (getElem?_eq_getElem h₁)

lemma reversed_eq {as bs} (h : List.Forall₂ Agrees as bs) : reversed as = reversed bs :=
  Lists.filterMap_eq h fun _ _ hab => hab.reverses

lemma Agrees.kept {a b} (h : Agrees a b) (reversed) : Kept reversed a ↔ Kept reversed b := by
  unfold Kept
  rw [h.op, h.id]

lemma Components.same {V E c d} (hc : Components V E c) (hd : Components V E d) : SameClusters c d := by
  have sub : ∀ {c d}, Components V E c → Components V E d → ∀ cluster,
      (∃ k, c.get? k = some cluster) → ∃ k, d.get? k = some cluster := by
    intro c d hc hd cluster ⟨k, hk⟩
    have mem := hc.keyed k cluster hk
    obtain ⟨k', cluster', hk', mem'⟩ := (hd.covers k).mp ((hc.covers k).mpr ⟨k, cluster, hk, mem⟩)
    have e : cluster = cluster' := by
      refine (hc.sorted k cluster hk).eq_of_mem_iff (hd.sorted k' cluster' hk') fun y => ?_
      rw [hc.linked k cluster k y hk mem, hd.linked k' cluster' k y hk' mem']
    exact ⟨k', e ▸ hk'⟩
  exact fun cluster => ⟨sub hc hd cluster, sub hd hc cluster⟩

lemma Agrees.same_clusters (h : List.Forall₂ Agrees entries l.entries) (keyOrder keyOrder') :
    ∃ c d, (DecisionLedger.mk entries).replay keyOrder = .ok c ∧ l.replay keyOrder' = .ok d ∧
      SameClusters c d := by
  obtain ⟨c, ec, hc⟩ := replay_components ⟨entries⟩ keyOrder
  obtain ⟨d, ed, hd⟩ := replay_components l keyOrder'
  have hV : KeptSubject (reversed entries) entries =
      KeptSubject (reversed l.entries) l.entries := by
    funext x
    rw [reversed_eq h]
    exact propext (Lists.exists_mem_iff h fun a b hab => and_congr (hab.kept _) (hab.subjects x))
  have hE : KeptPair (reversed entries) entries = KeptPair (reversed l.entries) l.entries := by
    funext x y
    rw [reversed_eq h]
    exact propext (Lists.exists_mem_iff h fun a b hab =>
      and_congr (hab.kept _) (and_congr (hab.subjects x) (hab.subjects y)))
  rw [← hV, ← hE] at hd
  exact ⟨c, d, ec, ed, hc.same hd⟩

/-- A verified list with the last hash of a built ledger replays as the ledger exactly if its ids are those
that `append` gives. The lists need not be assumed to have one length. -/
theorem verifyChain_agrees_iff (inj : Function.Injective digest) (keyOrder keyOrder' : KeyOrder)
    (h : Built digest l) (hv : (DecisionLedger.mk entries).verifyChain digest = true)
    (last : entries.getLast?.map (·.entryHash) = l.entries.getLast?.map (·.entryHash)) :
    (List.Forall₂ Agrees entries l.entries ∧
      ∃ c d, (DecisionLedger.mk entries).replay keyOrder = .ok c ∧ l.replay keyOrder' = .ok d ∧
        SameClusters c d) ↔
    Labelled entries := by
  have hh := verified_agrees inj h.verifyChain hv last
  rw [← agrees_iff_labelled hh h.labelled]
  exact and_iff_left_of_imp fun ha => Agrees.same_clusters ha keyOrder keyOrder'
end

/-- A digest that binds all it covers: the text of a JSON array. -/
def tupleDigest (t : Preimage) : String :=
  .ofList (Json.arr [optional t.prevHash, .str t.op.debug, .str t.decisionRef,
    .arr (t.subjects.map .str), optional t.reverses]).print
where
  optional : Option String → Json
  | none => .null
  | some s => .str s

def reordered : List DecisionLedgerEntry :=
  (undone tupleDigest).entries.map fun e => { e with subjects := e.subjects.reverse }

lemma tupleDigest_injective : Function.Injective tupleDigest := by
  intro s t h
  have optional_inj : ∀ a b, tupleDigest.optional a = tupleDigest.optional b → a = b := by
    intro a b e
    cases a <;> cases b <;> cases e <;> rfl
  have debug_inj : ∀ a b : LedgerOp, a.debug = b.debug → a = b := by
    intro a b e
    cases a <;> cases b <;> first | rfl | exact absurd e (by decide)
  have str_inj : Function.Injective Json.str := fun _ _ => Json.str.inj
  have e := Json.print_injective (String.ofList_injective h)
  simp only [Json.arr.injEq, cons.injEq, Json.str.injEq, and_true] at e
  obtain ⟨prevHash, op, decisionRef, subjects, reverses⟩ := e
  exact Preimage.ext (optional_inj _ _ prevHash) (debug_inj _ _ op) decisionRef
    (str_inj.list_map subjects) (optional_inj _ _ reverses)

theorem verifyChain_agrees_iff_reordered :
    ∃ c d, (DecisionLedger.mk reordered).replay .ascending = .ok c ∧
      (undone tupleDigest).replay .ascending = .ok d ∧ SameClusters c d := by
  have labelled : Labelled reordered := by
    intro i e hi
    unfold reordered at hi
    rw [getElem?_map, Option.map_eq_some_iff] at hi
    obtain ⟨e', hi', rfl⟩ := hi
    exact (undone_built tupleDigest).labelled i e' hi'
  have last : reordered.getLast?.map (·.entryHash) =
      (undone tupleDigest).entries.getLast?.map (·.entryHash) := by
    rw [reordered, getLast?_map, Option.map_map]
    rfl
  exact ((verifyChain_agrees_iff tupleDigest_injective .ascending .ascending
    (undone_built tupleDigest) (by decide +kernel) last).mpr labelled).2

def DecisionLedgerEntry.relabel (f : String → String) (e : DecisionLedgerEntry) :
    DecisionLedgerEntry :=
  { e with entryId := f e.entryId, prevEntryRef := e.prevEntryRef.map f }

lemma records_relabel (f prevHash entries) :
    records prevHash (entries.map (·.relabel f)) = records prevHash entries := by
  induction entries generalizing prevHash with
  | nil => rfl
  | cons e rest ih => exact congrArg (record prevHash e :: ·) (ih (some e.entryHash))

lemma refs_relabel (f) {prevId entries} (h : Chain refs prevId entries) :
    Chain refs (prevId.map f) (entries.map (·.relabel f)) := by
  induction entries generalizing prevId with
  | nil => trivial
  | cons e rest ih => exact ⟨congrArg (Option.map f) h.1, trivial, ih h.2.2⟩

/-- The check does not notice ids that change together with the references to them. -/
theorem verifyChain_relabel {digest} {l : DecisionLedger} (h : l.verifyChain digest = true) (f) :
    (DecisionLedger.mk (l.entries.map (·.relabel f))).verifyChain digest = true := by
  obtain ⟨hr, hh⟩ := verifyChain_iff.mp h
  refine verifyChain_iff.mpr ⟨refs_relabel f hr, ?_⟩
  rw [records_relabel]
  exact hh

def swappedIds : List DecisionLedgerEntry :=
  (undone tupleDigest).entries.map (·.relabel
    (Equiv.swap (undone tupleDigest).entries[0].entryId (undone tupleDigest).entries[1].entryId))

/-- With the ids of two merges exchanged, an unmerge reverses the other one, and the check passes. -/
theorem swappedIds_accepted :
    Function.Injective tupleDigest ∧ Built tupleDigest (undone tupleDigest) ∧
      (DecisionLedger.mk swappedIds).verifyChain tupleDigest = true ∧
      swappedIds.length = (undone tupleDigest).entries.length ∧
      swappedIds.getLast?.map (·.entryHash) = (undone tupleDigest).entries.getLast?.map (·.entryHash) ∧
      ¬List.Forall₂ Agrees swappedIds (undone tupleDigest).entries ∧
      ((undone tupleDigest).replay .ascending).toOption.map (·.members) =
        some [("d", ["c", "d"])] ∧
      ((DecisionLedger.mk swappedIds).replay .ascending).toOption.map (·.members) =
        some [("b", ["a", "b"])] := by
  refine ⟨tupleDigest_injective, undone_built _, ?_, length_map .., ?_, fun h => ?_,
    by decide +kernel, by decide +kernel⟩
  · exact verifyChain_relabel (undone_built tupleDigest).verifyChain _
  · rw [swappedIds, getLast?_map, Option.map_map]
    rfl
  · cases h with
    | cons h _ =>
      -- the first entry has the id of the second one
      have e := (Equiv.swap_apply_left _ _).symm.trans h.id
      exact absurd (entryId_seq_inj e) (by decide)

end SocioWorkspace.Regis
