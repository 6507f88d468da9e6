import SocioWorkspace.Lib.HashChain
import SocioWorkspace.Lib.Json
import SocioWorkspace.Regis.Model

/-!
# The two chains of the Regis decision ledger

`verify_chain` of `gbrg/crates/regis-core/src/ledger.rs` follows two chains at once (`verifyChain_iff`): each
entry names the id of the entry before it, and each entry hash covers the hash before it. The ids are in no
hash.
-/

namespace SocioWorkspace.Regis
open HashChain

/-- What one entry hash is computed from, with the hash. -/
def record (prevHash : Option String) (e : DecisionLedgerEntry) : Preimage × String :=
  (preimage prevHash e.op e.decisionRef e.subjects e.reversesEntryRef, e.entryHash)

def records : Option String → List DecisionLedgerEntry → List (Preimage × String)
  | _, [] => []
  | prevHash, e :: rest => record prevHash e :: records (some e.entryHash) rest

def hashes (digest : Preimage → String) : Link (Preimage × String) (Option String) where
  prev r := r.1.prevHash
  hash r := some r.2
  Intact r := digest r.1 = r.2

def refs : Link DecisionLedgerEntry (Option String) where
  prev e := e.prevEntryRef
  hash e := some e.entryId
  Intact _ := True

section
variable {digest : Preimage → String}

lemma hashes_binding (inj : Function.Injective digest) : Binding (hashes digest) := by
  intro r s hr hs e
  have e₂ : r.2 = s.2 := Option.some.inj e
  have e₁ : digest r.1 = digest s.1 := Eq.trans hr (e₂.trans (Eq.symm hs))
  exact Prod.ext (inj e₁) e₂

lemma verifyLoop_iff {prevHash prevId entries} : verifyLoop digest prevHash prevId entries = true ↔
    Chain refs prevId entries ∧ Chain (hashes digest) prevHash (records prevHash entries) := by
  induction entries generalizing prevHash prevId with
  | nil => exact iff_of_true rfl ⟨trivial, trivial⟩
  | cons e rest ih =>
    show (if e.prevEntryRef ≠ prevId then false
        else if digest (record prevHash e).1 ≠ e.entryHash then false
        else verifyLoop digest (some e.entryHash) (some e.entryId) rest) = true ↔
      (e.prevEntryRef = prevId ∧ True ∧ Chain refs (some e.entryId) rest) ∧
        prevHash = prevHash ∧ digest (record prevHash e).1 = e.entryHash ∧
          Chain (hashes digest) (some e.entryHash) (records (some e.entryHash) rest)
    by_cases hp : e.prevEntryRef = prevId
    · rw [if_neg (not_not.mpr hp)]
      by_cases hh : digest (record prevHash e).1 = e.entryHash
      · rw [if_neg (not_not.mpr hh), ih]
        simp only [hp, hh, true_and]
      · rw [if_pos hh]
        exact iff_of_false Bool.false_ne_true fun h => hh h.2.2.1
    · rw [if_pos hp]
      exact iff_of_false Bool.false_ne_true fun h => hp h.1.1

lemma verifyChain_iff {l : DecisionLedger} : l.verifyChain digest = true ↔
    Chain refs none l.entries ∧ Chain (hashes digest) none (records none l.entries) :=
  verifyLoop_iff

lemma records_snoc (digest) {prevHash entries e} : records prevHash (entries ++ [e]) =
    records prevHash entries ++
      [record (tip (hashes digest) prevHash (records prevHash entries)) e] := by
  induction entries generalizing prevHash with
  | nil => rfl
  | cons e' rest ih => exact congrArg (record prevHash e' :: ·) ih

lemma tip_records (entries : List DecisionLedgerEntry) :
    tip (hashes digest) none (records none entries) = entries.getLast?.map (·.entryHash) := by
  cases entries using List.reverseRecOn with
  | nil => rfl
  | append_singleton entries e =>
    rw [records_snoc digest, tip_snoc, List.getLast?_concat]
    rfl

lemma tip_refs (entries : List DecisionLedgerEntry) :
    tip refs none entries = entries.getLast?.map (·.entryId) := by
  cases entries using List.reverseRecOn with
  | nil => rfl
  | append_singleton entries e =>
    rw [tip_snoc, List.getLast?_concat]
    rfl

/-- Both operations append an entry, and a merge reverses nothing. -/
lemma Built.append_induction {P : DecisionLedger → Prop} (new : P .new)
    (append : ∀ l op decisionRef subjects reverses createdAt, (op = .merge → reverses = none) →
      P l → P (l.append digest op decisionRef subjects reverses createdAt).1)
    {l} (h : Built digest l) : P l := by
  induction h with
  | new => exact new
  | merge _ decisionRef subjects createdAt ih =>
    exact append _ .merge decisionRef subjects none createdAt (fun _ => rfl) ih
  | unmerge _ decisionRef reverses createdAt ih =>
    exact append _ .unmerge decisionRef [] (some reverses) createdAt (fun e => nomatch e) ih

theorem Built.verifyChain {l} (h : Built digest l) : l.verifyChain digest = true := by
  refine h.append_induction (P := fun l => l.verifyChain digest = true) rfl ?_
  intro l op decisionRef subjects reverses createdAt _ ih
  obtain ⟨hr, hh⟩ := verifyChain_iff.mp ih
  refine verifyChain_iff.mpr ⟨?_, ?_⟩
  · exact chain_snoc.mpr ⟨hr, (tip_refs l.entries).symm, trivial⟩
  · show Chain _ _ (records none (l.entries ++ [_]))
    rw [records_snoc digest, tip_records]
    exact chain_snoc.mpr ⟨hh, (tip_records l.entries).symm, rfl⟩

def Labelled (entries : List DecisionLedgerEntry) : Prop :=
  ∀ i e, entries[i]? = some e → e.entryId = entryId i e.entryHash

lemma Labelled.snoc {entries e} (h : Labelled entries)
    (he : e.entryId = entryId entries.length e.entryHash) : Labelled (entries ++ [e]) := by
  intro i e' hi
  rw [List.getElem?_append] at hi
  split at hi
  · exact h i e' hi
  · obtain ⟨hl, rfl⟩ := List.getElem?_eq_some_iff.mp hi
    have hi' : i = entries.length := by
      simp only [List.length_singleton] at hl
      omega
    simp only [hi', Nat.sub_self, List.getElem_cons_zero]
    exact he

theorem Built.labelled {l} (h : Built digest l) : Labelled l.entries := by
  refine h.append_induction (P := fun l => Labelled l.entries) ?_ ?_
  · intro i e hi
    simp [DecisionLedger.new] at hi
  · intro l op decisionRef subjects reverses createdAt _ ih
    exact ih.snoc rfl

lemma Built.merge_reverses {l} (h : Built digest l) :
    ∀ e ∈ l.entries, e.op = .merge → e.reversesEntryRef = none := by
  refine h.append_induction (P := fun l => ∀ e ∈ l.entries, e.op = .merge → e.reversesEntryRef = none) ?_ ?_
  · intro e he
    cases he
  · intro l op decisionRef subjects reverses createdAt hr ih e he
    cases List.mem_append.mp he with
    | inl he => exact ih e he
    | inr he =>
      rw [List.mem_singleton.mp he]
      exact hr
end

/-- The position can be read from the id: digits do not contain the underscore after them. -/
lemma entryId_seq_inj {i j h h'} (e : entryId i h = entryId j h') : i = j := by
  have read : ∀ n rest, (Nat.toDigits 10 n ++ '_' :: rest).takeWhile (·.isDigit) =
      Nat.toDigits 10 n := by
    intro n rest
    rw [List.takeWhile_append_of_pos fun c hc => digits_isDigit hc]
    simp
  have e' := congrArg (fun s : String => (s.toList.drop 3).takeWhile (·.isDigit)) e
  simp only [entryId, String.toList_ofList, List.cons_append, List.drop_succ_cons, List.drop_zero, read] at e'
  exact toDigits_inj e'

theorem Labelled.entryId_inj {entries} (h : Labelled entries) {a b} (ha : a ∈ entries)
    (hb : b ∈ entries) (e : a.entryId = b.entryId) : a = b := by
  obtain ⟨i, hi⟩ := List.mem_iff_getElem?.mp ha
  obtain ⟨j, hj⟩ := List.mem_iff_getElem?.mp hb
  rw [h i a hi, h j b hj] at e
  obtain rfl := entryId_seq_inj e
  exact Option.some.inj (hi.symm.trans hj)

end SocioWorkspace.Regis
