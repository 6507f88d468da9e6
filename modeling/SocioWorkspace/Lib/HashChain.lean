import Mathlib

/-!
# Hash chains

A chain of records each of which names the hash of the record before it, the first one naming an
anchor. Nothing is said about what a hash is: a record has a `prev` and a `hash`, and `Intact` says
that its hash is the right one for its content.
-/

namespace SocioWorkspace.HashChain
universe u v

structure Link (R : Type u) (H : Type v) where
  prev : R → H
  hash : R → H
  Intact : R → Prop

section
variable {R : Type u} {H : Type v} (K : Link R H)

/-- The records are intact and each names the hash of the one before it, the first one `g`. -/
def Chain : H → List R → Prop
  | _, [] => True
  | g, r :: rs => K.prev r = g ∧ K.Intact r ∧ Chain (K.hash r) rs

/-- The hash that the record after the list has to name. -/
def tip : H → List R → H
  | g, [] => g
  | _, r :: rs => tip (K.hash r) rs

/-- Intact records with one hash are one record. -/
def Binding : Prop := ∀ r s, K.Intact r → K.Intact s → K.hash r = K.hash s → r = s

/-- No intact record has the hash `g`. -/
def Fresh (g : H) : Prop := ∀ r, K.Intact r → K.hash r ≠ g

variable {K}

@[simp] lemma tip_append {g rs ss} : tip K g (rs ++ ss) = tip K (tip K g rs) ss := by
  induction rs generalizing g with
  | nil => rfl
  | cons r rs ih => exact ih

@[simp] lemma tip_snoc {g rs r} : tip K g (rs ++ [r]) = K.hash r := by
  rw [tip_append]
  rfl

lemma chain_append {g rs ss} : Chain K g (rs ++ ss) ↔ Chain K g rs ∧ Chain K (tip K g rs) ss := by
  induction rs generalizing g with
  | nil => exact (iff_of_eq (true_and _)).symm
  | cons r rs ih =>
    show _ ∧ _ ∧ Chain K _ (rs ++ ss) ↔ (_ ∧ _ ∧ _) ∧ Chain K (tip K _ rs) ss
    rw [ih, and_assoc, and_assoc]

lemma chain_snoc {g rs r} : Chain K g (rs ++ [r]) ↔ Chain K g rs ∧ K.prev r = tip K g rs ∧ K.Intact r := by
  rw [chain_append]
  show _ ∧ _ ∧ _ ∧ True ↔ _
  rw [and_true]

lemma Chain.of_isPrefix {g rs ss} (h : Chain K g ss) (p : rs <+: ss) : Chain K g rs := by
  obtain ⟨ts, rfl⟩ := p
  exact (chain_append.mp h).1

/-- The last hash determines the chain. -/
theorem Chain.eq_of_tip (bind : Binding K) {g} (fresh : Fresh K g) {rs ss} (hr : Chain K g rs)
    (hs : Chain K g ss) (e : tip K g rs = tip K g ss) : rs = ss := by
  -- from the end of the chains back to the anchor, one record at a time
  induction rs using List.reverseRecOn generalizing ss with
  | nil =>
    cases ss using List.reverseRecOn with
    | nil => rfl
    | append_singleton ss s =>
      rw [tip_snoc] at e
      exact absurd e.symm (fresh s (chain_snoc.mp hs).2.2)
  | append_singleton rs r ih =>
    obtain ⟨hr, pr, ir⟩ := chain_snoc.mp hr
    cases ss using List.reverseRecOn with
    | nil =>
      rw [tip_snoc] at e
      exact absurd e (fresh r ir)
    | append_singleton ss s =>
      obtain ⟨hs', ps, is⟩ := chain_snoc.mp hs
      rw [tip_snoc, tip_snoc] at e
      obtain rfl := bind r s ir is e
      rw [ih hr hs' (pr.symm.trans ps)]

/-- The records of a chain, taken in any order and number, are a chain only as an initial part. -/
theorem Chain.iff_isPrefix (bind : Binding K) {g} (fresh : Fresh K g) {rs ss} (h : Chain K g rs)
    (sub : ∀ s ∈ ss, s ∈ rs) : Chain K g ss ↔ ss <+: rs := by
  refine ⟨fun hs => ?_, h.of_isPrefix⟩
  induction ss using List.reverseRecOn with
  | nil => exact List.nil_prefix
  | append_singleton ss s ih =>
    obtain ⟨hs, ps, -⟩ := chain_snoc.mp hs
    -- the records before `s` in the chain end where `ss` ends, so they are `ss`
    obtain ⟨as, bs, rfl⟩ := List.append_of_mem (sub s (by simp))
    obtain ⟨ha, hb⟩ := chain_append.mp h
    have e : tip K g as = tip K g ss := hb.1.symm.trans ps
    obtain rfl := ha.eq_of_tip bind fresh hs e
    exact ⟨bs, by simp⟩
end

end SocioWorkspace.HashChain
