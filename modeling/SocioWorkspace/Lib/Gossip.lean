import Mathlib

/-!
# Sets that are read, joined and replaced

Some processes keep a set on several replicas. A process reads replicas, joins what it has read with something
of its own, and puts the join in place of what replicas hold.
-/

namespace SocioWorkspace.Gossip
open List

/-- The events of a trace that are a read or a write: the process and the replica. -/
structure Access (ι N E : Type) where
  read : E → Option (ι × N)
  write : E → Option (ι × N)

section
variable {ι N E α : Type} [DecidableEq N] (acc : Access ι N E)

def writer (n : N) (e : E) : Option ι := (acc.write e).bind fun p => if p.2 = n then some p.1 else none

def holder (n : N) (tr : List E) : Option ι := (tr.filterMap (writer acc n)).getLast?

/-- A process reads a replica that another one wrote last. -/
def ReadsFrom (tr : List E) (j w : ι) : Prop :=
  ∃ pre e post n, tr = pre ++ e :: post ∧ acc.read e = some (j, n) ∧ holder acc n pre = some w

/-- A process reads a replica that was not written yet. -/
def ReadsInitial (tr : List E) (j : ι) (n : N) : Prop :=
  ∃ pre e post, tr = pre ++ e :: post ∧ acc.read e = some (j, n) ∧ holder acc n pre = none

def content (init : N → Set α) (published : ι → Set α) (n : N) (tr : List E) : Set α :=
  (holder acc n tr).elim (init n) published

/-- Every process puts the join of its own and of what it has read, after all its reads. -/
structure Joins (tr : List E) (own : ι → Set α) (init : N → Set α) (published : ι → Set α) :
    Prop where
  ordered : ∀ pre e post, tr = pre ++ e :: post → ∀ j n, acc.write e = some (j, n) →
    ∀ e' ∈ post, ∀ m, acc.read e' ≠ some (j, m)
  join : ∀ j x, x ∈ published j ↔ x ∈ own j ∨ ∃ pre e post n, tr = pre ++ e :: post ∧
    acc.read e = some (j, n) ∧ x ∈ content acc init published n pre

/-- A process has read from the own set of another, or from an initial one, through a chain. -/
def Knows (tr : List E) (own : ι → Set α) (init : N → Set α) (j : ι) (x : α) : Prop :=
  ∃ w, Relation.ReflTransGen (ReadsFrom acc tr) j w ∧ (x ∈ own w ∨ ∃ n, ReadsInitial acc tr w n ∧ x ∈ init n)

variable {acc} {tr : List E} {own : ι → Set α} {init : N → Set α} {published : ι → Set α}

lemma exists_of_holder {n w} (h : holder acc n tr = some w) :
    ∃ pre e post, tr = pre ++ e :: post ∧ acc.write e = some (w, n) := by
  obtain ⟨e, hmem, he⟩ := mem_filterMap.1 (mem_of_getLast? h)
  obtain ⟨pre, post, rfl⟩ := append_of_mem hmem
  refine ⟨pre, e, post, rfl, ?_⟩
  obtain ⟨⟨i, m⟩, hwrite, hi⟩ := Option.bind_eq_some_iff.1 he
  split_ifs at hi with hm
  cases hi
  obtain rfl : m = n := hm
  exact hwrite

variable {x : α}

lemma Knows.head {j w} (h : ReadsFrom acc tr j w) (hw : Knows acc tr own init w x) :
    Knows acc tr own init j x := by
  obtain ⟨v, hv, hx⟩ := hw
  exact ⟨v, .head h hv, hx⟩

section
variable (h : Joins acc tr own init published)
include h

/-- The reads of a process come before its writes. -/
lemma Joins.length_le {pre post pre' post' e e'}
    {j n m} (hw : tr = pre ++ e :: post) (he : acc.write e = some (j, n))
    (hr : tr = pre' ++ e' :: post') (he' : acc.read e' = some (j, m)) : pre'.length ≤ pre.length := by
  by_contra hlt
  rw [hw] at hr
  rcases append_eq_append_iff.1 hr with ⟨mid, rfl, hmid⟩ | ⟨mid, rfl, hmid⟩
  · cases mid with
    | nil => exact hlt (by simp)
    | cons c mid =>
      obtain ⟨rfl, rfl⟩ := cons.inj hmid
      exact h.ordered _ _ _ hw j n he e' (by simp) m he'
  · exact hlt (by simp)

/-- What a replica holds was known to the process that wrote it; by induction on the trace before. -/
lemma Joins.knows_of_content (len : ℕ) :
    ∀ {pre post : List E} {n w}, pre.length = len → tr = pre ++ post →
      holder acc n pre = some w → x ∈ published w → Knows acc tr own init w x := by
  induction len using Nat.strong_induction_on with
  | _ len ih =>
    intro pre post n w hlen htr hholder hx
    obtain ⟨pre₁, e, post₁, rfl, he⟩ := exists_of_holder hholder
    cases (h.join w x).1 hx with
    | inl hown => exact ⟨w, .refl, .inl hown⟩
    | inr hread =>
      obtain ⟨pre₂, e', post₂, m, htr', he', hx'⟩ := hread
      -- the read is before the write that `w` is the holder by, so the induction applies to it
      have hle := h.length_le (htr.trans (append_assoc ..)) he htr' he'
      have hshort : pre₂.length < len := by
        rw [← hlen, length_append, length_cons]
        omega
      cases hm : holder acc m pre₂ with
      | none =>
        rw [content, hm] at hx'
        exact ⟨w, .refl, .inr ⟨m, ⟨pre₂, e', post₂, htr', he', hm⟩, hx'⟩⟩
      | some v =>
        rw [content, hm] at hx'
        exact (ih _ hshort rfl htr' hm hx').head ⟨pre₂, e', post₂, m, htr', he', hm⟩

lemma Joins.published_of_knows {j} (hj : Knows acc tr own init j x) : x ∈ published j := by
  obtain ⟨w, hchain, hx⟩ := hj
  induction hchain using Relation.ReflTransGen.head_induction_on with
  | refl =>
    cases hx with
    | inl hown => exact (h.join w x).2 (.inl hown)
    | inr hinit =>
      obtain ⟨n, ⟨pre, e, post, htr, he, hn⟩, hx⟩ := hinit
      refine (h.join w x).2 (.inr ⟨pre, e, post, n, htr, he, ?_⟩)
      rw [content, hn]
      exact hx
  | head hread _ ih =>
    obtain ⟨pre, e, post, n, htr, he, hn⟩ := hread
    refine (h.join _ x).2 (.inr ⟨pre, e, post, n, htr, he, ?_⟩)
    rw [content, hn]
    exact ih

/-- A replica holds just what the process that wrote it knows. -/
theorem Joins.mem_content_iff {n w} (hn : holder acc n tr = some w) :
    x ∈ content acc init published n tr ↔ Knows acc tr own init w x := by
  rw [content, hn]
  exact ⟨h.knows_of_content _ rfl (append_nil tr).symm hn, h.published_of_knows⟩

end

end

end SocioWorkspace.Gossip
