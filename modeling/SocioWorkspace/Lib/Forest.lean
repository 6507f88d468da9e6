import Mathlib

/-!
# Parent-pointer forests

A partial map `p` from nodes to parents, in which a root is its own parent. `Root p x r` says that
following the parents from `x` ends in the root `r`.
-/

namespace SocioWorkspace.Forest
open Relation Function
universe u

variable {α : Type u} {p : α → Option α}

/-- The root `r` is reached from `x` in `n` steps. -/
inductive RootIn (p : α → Option α) : Nat → α → α → Prop where
  | here {r} (h : p r = some r) : RootIn p 0 r r
  | up {n x y r} (h : p x = some y) (ne : y ≠ x) (t : RootIn p n y r) : RootIn p (n + 1) x r

def Root (p : α → Option α) (x r : α) : Prop := ∃ n, RootIn p n x r

lemma RootIn.unique {n m x r s} (h : RootIn p n x r) (h' : RootIn p m x s) : n = m ∧ r = s := by
  induction h generalizing m with
  | here h =>
    cases h' with
    | here h' => exact ⟨rfl, rfl⟩
    | up h' ne t =>
      rw [h] at h'
      cases h'
      exact absurd rfl ne
  | up h ne t ih =>
    cases h' with
    | here h' =>
      rw [h] at h'
      cases h'
      exact absurd rfl ne
    | up h' ne' t' =>
      rw [h] at h'
      cases h'
      obtain ⟨rfl, rfl⟩ := ih t'
      exact ⟨rfl, rfl⟩

lemma Root.unique {x r s} (h : Root p x r) (h' : Root p x s) : r = s := by
  obtain ⟨n, h⟩ := h
  obtain ⟨m, h'⟩ := h'
  exact (h.unique h').2

lemma RootIn.root {n x r} (h : RootIn p n x r) : p r = some r := by
  induction h with
  | here h => exact h
  | up _ _ _ ih => exact ih

lemma Root.self {x r} (h : Root p x r) : Root p r r := by
  obtain ⟨n, h⟩ := h
  exact ⟨0, .here h.root⟩

lemma RootIn.isSome {n x r} (h : RootIn p n x r) : (p x).isSome = true := by
  cases h with
  | here h | up h _ _ => rw [h]; rfl

lemma RootIn.path {n x r} (h : RootIn p n x r) : ∃ l : List α, l.Nodup ∧ l.length = n + 1 ∧
    ∀ y ∈ l, ∃ m ≤ n, RootIn p m y r := by
  induction h with
  | @here r h =>
    refine ⟨[r], List.nodup_singleton r, rfl, fun y hy => ?_⟩
    rw [List.mem_singleton.mp hy]
    exact ⟨0, le_rfl, .here h⟩
  | @up n x y r h ne t ih =>
    obtain ⟨l, nodup, len, hl⟩ := ih
    refine ⟨x :: l, List.nodup_cons.mpr ⟨fun hx => ?_, nodup⟩, by simp [len], fun z hz => ?_⟩
    · -- the steps from a node to its root are determined, and `x` is further away
      obtain ⟨m, hm, hx⟩ := hl x hx
      have e := (hx.unique (.up h ne t)).1
      omega
    · cases List.mem_cons.mp hz with
      | inl e => exact ⟨n + 1, le_rfl, e ▸ .up h ne t⟩
      | inr hz =>
        obtain ⟨m, hm, hz⟩ := hl z hz
        exact ⟨m, by omega, hz⟩

lemma RootIn.lt_length {n x r} (h : RootIn p n x r) {nodes : List α}
    (all : ∀ y, (p y).isSome = true → y ∈ nodes) : n < nodes.length := by
  obtain ⟨l, nodup, len, hl⟩ := h.path
  have sub : l ⊆ nodes := fun y hy => by
    obtain ⟨m, -, hy⟩ := hl y hy
    exact all y hy.isSome
  have le := (nodup.subperm sub).length_le
  omega

section
variable [DecidableEq α]

lemma Root.add {x y r} (new : p x = none) (h : Root p y r) : Root (update p x (some x)) y r := by
  obtain ⟨n, h⟩ := h
  have keep : ∀ {z w}, p z = some w → update p x (some x) z = some w := by
    intro z w hz
    rw [update_of_ne, hz]
    intro e
    rw [e, new] at hz
    cases hz
  refine ⟨n, ?_⟩
  induction h with
  | here h => exact .here (keep h)
  | up h ne _ ih => exact .up (keep h) ne ih

/-- A root hung below another one hands its nodes over to it. -/
lemma Root.link {a b x r} (ha : p a = some a) (hb : p b = some b) (ne : a ≠ b) (h : Root p x r) :
    Root (update p a (some b)) x (if r = a then b else r) := by
  obtain ⟨n, h⟩ := h
  induction h with
  | @here r h =>
    by_cases e : r = a
    · rw [if_pos e, e]
      refine ⟨1, .up (update_self ..) ne.symm (.here ?_)⟩
      rw [update_of_ne ne.symm, hb]
    · rw [if_neg e]
      refine ⟨0, .here ?_⟩
      rw [update_of_ne e, h]
  | @up n x y r h ne' _ ih =>
    obtain ⟨m, ih⟩ := ih
    refine ⟨m + 1, .up ?_ ne' ih⟩
    rw [update_of_ne, h]
    intro e
    rw [e, ha] at h
    exact ne' ((Option.some.inj h).symm.trans e.symm)
end

/-- The nodes of the forest are those of `V`, and its trees are the components of `E`. -/
structure Represents (p : α → Option α) (V : α → Prop) (E : α → α → Prop) : Prop where
  nodes : ∀ x, (p x).isSome = true ↔ V x
  rooted : ∀ x, V x → ∃ r, Root p x r
  edges : ∀ x y, E x y → V x ∧ V y
  joined : ∀ x y r s, E x y → Root p x r → Root p y s → r = s
  linked : ∀ x y r, Root p x r → Root p y r → EqvGen E x y

section
variable {V : α → Prop} {E : α → α → Prop}

lemma represents_empty : Represents (fun _ : α => none) (fun _ => False) (fun _ _ => False) where
  nodes _ := by simp
  rooted _ h := h.elim
  edges _ _ h := h.elim
  joined _ _ _ _ h := h.elim
  linked x y r h := by
    obtain ⟨n, h⟩ := h
    cases h.root

lemma Represents.node {x r} (h : Represents p V E) (hr : Root p x r) : V x := by
  obtain ⟨n, hr⟩ := hr
  exact (h.nodes x).mp hr.isSome

lemma Represents.root_iff {x y r} (h : Represents p V E) (hl : EqvGen E x y) : Root p x r ↔ Root p y r := by
  induction hl with
  | rel x y e =>
    obtain ⟨hx, hy⟩ := h.edges x y e
    obtain ⟨s, hs⟩ := h.rooted x hx
    obtain ⟨t, ht⟩ := h.rooted y hy
    obtain rfl := h.joined x y s t e hs ht
    exact ⟨fun hr => hr.unique hs ▸ ht, fun hr => hr.unique ht ▸ hs⟩
  | refl => exact Iff.rfl
  | symm _ _ _ ih => exact ih.symm
  | trans _ _ _ _ _ ih ih' => exact ih.trans ih'

lemma Represents.join {a b r} (h : Represents p V E) (ha : Root p a r) (hb : Root p b r) :
    Represents p V (fun x y => E x y ∨ x = a ∧ y = b) where
  nodes := h.nodes
  rooted := h.rooted
  edges x y e := by
    cases e with
    | inl e => exact h.edges x y e
    | inr e => exact ⟨e.1 ▸ h.node ha, e.2 ▸ h.node hb⟩
  joined x y r' s e hx hy := by
    cases e with
    | inl e => exact h.joined x y r' s e hx hy
    | inr e =>
      rw [e.1] at hx
      rw [e.2] at hy
      exact (hx.unique ha).trans (hb.unique hy)
  linked x y r' hx hy := (h.linked x y r' hx hy).mono fun _ _ e => .inl e

variable {E' : α → α → Prop}

lemma Represents.congr {V' : α → Prop} (h : Represents p V E)
    (nodes : ∀ x, V x ↔ V' x) (edges : ∀ x y, E x y ↔ E' x y) : Represents p V' E' := by
  obtain rfl : V = V' := funext fun x => propext (nodes x)
  obtain rfl : E = E' := funext₂ fun x y => propext (edges x y)
  exact h

/-- Only the chains of edges count. -/
lemma Represents.of_chains (h : Represents p V E)
    (old : ∀ x y, E x y → EqvGen E' x y) (new : ∀ x y, E' x y → EqvGen E x y)
    (edges : ∀ x y, E' x y → V x ∧ V y) : Represents p V E' where
  nodes := h.nodes
  rooted := h.rooted
  edges := edges
  joined x y _ _ e hx hy := ((h.root_iff (new x y e)).mp hx).unique hy
  linked x y r hx hy := (EqvGen.is_equivalence E').eqvGen_iff.mp ((h.linked x y r hx hy).mono old)

variable [DecidableEq α]

lemma Represents.add {x} (h : Represents p V E) (new : p x = none) :
    Represents (update p x (some x)) (fun y => V y ∨ y = x) E := by
  have hx : Root (update p x (some x)) x x := ⟨0, .here (update_self ..)⟩
  have old : ∀ {y r}, V y → Root (update p x (some x)) y r → Root p y r := by
    intro y r hy hr
    obtain ⟨s, hs⟩ := h.rooted y hy
    exact hr.unique (hs.add new) ▸ hs
  have absent : ∀ {y}, ¬Root p y x := by
    intro y hy
    obtain ⟨n, hy⟩ := hy
    have e := hy.root
    rw [new] at e
    cases e
  refine ⟨fun y => ?_, fun y hy => ?_, fun y z e => ?_, fun y z r s e hy hz => ?_, fun y z r hy hz => ?_⟩
  · by_cases e : y = x
    · rw [e, update_self]
      exact iff_of_true rfl (.inr rfl)
    · rw [update_of_ne e, h.nodes, or_iff_left e]
  · cases hy with
    | inl hy =>
      obtain ⟨r, hr⟩ := h.rooted y hy
      exact ⟨r, hr.add new⟩
    | inr e => exact ⟨x, e ▸ hx⟩
  · exact ⟨.inl (h.edges y z e).1, .inl (h.edges y z e).2⟩
  · obtain ⟨vy, vz⟩ := h.edges y z e
    exact h.joined y z r s e (old vy hy) (old vz hz)
  · have node : ∀ {w}, Root (update p x (some x)) w r → V w ∨ w = x := by
      intro w hw
      obtain ⟨n, hw⟩ := hw
      have hs := hw.isSome
      by_cases e : w = x
      · exact .inr e
      · rw [update_of_ne e] at hs
        exact .inl ((h.nodes w).mp hs)
    cases node hy with
    | inl vy =>
      cases node hz with
      | inl vz => exact h.linked y z r (old vy hy) (old vz hz)
      | inr e =>
        rw [e] at hz
        exact absurd (hz.unique hx ▸ old vy hy) absent
    | inr e =>
      rw [e] at hy ⊢
      cases node hz with
      | inl vz => exact absurd (hy.unique hx ▸ old vz hz) absent
      | inr e => rw [e]; exact .refl x

/-- Hanging one root below another joins their trees by an edge between any of their nodes. -/
lemma Represents.link {a b ra rb} (h : Represents p V E) (ha : Root p a ra) (hb : Root p b rb)
    (ne : ra ≠ rb) : Represents (update p ra (some rb)) V (fun x y => E x y ∨ x = a ∧ y = b) := by
  have pa : p ra = some ra := ha.elim fun _ h => h.root
  have pb : p rb = some rb := hb.elim fun _ h => h.root
  have new : ∀ {x r}, Root p x r →
      Root (update p ra (some rb)) x (if r = ra then rb else r) := fun hr =>
    hr.link pa pb ne
  have mono : ∀ {x y}, EqvGen E x y → EqvGen (fun x y => E x y ∨ x = a ∧ y = b) x y := fun e =>
    e.mono fun _ _ e => .inl e
  have edge : EqvGen (fun x y => E x y ∨ x = a ∧ y = b) a b := .rel _ _ (.inr ⟨rfl, rfl⟩)
  have nodes : ∀ x, (update p ra (some rb) x).isSome = true ↔ V x := by
    intro x
    by_cases e : x = ra
    · rw [e, update_self, ← h.nodes, pa]
      exact Iff.rfl
    · rw [update_of_ne e, h.nodes]
  -- the new root of a node, from its old one
  have from_old : ∀ {x r}, Root (update p ra (some rb)) x r →
      ∃ r₀, Root p x r₀ ∧ r = if r₀ = ra then rb else r₀ := by
    intro x r hr
    have hs := hr.elim fun _ h => h.isSome
    obtain ⟨r₀, h₀⟩ := h.rooted x ((nodes x).mp hs)
    exact ⟨r₀, h₀, hr.unique (new h₀)⟩
  refine ⟨nodes, fun x hx => ?_, fun x y e => ?_, fun x y r s e hx hy => ?_, fun x y r hx hy => ?_⟩
  · obtain ⟨r, hr⟩ := h.rooted x hx
    exact ⟨_, new hr⟩
  · cases e with
    | inl e => exact h.edges x y e
    | inr e => exact ⟨e.1 ▸ h.node ha, e.2 ▸ h.node hb⟩
  · obtain ⟨r₀, hx₀, er⟩ := from_old hx
    obtain ⟨s₀, hy₀, es⟩ := from_old hy
    rw [er, es]
    cases e with
    | inl e => rw [h.joined x y r₀ s₀ e hx₀ hy₀]
    | inr e =>
      rw [e.1] at hx₀
      rw [e.2] at hy₀
      rw [hx₀.unique ha, hy₀.unique hb, if_pos rfl, if_neg ne.symm]
  · obtain ⟨r₀, hx, e⟩ := from_old hx
    obtain ⟨s₀, hy, e'⟩ := from_old hy
    rw [e] at e'
    by_cases hr : r₀ = ra
    · have xa := mono (h.linked x a ra (hr ▸ hx) ha)
      by_cases hs : s₀ = ra
      · exact mono (h.linked x y ra (hr ▸ hx) (hs ▸ hy))
      · rw [if_pos hr, if_neg hs] at e'
        exact .trans _ _ _ xa (.trans _ _ _ edge (mono (h.linked b y rb hb (e' ▸ hy))))
    · by_cases hs : s₀ = ra
      · rw [if_neg hr, if_pos hs] at e'
        have ya := mono (h.linked y a ra (hs ▸ hy) ha)
        have xb := mono (h.linked x b rb (e' ▸ hx) hb)
        exact .trans _ _ _ xb (.trans _ _ _ (.symm _ _ edge) (.symm _ _ ya))
      · rw [if_neg hr, if_neg hs] at e'
        exact mono (h.linked x y r₀ hx (e' ▸ hy))
end

end SocioWorkspace.Forest
