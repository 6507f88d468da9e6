import Mathlib.Data.List.Forall2
import Mathlib.Data.Nat.Choose.Basic
import Mathlib.Data.String.Basic

/-!
# Fallible computations and lists

The order of texts, what it takes for a sequence of fallible computations to return, facts about
`List.Forall₂`, and the sublists of a given length in lexicographic order.
-/

namespace SocioWorkspace
open List
universe u v w

instance isTrans_le_string : IsTrans String fun s t => s ≤ t := inferInstance

instance antisymm_le_string : Std.Antisymm fun s t : String => s ≤ t := inferInstance

instance total_le_string : Std.Total fun s t : String => s ≤ t := inferInstance

lemma bind_eq_ok {ε α β x} {f : α → Except ε β} {b} : (x >>= f) = .ok b ↔ ∃ a, x = .ok a ∧ f a = .ok b := by
  cases x with
  | error e | ok a => simp [bind, Except.bind]

lemma bind_returns {ε α β x} {f : α → Except ε β} :
    (∃ b, (x >>= f) = .ok b) ↔ ∃ a, x = .ok a ∧ ∃ b, f a = .ok b := by
  simp only [bind_eq_ok, ← exists_and_left]
  exact exists_comm

lemma mapError_eq_ok {ε ε' α} {x : Except ε α} {f : ε → ε'} {a} : x.mapError f = .ok a ↔ x = .ok a := by
  cases x <;> simp [Except.mapError]

lemma mapM_eq_ok {ε α β} {l : List α} {f : α → Except ε β} {g : α → β}
    (h : ∀ a ∈ l, f a = .ok (g a)) : l.mapM f = .ok (l.map g) := by
  induction l with
  | nil => rfl
  | cons a l ih =>
    rw [forall_mem_cons] at h
    rw [mapM_cons, h.1, ih h.2]
    rfl

lemma forall₂_of_mapM_eq_ok {ε α β l} {f : α → Except ε β} {bs}
    (h : l.mapM f = .ok bs) : List.Forall₂ (fun a b => f a = .ok b) l bs := by
  induction l generalizing bs with
  | nil =>
    cases h
    exact .nil
  | cons a l ih =>
    rw [mapM_cons] at h
    obtain ⟨b, hb, h⟩ := bind_eq_ok.1 h
    obtain ⟨rest, hrest, h⟩ := bind_eq_ok.1 h
    cases h
    exact .cons hb (ih hrest)

lemma exists_mem_of_forall₂ {α β} {R : α → β → Prop} {l l'}
    (h : List.Forall₂ R l l') {a} (ha : a ∈ l) : ∃ b ∈ l', R a b := by
  induction h with
  | nil => cases ha
  | cons hb _ ih =>
    cases ha with
    | head => exact ⟨_, mem_cons_self, hb⟩
    | tail _ ha =>
      obtain ⟨b, hmem, hb⟩ := ih ha
      exact ⟨b, mem_cons_of_mem _ hmem, hb⟩

lemma mapM_eq_error {ε α β} {l : List α} {f : α → Except ε β} {e}
    (hall : ∀ a ∈ l, f a = .error e ∨ ∃ b, f a = .ok b) (hex : ∃ a ∈ l, f a = .error e) :
    l.mapM f = .error e := by
  induction l with
  | nil => simp at hex
  | cons a l ih =>
    rw [forall_mem_cons] at hall
    rw [mapM_cons]
    cases hall.1 with
    | inl h =>
      rw [h]
      rfl
    | inr h =>
      obtain ⟨b, hb⟩ := h
      have hrest : ∃ a ∈ l, f a = .error e := by
        obtain ⟨a', hmem, ha'⟩ := hex
        cases mem_cons.1 hmem with
        | inl he =>
          rw [he, hb] at ha'
          cases ha'
        | inr hmem => exact ⟨a', hmem, ha'⟩
      rw [hb, ih hall.2 hrest]
      rfl

lemma mapM_returns {ε α β} {l : List α} {f : α → Except ε β} :
    (∃ bs, l.mapM f = .ok bs) ↔ ∀ a ∈ l, ∃ b, f a = .ok b := by
  refine ⟨?_, ?_⟩
  · intro ⟨bs, h⟩ a ha
    obtain ⟨b, -, hb⟩ := exists_mem_of_forall₂ (forall₂_of_mapM_eq_ok h) ha
    exact ⟨b, hb⟩
  · induction l with
    | nil => exact fun _ => ⟨[], rfl⟩
    | cons a l ih =>
      rw [forall_mem_cons]
      intro ⟨⟨b, hb⟩, hl⟩
      obtain ⟨bs, hbs⟩ := ih hl
      refine ⟨b :: bs, ?_⟩
      rw [mapM_cons, hb, hbs]
      rfl

lemma mapM_map_eq_some {α β} {f : β → Option α} {g : α → β} (h : ∀ a, f (g a) = some a)
    (l : List α) : (l.map g).mapM f = some l := by
  induction l with
  | nil => rfl
  | cons a l ih =>
    rw [map_cons, mapM_cons, h, ih]
    rfl

lemma foldlM_eq_ok {ε α β} {l : List α} {f : β → α → Except ε β} {g : β → α → β}
    (h : ∀ a ∈ l, ∀ b, f b a = .ok (g b a)) (b : β) : l.foldlM f b = .ok (l.foldl g b) := by
  induction l generalizing b with
  | nil => rfl
  | cons a l ih =>
    rw [forall_mem_cons] at h
    rw [foldlM_cons, h.1 b]
    exact ih h.2 (g b a)

lemma foldlM_ne_ok {ε α β} {l : List α} {f : β → α → Except ε β} {I : β → Prop}
    (hstep : ∀ a b c, I b → f b a = .ok c → I c) (hstuck : ∃ a ∈ l, ∀ b c, I b → f b a ≠ .ok c)
    {b} (hb : I b) (c : β) : l.foldlM f b ≠ .ok c := by
  induction l generalizing b with
  | nil => simp at hstuck
  | cons a l ih =>
    rw [foldlM_cons]
    intro h
    obtain ⟨b', hb', h⟩ := bind_eq_ok.1 h
    rw [exists_mem_cons_iff] at hstuck
    cases hstuck with
    | inl ha => exact ha b b' hb hb'
    | inr hl => exact ih hl (hstep a b b' hb hb') h

/-- The last separator of a text splits it. -/
lemma append_cons_inj {α} {x : α} {a b m n : List α} (hm : x ∉ m) (hn : x ∉ n)
    (h : a ++ x :: m = b ++ x :: n) : a = b ∧ m = n := by
  rcases append_eq_append_iff.1 h with ⟨c, rfl, hc⟩ | ⟨c, rfl, hc⟩
  · cases c with
    | nil => exact ⟨(append_nil a).symm, (cons.inj hc).2⟩
    | cons y c => exact absurd ((cons.inj hc).2 ▸ mem_append_right c mem_cons_self) hm
  · cases c with
    | nil => exact ⟨append_nil b, (cons.inj hc).2.symm⟩
    | cons y c => exact absurd ((cons.inj hc).2 ▸ mem_append_right c mem_cons_self) hn

namespace Lists

variable {α : Type u} {β : Type v} {γ : Type w} {R : α → β → Prop} {as : List α} {bs : List β}

lemma exists_mem_iff (h : List.Forall₂ R as bs) {P : α → Prop} {Q : β → Prop}
    (hpq : ∀ a b, R a b → (P a ↔ Q b)) : (∃ a ∈ as, P a) ↔ ∃ b ∈ bs, Q b := by
  induction h with
  | nil => simp
  | cons hab _ ih => rw [exists_mem_cons_iff, exists_mem_cons_iff, hpq _ _ hab, ih]

lemma filterMap_eq (h : List.Forall₂ R as bs) {f : α → Option γ} {g : β → Option γ}
    (hfg : ∀ a b, R a b → f a = g b) : as.filterMap f = bs.filterMap g := by
  induction h with
  | nil => rfl
  | cons hab _ ih => rw [filterMap_cons, filterMap_cons, hfg _ _ hab, ih]

variable {l : List α}

lemma exists_mem_filterMap {f : α → Option β} {P : β → Prop} :
    (∃ b ∈ l.filterMap f, P b) ↔ ∃ a ∈ l, ∃ b, f a = some b ∧ P b := by
  simp only [mem_filterMap]
  constructor
  · rintro ⟨b, ⟨a, ha, hb⟩, hp⟩
    exact ⟨a, ha, b, hb, hp⟩
  · rintro ⟨a, ha, b, hb, hp⟩
    exact ⟨b, ⟨a, ha, hb⟩, hp⟩

lemma countP_add_countP_le (p q : α → Bool) (l : List α) :
    l.countP p + l.countP q ≤ l.length + l.countP fun a => p a && q a := by
  induction l with
  | nil => rfl
  | cons a l ih =>
    rw [countP_cons, countP_cons, countP_cons, length_cons]
    cases p a <;> cases q a <;> simp <;> omega

lemma exists_of_majorities {p q : α → Bool} (hp : l.length < 2 * l.countP p)
    (hq : l.length < 2 * l.countP q) : ∃ a ∈ l, p a = true ∧ q a = true := by
  have hle := countP_add_countP_le p q l
  have hpos : 0 < l.countP fun a => p a && q a := by omega
  obtain ⟨a, ha, hpq⟩ := countP_pos_iff.1 hpos
  exact ⟨a, ha, Bool.and_eq_true_iff.1 hpq⟩

/-- Python `itertools.combinations`: the `k`-subsets in lexicographic order. -/
def combinations : List α → ℕ → List (List α)
  | _, 0 => [[]]
  | [], _ + 1 => []
  | x :: xs, k + 1 => (combinations xs k).map (x :: ·) ++ combinations xs (k + 1)

lemma head_combinations {k} (h : k ≤ l.length) : (combinations l k)[0]? = some (l.take k) := by
  induction l generalizing k with
  | nil =>
    obtain rfl := Nat.le_zero.1 h
    rfl
  | cons x xs ih =>
    cases k with
    | zero => rfl
    | succ k =>
      have hx := ih (Nat.le_of_succ_le_succ h)
      rw [combinations, getElem?_append_left, getElem?_map, hx]
      · rfl
      · rw [length_map]
        exact (List.getElem?_eq_some_iff.1 hx).1

lemma mem_combinations {l c : List α} {k} : c ∈ combinations l k ↔ c.Sublist l ∧ c.length = k := by
  induction l generalizing k c with
  | nil =>
    cases k with
    | zero => simp [combinations]
    | succ k =>
      refine iff_of_false (not_mem_nil) ?_
      rintro ⟨hsub, hlen⟩
      rw [sublist_nil.1 hsub] at hlen
      cases hlen
  | cons x xs ih =>
    cases k with
    | zero =>
      rw [combinations, mem_singleton, length_eq_zero_iff]
      exact ⟨fun h => ⟨h ▸ nil_sublist _, h⟩, And.right⟩
    | succ k =>
      rw [combinations, mem_append, mem_map, ih, sublist_cons_iff]
      constructor
      · rintro (⟨c, hc, rfl⟩ | ⟨hsub, hlen⟩)
        · obtain ⟨hsub, hlen⟩ := ih.1 hc
          exact ⟨.inr ⟨c, rfl, hsub⟩, congrArg (· + 1) hlen⟩
        · exact ⟨.inl hsub, hlen⟩
      · rintro ⟨hsub | ⟨c, rfl, hsub⟩, hlen⟩
        · exact .inr ⟨hsub, hlen⟩
        · exact .inl ⟨c, ih.2 ⟨hsub, Nat.succ.inj hlen⟩, rfl⟩

lemma combinations_eq_nil {k : ℕ} (h : l.length < k) : combinations l k = [] := by
  refine eq_nil_iff_forall_not_mem.2 fun c hc => ?_
  obtain ⟨hsub, rfl⟩ := mem_combinations.1 hc
  exact absurd hsub.length_le (not_le.2 h)

end Lists

end SocioWorkspace
