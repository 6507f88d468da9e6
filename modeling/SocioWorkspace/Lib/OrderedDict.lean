import Mathlib

/-!
# Dicts in insertion order

A Python `dict` as the list of its items in the order in which their keys came. Which keys are the same is a
parameter, and nothing is assumed of it. An update changes the first item with the key in place, or adds an
item at the end.
-/

namespace SocioWorkspace.OrderedDict
open List
universe u v

variable {κ : Type u} {ν : Type v} (same : κ → κ → Bool)

/-- Python `d.get(k)`. -/
def get? (d : List (κ × ν)) (k : κ) : Option ν := (d.find? fun m => same m.1 k).map Prod.snd

/-- Python `d[k] = v`. -/
def set (k : κ) (v : ν) : List (κ × ν) → List (κ × ν)
  | [] => [(k, v)]
  | (k', v') :: d => if same k' k then (k', v) :: d else (k', v') :: set k v d

def modify (k : κ) (f : ν → ν) : List (κ × ν) → List (κ × ν)
  | [] => []
  | (k', v') :: d => if same k' k then (k', f v') :: d else (k', v') :: modify k f d

variable {same} {d : List (κ × ν)} {k : κ}

lemma mem_of_get? {v} (h : get? same d k = some v) : ∃ k', (k', v) ∈ d := by
  obtain ⟨m, hm, rfl⟩ := Option.map_eq_some_iff.1 h
  exact ⟨m.1, mem_of_find?_eq_some hm⟩

lemma countP_set (p : ν → Bool) (k : κ) (v : ν) (d : List (κ × ν)) :
    (set same k v d).countP (p ·.2) + (get? same d k).toList.countP p =
      d.countP (p ·.2) + if p v then 1 else 0 := by
  induction d with
  | nil => simp [set, get?, countP_cons]
  | cons m d ih =>
    obtain ⟨k', v'⟩ := m
    rw [set, get?, find?_cons]
    cases hsame : same k' k with
    | true =>
      simp only [if_true, countP_cons, Option.map_some, Option.toList_some, countP_nil]
      omega
    | false =>
      rw [get?] at ih
      simp only [Bool.false_eq_true, if_false, countP_cons]
      omega

lemma modify_cases (f : ν → ν) (h : ∃ m ∈ d, same m.1 k = true) :
    ∃ l₁ k' v' l₂, d = l₁ ++ (k', v') :: l₂ ∧ same k' k = true ∧
      modify same k f d = l₁ ++ (k', f v') :: l₂ := by
  induction d with
  | nil =>
    obtain ⟨m, hm, -⟩ := h
    cases hm
  | cons m d ih =>
    obtain ⟨k', v'⟩ := m
    rw [modify]
    cases hsame : same k' k with
    | true => exact ⟨[], k', v', d, rfl, hsame, rfl⟩
    | false =>
      have hrest : ∃ m ∈ d, same m.1 k = true := by
        obtain ⟨m, hm, hkey⟩ := h
        cases mem_cons.1 hm with
        | inl he =>
          rw [he, hsame] at hkey
          cases hkey
        | inr hm => exact ⟨m, hm, hkey⟩
      obtain ⟨l₁, k'', v'', l₂, rfl, hkey, hmodify⟩ := ih hrest
      refine ⟨(k', v') :: l₁, k'', v'', l₂, rfl, hkey, ?_⟩
      rw [hmodify]
      rfl

lemma mem_set {v m} (h : m ∈ set same k v d) : m ∈ d ∨ m.2 = v := by
  induction d with
  | nil => exact .inr (congrArg Prod.snd (mem_singleton.1 h))
  | cons m' d ih =>
    obtain ⟨k', v'⟩ := m'
    rw [set] at h
    split_ifs at h
    · cases mem_cons.1 h with
      | inl h => exact .inr (congrArg Prod.snd h)
      | inr h => exact .inl (mem_cons_of_mem _ h)
    · cases mem_cons.1 h with
      | inl h => exact .inl (h ▸ mem_cons_self ..)
      | inr h => exact (ih h).imp_left (mem_cons_of_mem _)

lemma mem_modify {f : ν → ν} {m} (h : m ∈ modify same k f d) : m ∈ d ∨ same m.1 k = true := by
  induction d with
  | nil => exact .inl h
  | cons m' d ih =>
    obtain ⟨k', v'⟩ := m'
    rw [modify] at h
    split_ifs at h with hsame
    · cases mem_cons.1 h with
      | inl h => exact .inr (h ▸ hsame)
      | inr h => exact .inl (mem_cons_of_mem _ h)
    · cases mem_cons.1 h with
      | inl h => exact .inl (h ▸ mem_cons_self ..)
      | inr h => exact (ih h).imp_left (mem_cons_of_mem _)

lemma map_fst_modify (k : κ) (f : ν → ν) (d : List (κ × ν)) :
    (modify same k f d).map Prod.fst = d.map Prod.fst := by
  induction d with
  | nil => rfl
  | cons m d ih =>
    rw [modify]
    split_ifs
    · rfl
    · rw [map_cons, map_cons, ih]

section Group
variable {α : Type u} [DecidableEq κ]

/-- Python `d.setdefault(key(x), []).append(x)`. -/
def push (key : α → κ) (d : List (κ × List α)) (x : α) : List (κ × List α) :=
  set (· == ·) (key x) ((get? (· == ·) d (key x)).getD [] ++ [x]) d

/-- The elements by their key, in the order in which they came. -/
def group (key : α → κ) (xs : List α) : List (κ × List α) := xs.foldl (push key) []

section
variable (k : κ) (v : ν) (d : List (κ × ν))

lemma get?_set (k' : κ) :
    get? (· == ·) (set (· == ·) k v d) k' = if k = k' then some v else get? (· == ·) d k' := by
  induction d with
  | nil => by_cases h : k = k' <;> simp [set, get?, h]
  | cons m d ih =>
    obtain ⟨k'', v''⟩ := m
    rw [set]
    by_cases hkey : k'' = k
    · by_cases h : k = k' <;> simp [get?, hkey, h]
    · rw [get?] at ih
      by_cases h : k'' = k'
      · have hne : k ≠ k' := fun e => hkey (h.trans e.symm)
        simp [get?, h, hne, hne.symm]
      · simp [get?, hkey, h, ih]

lemma map_fst_set :
    (set (· == ·) k v d).map Prod.fst =
      if k ∈ d.map Prod.fst then d.map Prod.fst else d.map Prod.fst ++ [k] := by
  induction d with
  | nil => rfl
  | cons m d ih =>
    obtain ⟨k', v'⟩ := m
    rw [set]
    by_cases hkey : k' = k
    · simp [hkey]
    · have hne : k ≠ k' := fun e => hkey e.symm
      by_cases hmem : k ∈ d.map Prod.fst
      · rw [if_pos hmem] at ih
        simp [hkey, ih, hmem]
      · rw [if_neg hmem] at ih
        simp [hkey, hne, ih, hmem]

end

variable {d : List (κ × ν)} {k : κ}

lemma set_of_not_mem (v : ν) (h : k ∉ d.map Prod.fst) : set (· == ·) k v d = d ++ [(k, v)] := by
  induction d with
  | nil => rfl
  | cons m d ih =>
    obtain ⟨k', v'⟩ := m
    rw [map_cons, mem_cons, not_or] at h
    rw [set, if_neg (by simpa using Ne.symm h.1), ih h.2]
    rfl

lemma foldl_set_of_nodup {key : α → κ} {xs : List α} (value : α → ν) (nodup : (xs.map key).Nodup) :
    xs.foldl (fun d x => set (· == ·) (key x) (value x) d) [] =
      xs.map fun x => (key x, value x) := by
  induction xs using List.reverseRecOn with
  | nil => rfl
  | append_singleton xs x ih =>
    rw [map_append, nodup_append] at nodup
    obtain ⟨nodup, -, hnew⟩ := nodup
    rw [foldl_append, ih nodup, map_append]
    apply set_of_not_mem
    rw [map_map]
    intro hmem
    exact hnew _ hmem _ (mem_map_of_mem (mem_singleton_self x)) rfl

lemma nodup_set (v : ν) (nodup : (d.map Prod.fst).Nodup) : ((set (· == ·) k v d).map Prod.fst).Nodup := by
  rw [map_fst_set]
  split_ifs with h
  · exact nodup
  · exact nodup_append.2 ⟨nodup, nodup_singleton _, fun a ha b hb e =>
      h (mem_singleton.1 hb ▸ e ▸ ha)⟩

lemma mem_iff_get? (nodup : (d.map Prod.fst).Nodup) {v} : (k, v) ∈ d ↔ get? (· == ·) d k = some v := by
  induction d with
  | nil => simp [get?]
  | cons m d ih =>
    obtain ⟨k', v'⟩ := m
    rw [map_cons, nodup_cons] at nodup
    have ih := ih nodup.2
    by_cases hkey : k' = k
    · subst hkey
      have hnot : (k', v) ∉ d := fun h => nodup.1 (mem_map.2 ⟨_, h, rfl⟩)
      simp [get?, hnot, eq_comm]
    · have hne : k ≠ k' := fun e => hkey e.symm
      simp [get?, hkey, hne, ih]

section
variable (key : α → κ) (xs : List α)

lemma group_append (x : α) : group key (xs ++ [x]) = push key (group key xs) x := by
  rw [group, foldl_append]
  rfl

lemma nodup_group : ((group key xs).map Prod.fst).Nodup := by
  induction xs using List.reverseRecOn with
  | nil => exact nodup_nil
  | append_singleton xs x ih =>
    rw [group_append, push]
    exact nodup_set _ ih

lemma get?_group (k : κ) :
    (get? (· == ·) (group key xs) k).getD [] = xs.filter (key · = k) ∧
      ((get? (· == ·) (group key xs) k).isSome ↔ ∃ x ∈ xs, key x = k) := by
  induction xs using List.reverseRecOn with
  | nil => simp [group, get?]
  | append_singleton xs x ih =>
    rw [group_append, push, get?_set]
    by_cases h : key x = k
    · subst h
      simp [ih.1]
    · simp [h, ih.1, ih.2]

end

/-- A group holds the elements with its key, and there is one for each key that came. -/
theorem mem_group {key : α → κ} {xs l} :
    (k, l) ∈ group key xs ↔ l = xs.filter (key · = k) ∧ ∃ x ∈ xs, key x = k := by
  obtain ⟨hget, hsome⟩ := get?_group key xs k
  rw [mem_iff_get? (nodup_group key xs)]
  constructor
  · intro h
    rw [h] at hget hsome
    exact ⟨hget, hsome.1 rfl⟩
  · rintro ⟨rfl, hx⟩
    obtain ⟨l, hl⟩ := Option.isSome_iff_exists.1 (hsome.2 hx)
    rw [hl] at hget ⊢
    exact congrArg some hget

end Group

section Largest
variable [LinearOrder κ]

/-- Python `max(sorted(d), key=lambda k: size(d[k]))`, with its value. -/
def largest (size : ν → ℕ) (d : List (κ × ν)) : Option (κ × ν) :=
  (d.insertionSort fun m m' => m.1 ≤ m'.1).argmax fun m => size m.2

lemma idxOf_le_iff [DecidableEq (κ × ν)] {l : List (κ × ν)} (h : l.Pairwise (·.1 < ·.1))
    {m m'} (hm : m ∈ l) (hm' : m' ∈ l) : l.idxOf m ≤ l.idxOf m' ↔ m.1 ≤ m'.1 := by
  have hlt {a b} (ha : a ∈ l) (hb : b ∈ l) (hab : l.idxOf a < l.idxOf b) : a.1 < b.1 := by
    have hpair := pairwise_iff_getElem.1 h _ _ (idxOf_lt_length_of_mem ha)
      (idxOf_lt_length_of_mem hb) hab
    simpa using hpair
  constructor
  · intro hle
    rcases hle.lt_or_eq with hfirst | heq
    · exact (hlt hm hm' hfirst).le
    · rw [(idxOf_inj hm).1 heq]
  · intro hle
    by_contra hnot
    exact absurd (hlt hm' hm (not_le.1 hnot)) (not_lt.2 hle)

/-- The largest item is the one with the least key among those of the greatest size. -/
theorem largest_eq_some {size : ν → ℕ} {d : List (κ × ν)} (nodup : (d.map Prod.fst).Nodup)
    {m} : largest size d = some m ↔
      m ∈ d ∧ ∀ m' ∈ d, size m'.2 < size m.2 ∨ size m'.2 = size m.2 ∧ m.1 ≤ m'.1 := by
  classical
  set l := d.insertionSort fun m m' => m.1 ≤ m'.1 with hl
  have hperm : l.Perm d := perm_insertionSort ..
  have hsorted : l.Pairwise (·.1 < ·.1) := by
    have hle : l.Pairwise fun m m' => m.1 ≤ m'.1 := pairwise_insertionSort ..
    have hne : l.Pairwise fun m m' => m.1 ≠ m'.1 := pairwise_map.1 ((hperm.map Prod.fst).nodup_iff.2 nodup)
    exact hle.imp₂ (fun _ _ hle hne => lt_of_le_of_ne hle hne) hne
  rw [largest, ← hl, argmax_eq_some_iff]
  constructor
  · rintro ⟨hm, hmax, hfirst⟩
    refine ⟨hperm.mem_iff.1 hm, fun m' hm' => ?_⟩
    have hm' := hperm.mem_iff.2 hm'
    rcases (hmax m' hm').lt_or_eq with hlt | heq
    · exact .inl hlt
    · exact .inr ⟨heq, (idxOf_le_iff hsorted hm hm').1 (hfirst m' hm' heq.ge)⟩
  · rintro ⟨hm, hmax⟩
    have hm := hperm.mem_iff.2 hm
    refine ⟨hm, fun m' hm' => ?_, fun m' hm' hle => ?_⟩
    · rcases hmax m' (hperm.mem_iff.1 hm') with hlt | ⟨heq, -⟩
      · exact hlt.le
      · exact heq.le
    · rcases hmax m' (hperm.mem_iff.1 hm') with hlt | ⟨-, hkey⟩
      · exact absurd hlt (not_lt.2 hle)
      · exact (idxOf_le_iff hsorted hm hm').2 hkey

end Largest

end SocioWorkspace.OrderedDict
