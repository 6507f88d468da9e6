import Mathlib

/-!
# Sorted maps

A finite map as the list of its members in strict key order, so that two maps with the same members are one
value (`SortedMap.ext_get`).
-/

namespace SocioWorkspace
open List
universe u v w

structure SortedMap (κ : Type u) (ν : Type v) [LinearOrder κ] where
  members : List (κ × ν)
  sorted : (members.map Prod.fst).Pairwise (· < ·)
deriving DecidableEq

namespace SortedMap
variable {κ : Type u} {ν : Type v} [LinearOrder κ]

def get? (d : SortedMap κ ν) (k : κ) : Option ν := d.members.lookup k

def keys (d : SortedMap κ ν) : List κ := d.members.map Prod.fst

def empty : SortedMap κ ν := ⟨[], .nil⟩

def erase (d : SortedMap κ ν) (k : κ) : SortedMap κ ν where
  members := d.members.filter (·.1 ≠ k)
  sorted := d.sorted.sublist (List.filter_sublist.map Prod.fst)

def insertMember (k : κ) (v : ν) : List (κ × ν) → List (κ × ν)
  | [] => [(k, v)]
  | (k', v') :: rest =>
    if k < k' then (k, v) :: (k', v') :: rest
    else if k = k' then (k, v) :: rest
    else (k', v') :: insertMember k v rest

lemma mem_insertMember {k : κ} {v : ν} {members m} (h : m ∈ insertMember k v members) :
    m = (k, v) ∨ m ∈ members := by
  induction members with
  | nil => exact .inl (mem_singleton.mp h)
  | cons m' rest ih =>
    unfold insertMember at h
    split at h
    · exact mem_cons.mp h
    · split at h
      · exact (mem_cons.mp h).imp_right (mem_cons_of_mem _)
      · cases mem_cons.mp h with
        | inl e => exact .inr (by rw [e]; exact mem_cons_self ..)
        | inr h => exact (ih h).imp_right (mem_cons_of_mem _)

variable {members : List (κ × ν)}

lemma sorted_insertMember {k v} (h : (members.map Prod.fst).Pairwise (· < ·)) :
    ((insertMember k v members).map Prod.fst).Pairwise (· < ·) := by
  induction members with
  | nil => exact pairwise_singleton _ _
  | cons m rest ih =>
    obtain ⟨k', v'⟩ := m
    rw [map_cons, pairwise_cons] at h
    unfold insertMember
    split
    · rename_i hlt
      refine pairwise_cons.mpr ⟨?_, pairwise_cons.mpr h⟩
      intro l hl
      cases mem_cons.mp hl with
      | inl e => rw [e]; exact hlt
      | inr hl => exact hlt.trans (h.1 l hl)
    · split
      · rename_i e
        subst e
        exact pairwise_cons.mpr h
      · rename_i hnlt hne
        refine pairwise_cons.mpr ⟨?_, ih h.2⟩
        intro l hl
        obtain ⟨m, hm, rfl⟩ := mem_map.mp hl
        cases mem_insertMember hm with
        | inl e => rw [e]; exact lt_of_le_of_ne (not_lt.mp hnlt) (Ne.symm hne)
        | inr hm => exact h.1 _ (mem_map_of_mem hm)

def insert (d : SortedMap κ ν) (k : κ) (v : ν) : SortedMap κ ν :=
  ⟨insertMember k v d.members, sorted_insertMember d.sorted⟩

def ofList (members : List (κ × ν)) : SortedMap κ ν := members.foldl (fun d m => d.insert m.1 m.2) empty

def map {ω : Type w} (f : ν → ω) (d : SortedMap κ ν) : SortedMap κ ω where
  members := d.members.map fun m => (m.1, f m.2)
  sorted := by
    rw [List.map_map]
    exact d.sorted

variable {k k' : κ}

lemma lookup_cons_eq {v : ν} {rest} :
    List.lookup k ((k', v) :: rest) = if k = k' then some v else rest.lookup k := by
  by_cases e : k = k'
  · rw [if_pos e, e, lookup_cons_self]
  · rw [if_neg e, lookup_cons, beq_false_of_ne e]

lemma lookup_eq_none {k} (hk : k ∉ members.map Prod.fst) : members.lookup k = none := by
  induction members with
  | nil => rfl
  | cons m rest ih =>
    obtain ⟨k', v⟩ := m
    rw [map_cons, mem_cons, not_or] at hk
    rw [lookup_cons_eq, if_neg hk.1, ih hk.2]

lemma keys_nodup (d : SortedMap κ ν) : d.keys.Nodup := d.sorted.imp fun h => h.ne

lemma mem_keys_iff {d : SortedMap κ ν} {k} : k ∈ d.keys ↔ ∃ v, d.get? k = some v := by
  unfold keys get?
  induction d.members with
  | nil => simp
  | cons m rest ih =>
    obtain ⟨k', v⟩ := m
    rw [map_cons, mem_cons, lookup_cons_eq, ih]
    by_cases e : k = k'
    · simp [e]
    · simp [e]

lemma ext_lookup {ma mb : List (κ × ν)} (sa : (ma.map Prod.fst).Pairwise (· < ·))
    (sb : (mb.map Prod.fst).Pairwise (· < ·)) (h : ∀ k, ma.lookup k = mb.lookup k) : ma = mb := by
  -- the first key of a sorted list is the smallest one it has, so both lists start with it
  induction ma generalizing mb with
  | nil =>
    cases mb with
    | nil => rfl
    | cons m rest =>
      have e := h m.1
      rw [lookup_nil, lookup_cons_eq, if_pos rfl] at e
      cases e
  | cons m rest ih =>
    obtain ⟨k, v⟩ := m
    cases mb with
    | nil =>
      have e := h k
      rw [lookup_nil, lookup_cons_eq, if_pos rfl] at e
      cases e
    | cons m' rest' =>
      obtain ⟨k', v'⟩ := m'
      rw [map_cons, pairwise_cons] at sa sb
      have hk : k = k' := by
        by_contra ne
        cases lt_or_gt_of_ne ne with
        | inl hlt =>
          have e := h k
          rw [lookup_cons_eq, if_pos rfl, lookup_cons_eq, if_neg ne, lookup_eq_none] at e
          · cases e
          · exact fun hm => absurd (sb.1 k hm) hlt.asymm
        | inr hlt =>
          have e := h k'
          rw [lookup_cons_eq, if_neg (Ne.symm ne), lookup_cons_eq, if_pos rfl, lookup_eq_none] at e
          · cases e
          · exact fun hm => absurd (sa.1 k' hm) hlt.asymm
      subst hk
      have e := h k
      rw [lookup_cons_eq, if_pos rfl, lookup_cons_eq, if_pos rfl] at e
      rw [Option.some.inj e]
      congr 1
      apply ih sa.2 sb.2
      intro l
      by_cases el : l = k
      · rw [lookup_eq_none, lookup_eq_none]
        · exact fun hm => lt_irrefl _ (el ▸ sb.1 l hm)
        · exact fun hm => lt_irrefl _ (el ▸ sa.1 l hm)
      · have e := h l
        rwa [lookup_cons_eq, if_neg el, lookup_cons_eq, if_neg el] at e

/-- Equality of maps is equality member by member. -/
theorem ext_get {a b : SortedMap κ ν} (h : ∀ k, a.get? k = b.get? k) : a = b := by
  obtain ⟨ma, sa⟩ := a
  obtain ⟨mb, sb⟩ := b
  congr 1
  exact ext_lookup sa sb h

@[simp] lemma get?_empty (k : κ) : (empty : SortedMap κ ν).get? k = none := rfl

@[simp] lemma get?_erase (d : SortedMap κ ν) (k k') :
    (d.erase k).get? k' = if k' = k then none else d.get? k' := by
  show (d.members.filter (·.1 ≠ k)).lookup k' = if k' = k then none else d.members.lookup k'
  induction d.members with
  | nil => simp
  | cons m rest ih =>
    obtain ⟨l, v⟩ := m
    by_cases hl : l = k
    · rw [filter_cons_of_neg (by simpa using hl), ih, lookup_cons_eq]
      by_cases hk : k' = k
      · rw [if_pos hk, if_pos hk]
      · rw [if_neg hk, if_neg hk, if_neg (hl ▸ hk)]
    · rw [filter_cons_of_pos (by simpa using hl), lookup_cons_eq, lookup_cons_eq, ih]
      by_cases hk : k' = k
      · rw [if_pos hk, if_pos hk, if_neg (fun e => hl (e.symm.trans hk))]
      · rw [if_neg hk, if_neg hk]

@[simp] lemma get?_insert (d : SortedMap κ ν) (k v k') :
    (d.insert k v).get? k' = if k' = k then some v else d.get? k' := by
  show (insertMember k v d.members).lookup k' = if k' = k then some v else d.members.lookup k'
  induction d.members with
  | nil => rw [insertMember, lookup_cons_eq]
  | cons m rest ih =>
    obtain ⟨l, w⟩ := m
    unfold insertMember
    split
    · rw [lookup_cons_eq]
    · split
      · rename_i e
        rw [lookup_cons_eq, lookup_cons_eq, e]
        by_cases hk : k' = l
        · rw [if_pos hk, if_pos hk]
        · rw [if_neg hk, if_neg hk, if_neg hk]
      · rename_i hne
        rw [lookup_cons_eq, ih, lookup_cons_eq]
        by_cases hk : k' = k
        · rw [if_pos hk, if_pos hk, if_neg (fun e => hne (hk ▸ e))]
        · rw [if_neg hk, if_neg hk]

lemma get?_insert_self (d : SortedMap κ ν) (k v) : (d.insert k v).get? k = some v := by
  rw [get?_insert, if_pos rfl]

lemma get?_insert_of_ne (h : k' ≠ k) (d : SortedMap κ ν) (v) : (d.insert k v).get? k' = d.get? k' := by
  rw [get?_insert, if_neg h]

lemma get?_erase_self (d : SortedMap κ ν) (k) : (d.erase k).get? k = none := by
  rw [get?_erase, if_pos rfl]

lemma get?_erase_of_ne (h : k' ≠ k) (d : SortedMap κ ν) : (d.erase k).get? k' = d.get? k' := by
  rw [get?_erase, if_neg h]

lemma keys_erase (d : SortedMap κ ν) (k) : (d.erase k).keys = d.keys.filter (· ≠ k) := by
  rw [keys, keys, erase, filter_map]
  rfl

@[simp] lemma get?_map {ω : Type w} (f : ν → ω) (d : SortedMap κ ν) (k) :
    (d.map f).get? k = (d.get? k).map f := by
  show (d.members.map fun m => (m.1, f m.2)).lookup k = (d.members.lookup k).map f
  induction d.members with
  | nil => rfl
  | cons m rest ih =>
    obtain ⟨l, v⟩ := m
    rw [map_cons, lookup_cons_eq, lookup_cons_eq, ih]
    by_cases e : k = l
    · rw [if_pos e, if_pos e, Option.map_some]
    · rw [if_neg e, if_neg e]

lemma get?_ofList (members : List (κ × ν)) (k) : (ofList members).get? k = members.reverse.lookup k := by
  unfold ofList
  induction members using List.reverseRecOn with
  | nil => rfl
  | append_singleton members m ih =>
    rw [foldl_append, reverse_append, foldl_cons, foldl_nil, get?_insert, ih]
    exact lookup_cons_eq.symm

lemma lookup_eq_some (nodup : (members.map Prod.fst).Nodup)
    {k v} : members.lookup k = some v ↔ (k, v) ∈ members := by
  induction members with
  | nil => simp
  | cons m rest ih =>
    obtain ⟨k', v'⟩ := m
    rw [map_cons, nodup_cons] at nodup
    rw [lookup_cons_eq, mem_cons]
    by_cases e : k = k'
    · subst e
      have hv : (k, v) ∉ rest := fun h => nodup.1 (mem_map.mpr ⟨_, h, rfl⟩)
      simp [hv, eq_comm]
    · rw [if_neg e, ih nodup.2]
      simp [e]

lemma mem_of_mem_ofList {m} (h : m ∈ (ofList members).members) : m ∈ members := by
  induction members using List.reverseRecOn with
  | nil => cases h
  | append_singleton members m' ih =>
    rw [ofList, foldl_concat] at h
    cases mem_insertMember h with
    | inl e => exact mem_append_right _ (mem_singleton.mpr e)
    | inr h => exact mem_append_left _ (ih h)

lemma get?_ofList_eq_some (nodup : (members.map Prod.fst).Nodup)
    {k v} : (ofList members).get? k = some v ↔ (k, v) ∈ members := by
  rw [get?_ofList, lookup_eq_some, mem_reverse]
  rw [map_reverse]
  exact nodup_reverse.mpr nodup

lemma get?_ofList_eq_none {k} (hk : k ∉ members.map Prod.fst) : (ofList members).get? k = none := by
  rw [get?_ofList]
  apply lookup_eq_none
  rw [map_reverse, mem_reverse]
  exact hk

lemma perm_members_ofList (nodup : (members.map Prod.fst).Nodup) : (ofList members).members.Perm members := by
  refine (perm_ext_iff_of_nodup ((keys_nodup _).of_map _) (nodup.of_map _)).2 ?_
  intro ⟨k, v⟩
  rw [← get?_ofList_eq_some nodup]
  exact (lookup_eq_some (keys_nodup _)).symm

lemma ofList_perm {members members' : List (κ × ν)} (h : members.Perm members')
    (nodup : (members'.map Prod.fst).Nodup) : ofList members = ofList members' := by
  have nodup' : (members.map Prod.fst).Nodup := (h.map Prod.fst).nodup_iff.2 nodup
  refine ext_get fun k => Option.ext fun v => ?_
  rw [get?_ofList_eq_some nodup, get?_ofList_eq_some nodup', h.mem_iff]

lemma members_ofList_of_sorted
    (sorted : (members.map Prod.fst).Pairwise (· < ·)) : (ofList members).members = members := by
  have nodup : (members.map Prod.fst).Nodup := sorted.imp fun h => h.ne
  have hself : ofList members = ⟨members, sorted⟩ := by
    refine ext_get fun k => Option.ext fun v => ?_
    rw [get?_ofList_eq_some nodup]
    exact (lookup_eq_some nodup).symm
  rw [hself]

end SortedMap

end SocioWorkspace
