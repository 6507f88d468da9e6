import Mathlib

/-!
# Breadth-first search by levels

A worklist search that writes down each node it meets together with its level, and goes on from the nodes of
some levels only (`goes`). It starts from a list of seeds, which are met on level `first`, and never meets the
nodes that were seen before. `Inv` is what the loop keeps.
-/

namespace SocioWorkspace.Levels
open List

/-- The state of the search loop: the visited nodes, the nodes written down, and the queue. -/
structure State (V : Type*) where
  visited : List V
  found : List (V × Nat)
  queue : List (V × Nat)

section Machine
variable {V : Type*} [DecidableEq V] (succ : V → List V) (goes : Nat → Prop) [DecidablePred goes]

def State.meet (level : Nat) (s : State V) (v : V) : State V :=
  if v ∈ s.visited then s
  else
    { visited := v :: s.visited
      found := s.found ++ [(v, level)]
      queue := s.queue ++ [(v, level)] }

def step (s : State V) : State V :=
  match s.queue with
  | [] => s
  | (u, d) :: q =>
    if goes d then (succ u).foldl (State.meet (d + 1)) { s with queue := q }
    else { s with queue := q }

def start (seen seeds : List V) (first : Nat) : State V :=
  seeds.foldl (State.meet first) { visited := seen, found := [], queue := [] }

def run (n : Nat) (seen seeds : List V) (first : Nat) : State V :=
  (step succ goes)^[n] (start seen seeds first)

end Machine

/-- A chain of `k` successors leads from a seed to `v`, past no node seen before. -/
inductive Within {V : Type*} (succ : V → List V) (seen seeds : List V) : Nat → V → Prop where
  | seed {v} : v ∈ seeds → v ∉ seen → Within succ seen seeds 0 v
  | tail {k u v} : Within succ seen seeds k u → v ∈ succ u → v ∉ seen → Within succ seen seeds (k + 1) v

section Invariant
variable {V : Type*} (succ : V → List V) (goes : Nat → Prop) (seen seeds : List V) (first : Nat)

/-- No chain to `v` is shorter. -/
def Shortest (k : Nat) (v : V) : Prop := Within succ seen seeds k v ∧ ∀ j < k, ¬ Within succ seen seeds j v

/-- The search comes to level `first + k`. -/
def Comes (k : Nat) : Prop := ∀ j < k, goes (first + j)

/-- The invariant of the loop. `top` bounds the levels, `P v d` says that `v` of level `d` has been taken
off the queue, and `C v d` that its successors have been met. -/
structure Inv (top : Nat) (P C : V → Nat → Prop) (s : State V) : Prop where
  visited : ∀ v, v ∈ s.visited ↔ v ∈ seen ∨ ∃ d, (v, d) ∈ s.found
  nodup : (s.found.map Prod.fst).Nodup
  queued : s.queue ⊆ s.found
  sorted : s.queue.Pairwise (·.2 ≤ ·.2)
  near : ∀ x ∈ s.found, x.2 ≤ top
  level : ∀ x ∈ s.queue, top ≤ x.2 + 1
  sound : ∀ v d, (v, d) ∈ s.found → ∃ k, Within succ seen seeds k v ∧ d = first + k ∧ Comes goes first k
  handled : ∀ u d, (u, d) ∈ s.found → (u, d) ∈ s.queue ∨ P u d
  covered : ∀ u d, C u d → goes d → ∀ v ∈ succ u, v ∉ seen → ∃ e ≤ d + 1, (v, e) ∈ s.found

variable {succ goes seen seeds first} {nodes : List V}

lemma Within.mem (hseeds : seeds ⊆ nodes) (hsucc : ∀ u, succ u ⊆ nodes) {k v}
    (h : Within succ seen seeds k v) : v ∈ nodes := by
  cases h with
  | seed hv _ => exact hseeds hv
  | tail _ hv _ => exact hsucc _ hv

lemma Within.mono {seeds'} (hseeds : seeds ⊆ seeds') {k v}
    (h : Within succ seen seeds k v) : Within succ seen seeds' k v := by
  induction h with
  | seed hv hn => exact .seed (hseeds hv) hn
  | tail _ hv hn ih => exact .tail ih hv hn

lemma Within.not_mem {k v} (h : Within succ seen seeds k v) : v ∉ seen := by
  cases h with
  | seed _ hn => exact hn
  | tail _ _ hn => exact hn

lemma Within.of_avoiding {k v} (h : Within succ seen seeds k v) : Within succ [] seeds k v := by
  induction h with
  | seed hv _ => exact .seed hv not_mem_nil
  | tail _ hv _ ih => exact .tail ih hv not_mem_nil

/-- A chain through a seen node is no shorter than one from the seeds, if its successors are seeds. -/
lemma Within.avoiding (hseen : ∀ u ∈ seen, succ u ⊆ seeds) {k v} (h : Within succ [] seeds k v) :
    v ∉ seen → ∃ j ≤ k, Within succ seen seeds j v := by
  induction h with
  | seed hv _ => exact fun ne => ⟨0, le_rfl, .seed hv ne⟩
  | @tail k u v _ hv _ ih =>
    intro ne
    by_cases hu : u ∈ seen
    · exact ⟨0, Nat.zero_le _, .seed (hseen u hu hv) ne⟩
    · obtain ⟨j, hj, within⟩ := ih hu
      exact ⟨j + 1, Nat.succ_le_succ hj, within.tail hv ne⟩

lemma shortest_avoiding_iff (hseen : ∀ u ∈ seen, succ u ⊆ seeds) {k v} :
    Shortest succ seen seeds k v ↔ v ∉ seen ∧ Shortest succ [] seeds k v := by
  constructor
  · rintro ⟨within, least⟩
    refine ⟨within.not_mem, within.of_avoiding, fun j hj shorter => ?_⟩
    obtain ⟨i, hi, h⟩ := shorter.avoiding hseen within.not_mem
    exact least i (hi.trans_lt hj) h
  · rintro ⟨ne, within, least⟩
    obtain ⟨j, hj, h⟩ := within.avoiding hseen ne
    obtain rfl : j = k := by
      by_contra hjk
      exact least j (by omega) h.of_avoiding
    exact ⟨h, fun i hi shorter => least i hi shorter.of_avoiding⟩

lemma Inv.length_le {top P C s} (inv : Inv succ goes seen seeds first top P C s)
    (hseeds : seeds ⊆ nodes) (hsucc : ∀ u, succ u ⊆ nodes) : s.found.length ≤ nodes.length := by
  have sub : s.found.map Prod.fst ⊆ nodes := by
    intro v hv
    obtain ⟨⟨_, d⟩, hd, rfl⟩ := mem_map.mp hv
    obtain ⟨k, within, -⟩ := inv.sound _ d hd
    exact within.mem hseeds hsucc
  have hlen := (inv.nodup.subperm sub).length_le
  rwa [length_map] at hlen

variable [DecidableEq V]

lemma found_subset_meet (level : Nat) (s : State V) (v : V) : s.found ⊆ (s.meet level v).found := by
  unfold State.meet
  by_cases hv : v ∈ s.visited
  · rw [if_pos hv]
    exact List.Subset.refl _
  · rw [if_neg hv]
    exact subset_append_left _ _

lemma found_subset_meets (level : Nat) (vs : List V) (s : State V) :
    s.found ⊆ (vs.foldl (State.meet level) s).found := by
  induction vs generalizing s with
  | nil => exact List.Subset.refl _
  | cons v vs ih => exact List.Subset.trans (found_subset_meet level s v) (ih (s.meet level v))

/-- Meeting a node within reach on the top level keeps the invariant. -/
lemma Inv.meet {top P C s v k} (inv : Inv succ goes seen seeds first top P C s)
    (within : v ∉ seen → Within succ seen seeds k v) (top_eq : top = first + k)
    (comes : Comes goes first k) :
    Inv succ goes seen seeds first top P C (s.meet top v) ∧
      (v ∉ seen → ∃ e ≤ top, (v, e) ∈ (s.meet top v).found) := by
  unfold State.meet
  by_cases hv : v ∈ s.visited
  · rw [if_pos hv]
    refine ⟨inv, fun ne => ?_⟩
    obtain h | ⟨e, he⟩ := (inv.visited v).mp hv
    · exact absurd h ne
    · exact ⟨e, inv.near _ he, he⟩
  · rw [if_neg hv]
    have fresh : v ∉ seen ∧ ∀ d, (v, d) ∉ s.found := by
      simpa only [not_or, not_exists] using mt (inv.visited v).mpr hv
    refine ⟨?_, fun _ => ⟨top, le_rfl, by simp⟩⟩
    refine
      { visited := ?_, nodup := ?_, queued := ?_, sorted := ?_, near := ?_, level := ?_
        sound := ?_, handled := ?_, covered := ?_ }
    · intro x
      rw [mem_cons, inv.visited x]
      simp only [mem_append, mem_singleton, Prod.mk.injEq, exists_or, exists_and_left, exists_eq, and_true]
      tauto
    · rw [map_append, map_singleton]
      refine inv.nodup.append (nodup_singleton v) (disjoint_singleton.mpr fun hm => ?_)
      obtain ⟨⟨_, d⟩, hd, rfl⟩ := mem_map.mp hm
      exact fresh.2 d hd
    · intro x hx
      exact mem_append.mpr ((mem_append.mp hx).imp_left (inv.queued ·))
    · refine pairwise_append.mpr ⟨inv.sorted, pairwise_singleton _ _, fun x hx y hy => ?_⟩
      rw [mem_singleton.mp hy]
      exact inv.near x (inv.queued hx)
    · intro x hx
      cases mem_append.mp hx with
      | inl h => exact inv.near x h
      | inr h => rw [mem_singleton.mp h]
    · intro x hx
      cases mem_append.mp hx with
      | inl h => exact inv.level x h
      | inr h =>
        rw [mem_singleton.mp h]
        exact Nat.le_succ top
    · intro x d hx
      cases mem_append.mp hx with
      | inl h => exact inv.sound x d h
      | inr h =>
        cases mem_singleton.mp h
        exact ⟨k, within fresh.1, top_eq, comes⟩
    · intro x d hx
      cases mem_append.mp hx with
      | inl h => exact (inv.handled x d h).imp_left (mem_append_left _)
      | inr h => exact .inl (mem_append_right _ h)
    · intro u d hp hd x hx ne
      obtain ⟨e, he, hm⟩ := inv.covered u d hp hd x hx ne
      exact ⟨e, he, mem_append_left _ hm⟩

lemma Inv.meets {top P C k} (vs : List V) : ∀ {s}, Inv succ goes seen seeds first top P C s →
    (∀ v ∈ vs, v ∉ seen → Within succ seen seeds k v) → top = first + k → Comes goes first k →
    Inv succ goes seen seeds first top P C (vs.foldl (State.meet top) s) ∧
      ∀ v ∈ vs, v ∉ seen → ∃ e ≤ top, (v, e) ∈ (vs.foldl (State.meet top) s).found := by
  induction vs with
  | nil => exact fun inv _ _ _ => ⟨inv, fun _ h => absurd h not_mem_nil⟩
  | cons v vs ih =>
    intro s inv within top_eq comes
    obtain ⟨inv', hv⟩ := inv.meet (within v mem_cons_self) top_eq comes
    obtain ⟨inv'', hvs⟩ := ih inv' (fun u hu => within u (mem_cons_of_mem v hu)) top_eq comes
    refine ⟨inv'', fun u hu ne => ?_⟩
    cases mem_cons.mp hu with
    | inl e =>
      subst e
      obtain ⟨d, hd, hm⟩ := hv ne
      exact ⟨d, hd, found_subset_meets top vs _ hm⟩
    | inr h => exact hvs u h ne

variable [DecidablePred goes]

lemma Inv.step {top P s u d q} (inv : Inv succ goes seen seeds first top P P s)
    (hq : s.queue = (u, d) :: q) :
    Inv succ goes seen seeds first (d + 1) (fun x e => P x e ∨ x = u ∧ e = d)
      (fun x e => P x e ∨ x = u ∧ e = d) (step succ goes s) := by
  have hu : (u, d) ∈ s.queue := hq ▸ mem_cons_self
  have low : ∀ x ∈ q, d ≤ x.2 := (pairwise_cons.mp (hq ▸ inv.sorted)).1
  have popped : Inv succ goes seen seeds first (d + 1) (fun x e => P x e ∨ x = u ∧ e = d) P
      { s with queue := q } := by
    refine { inv with queued := ?_, sorted := ?_, near := ?_, level := ?_, handled := ?_ }
    · exact fun x hx => inv.queued (hq ▸ mem_cons_of_mem _ hx)
    · exact (pairwise_cons.mp (hq ▸ inv.sorted)).2
    · exact fun x hx => (inv.near x hx).trans (inv.level _ hu)
    · exact fun x hx => Nat.succ_le_succ (low x hx)
    · intro x e hx
      have h := inv.handled x e hx
      rw [hq, mem_cons, Prod.mk.injEq] at h
      tauto
  unfold Levels.step
  rw [hq]
  dsimp only
  by_cases hg : goes d
  · rw [if_pos hg]
    obtain ⟨k, within, e, comes⟩ := inv.sound u d (inv.queued hu)
    have comes' : Comes goes first (k + 1) := by
      intro j hj
      rcases Nat.lt_succ_iff_lt_or_eq.mp hj with h | rfl
      · exact comes j h
      · exact e ▸ hg
    obtain ⟨inv', hs⟩ := popped.meets (succ u) (k := k + 1) (fun v hv ne => within.tail hv ne)
      (by rw [e, Nat.add_assoc]) comes'
    refine { inv' with covered := ?_ }
    rintro x e' (hp | ⟨rfl, rfl⟩) he
    · exact inv'.covered x e' hp he
    · exact hs
  · rw [if_neg hg]
    refine { popped with covered := ?_ }
    rintro x e (hp | ⟨rfl, rfl⟩) he
    · exact popped.covered x e hp he
    · exact absurd he hg

lemma meet_length (level : Nat) (s : State V) (v : V) :
    (s.meet level v).found.length + s.queue.length =
      s.found.length + (s.meet level v).queue.length := by
  unfold State.meet
  by_cases hv : v ∈ s.visited
  · rw [if_pos hv]
  · rw [if_neg hv, length_append, length_append]
    omega

lemma meets_length (level : Nat) (vs : List V) (s : State V) :
    (vs.foldl (State.meet level) s).found.length + s.queue.length =
      s.found.length + (vs.foldl (State.meet level) s).queue.length := by
  induction vs generalizing s with
  | nil => rfl
  | cons v vs ih =>
    have h := ih (s.meet level v)
    have h' := meet_length level s v
    rw [foldl_cons]
    omega

lemma step_nil {s} (hq : s.queue = []) : step succ goes s = s := by
  rw [step, hq]

lemma step_cons {s u d q} (hq : s.queue = (u, d) :: q) :
    step succ goes s = if goes d then (succ u).foldl (State.meet (d + 1)) { s with queue := q }
      else { s with queue := q } := by
  rw [step, hq]

variable (succ goes seen seeds first) in
/-- The invariant between two turns: `taken` lists the nodes taken off the queue. -/
structure Between (taken : List (V × Nat)) (s : State V) : Prop where
  inv : ∃ top, Inv succ goes seen seeds first top (fun v d => (v, d) ∈ taken)
    (fun v d => (v, d) ∈ taken) s
  seeded : ∀ v ∈ seeds, v ∉ seen → ∃ e ≤ first, (v, e) ∈ s.found
  count : s.found.length = taken.length + s.queue.length

omit [DecidablePred goes] in
lemma Between.start : Between succ goes seen seeds first [] (start seen seeds first) := by
  have empty : Inv succ goes seen seeds first first (fun v d => (v, d) ∈ []) (fun v d => (v, d) ∈ [])
      { visited := seen, found := [], queue := [] } :=
    { visited := by simp
      nodup := nodup_nil
      queued := List.Subset.refl _
      sorted := .nil
      near := by simp
      level := by simp
      sound := by simp
      handled := by simp
      covered := by simp }
  obtain ⟨inv, hs⟩ := empty.meets seeds (k := 0) (fun v hv ne => .seed hv ne) rfl
    fun j hj => absurd hj (Nat.not_lt_zero j)
  refine ⟨⟨first, inv⟩, hs, ?_⟩
  simpa [Levels.start] using meets_length first seeds ⟨seen, [], []⟩

lemma Between.step {taken s x q} (bt : Between succ goes seen seeds first taken s) (hq : s.queue = x :: q) :
    Between succ goes seen seeds first (taken ++ [x]) (step succ goes s) := by
  obtain ⟨u, d⟩ := x
  obtain ⟨top, inv⟩ := bt.inv
  have sub : s.found ⊆ (Levels.step succ goes s).found ∧
      (Levels.step succ goes s).found.length + q.length =
        s.found.length + (Levels.step succ goes s).queue.length := by
    rw [step_cons hq]
    by_cases hg : goes d
    · rw [if_pos hg]
      exact ⟨found_subset_meets (d + 1) (succ u) { s with queue := q }, meets_length _ _ _⟩
    · rw [if_neg hg]
      exact ⟨List.Subset.refl _, rfl⟩
  refine ⟨⟨d + 1, ?_⟩, fun v hv ne => ?_, ?_⟩
  · simpa only [mem_append, mem_singleton, Prod.mk.injEq] using inv.step hq
  · obtain ⟨e, he, hm⟩ := bt.seeded v hv ne
    exact ⟨e, he, sub.1 hm⟩
  · have h := sub.2
    have h' := bt.count
    rw [hq, length_cons] at h'
    rw [length_append, length_singleton]
    omega

lemma run_between (succ : V → List V) (goes : Nat → Prop) [DecidablePred goes] (seen seeds : List V)
    (first n : Nat) :
    ∃ taken, Between succ goes seen seeds first taken (run succ goes n seen seeds first) ∧
      ((run succ goes n seen seeds first).queue = [] ∨ taken.length = n) := by
  induction n with
  | zero => exact ⟨[], .start, .inr rfl⟩
  | succ n ih =>
    obtain ⟨taken, bt, hn⟩ := ih
    have e : run succ goes (n + 1) seen seeds first =
        step succ goes (run succ goes n seen seeds first) := Function.iterate_succ_apply' _ _ _
    rw [e]
    cases hq : (run succ goes n seen seeds first).queue with
    | nil =>
      rw [step_nil hq]
      exact ⟨taken, bt, .inl hq⟩
    | cons x q =>
      refine ⟨taken ++ [x], bt.step hq, .inr ?_⟩
      rw [hq] at hn
      cases hn with
      | inl h => cases h
      | inr h => rw [length_append, length_singleton, h]

/-- As many turns as there are nodes empty the queue: no node is queued twice. -/
lemma run_queue (hseeds : seeds ⊆ nodes) (hsucc : ∀ u, succ u ⊆ nodes) {n}
    (hn : nodes.length ≤ n) : (run succ goes n seen seeds first).queue = [] := by
  obtain ⟨taken, bt, h⟩ := run_between succ goes seen seeds first n
  obtain ⟨top, inv⟩ := bt.inv
  have hlen := inv.length_le hseeds hsucc
  cases h with
  | inl h => exact h
  | inr h =>
    have hc := bt.count
    exact eq_nil_of_length_eq_zero (by omega)

lemma nodup_run {n} : ((run succ goes n seen seeds first).found.map Prod.fst).Nodup := by
  obtain ⟨taken, bt, -⟩ := run_between succ goes seen seeds first n
  obtain ⟨top, inv⟩ := bt.inv
  exact inv.nodup

/-- A chain brings a node to its level, or to one before it. -/
lemma exists_level_le {n} (hq : (run succ goes n seen seeds first).queue = []) {k v}
    (h : Within succ seen seeds k v) (comes : Comes goes first k) :
    ∃ d ≤ first + k, (v, d) ∈ (run succ goes n seen seeds first).found := by
  obtain ⟨taken, bt, -⟩ := run_between succ goes seen seeds first n
  obtain ⟨top, inv⟩ := bt.inv
  induction h with
  | seed hv ne => exact bt.seeded _ hv ne
  | @tail k u v _ hv ne ih =>
    obtain ⟨d, hd, hm⟩ := ih fun j hj => comes j (Nat.lt_succ_of_lt hj)
    obtain ⟨j, -, rfl, -⟩ := inv.sound u d hm
    have taken_u := (inv.handled u _ hm).resolve_left (by rw [hq]; exact not_mem_nil)
    obtain ⟨e, he, hm'⟩ := inv.covered u _ taken_u (comes j (by omega)) v hv ne
    exact ⟨e, by omega, hm'⟩

/-- Once the queue is empty, the nodes written down are those that a chain leads to along levels that
the search goes on from, each with the length of the shortest chain. -/
theorem mem_run_level {n} (hq : (run succ goes n seen seeds first).queue = []) {v d} :
    (v, d) ∈ (run succ goes n seen seeds first).found ↔
      ∃ k, d = first + k ∧ Shortest succ seen seeds k v ∧ Comes goes first k := by
  obtain ⟨taken, bt, -⟩ := run_between succ goes seen seeds first n
  obtain ⟨top, inv⟩ := bt.inv
  constructor
  · intro hd
    obtain ⟨k, within, rfl, comes⟩ := inv.sound v d hd
    refine ⟨k, rfl, ⟨within, fun j hj shorter => ?_⟩, comes⟩
    obtain ⟨e, he, hm⟩ := exists_level_le hq shorter fun i hi => comes i (hi.trans hj)
    have heq := congrArg Prod.snd (inj_on_of_nodup_map inv.nodup hd hm rfl)
    omega
  · rintro ⟨k, rfl, ⟨within, least⟩, comes⟩
    obtain ⟨d, hd, hm⟩ := exists_level_le hq within comes
    obtain ⟨j, shorter, rfl, -⟩ := inv.sound v d hm
    have hj : ¬ j < k := fun hj => least j hj shorter
    obtain rfl : j = k := by omega
    exact hm

/-- The nodes written down, with any level. -/
theorem mem_run {n} (hq : (run succ goes n seen seeds first).queue = []) {v} :
    (∃ d, (v, d) ∈ (run succ goes n seen seeds first).found) ↔
      ∃ k, Within succ seen seeds k v ∧ Comes goes first k := by
  constructor
  · rintro ⟨d, hd⟩
    obtain ⟨k, -, ⟨within, -⟩, comes⟩ := (mem_run_level hq).mp hd
    exact ⟨k, within, comes⟩
  · rintro ⟨k, within, comes⟩
    obtain ⟨d, -, hm⟩ := exists_level_le hq within comes
    exact ⟨d, hm⟩

end Invariant

end SocioWorkspace.Levels
