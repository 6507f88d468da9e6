import Mathlib

/-!
# Two-role breadth-first search

A worklist search in which a node is met in one of two roles: to *walk* on from, or as a *stop*, which is
recorded and goes no further. A single visited flag serves both roles, so only the role in which a node is met
first counts. What such a search computes, for any successors.
-/

namespace SocioWorkspace.Search
open List Prod

/-- The role in which a node is met: to be walked on from, or only to be recorded. -/
inductive Role where
  | walk
  | stop
deriving DecidableEq, Repr

structure State (V : Type*) where
  visited : List V
  reached : List V
  queue : List V

section Machine
variable {V : Type*} [DecidableEq V] (succ : V → List V × List V)

/-- Meet a node in a role: a node that carries the visited flag is skipped, whatever its role. -/
def State.touch (s : State V) (e : V × Role) : State V :=
  if e.1 ∈ s.visited then s
  else
    { visited := e.1 :: s.visited
      reached := s.reached ++ [e.1]
      queue := match e.2 with
        | .walk => s.queue ++ [e.1]
        | .stop => s.queue }

/-- The nodes met from `d`, in the order in which they are met. -/
def touches (d : V) : List (V × Role) := (succ d).1.map (·, Role.walk) ++ (succ d).2.map (·, Role.stop)

def step (s : State V) : State V :=
  match s.queue with
  | [] => s
  | d :: q => (touches succ d).foldl State.touch { s with queue := q }

def start (src : V) : State V := { visited := [src], reached := [], queue := [src] }

def run (n : Nat) (src : V) : State V := (step succ)^[n] (start src)

end Machine

/-- The order in which a breadth-first search meets routes. -/
abbrev Earlier : List Nat → List Nat → Prop := List.Shortlex (· < ·)

lemma Earlier.wf : WellFounded Earlier := List.Shortlex.wf Nat.lt_wfRel.wf

lemma Earlier.irrefl {w} : ¬ Earlier w w := fun h => Earlier.wf.irrefl.irrefl w h

lemma Earlier.asymm {w w'} (h : Earlier w w') : ¬ Earlier w' w := Earlier.wf.asymmetric _ _ h

lemma Earlier.trichotomy (w w') : Earlier w w' ∨ w = w' ∨ Earlier w' w := by
  rcases eq_or_ne w w' with e | ne
  · exact .inr (.inl e)
  · by_cases h : Earlier w w'
    · exact .inl h
    · by_cases h' : Earlier w' w
      · exact .inr (.inr h')
      · exact absurd (Std.Trichotomous.trichotomous w w' h h') ne

lemma Earlier.snoc_self (w i) : Earlier w (w ++ [i]) := .of_length_lt (by simp)

lemma Earlier.snoc_right {i j} (w) (h : i < j) : Earlier (w ++ [i]) (w ++ [j]) :=
  List.Shortlex.append_left (by simpa using h) w

lemma Earlier.snoc {w w'} (h : Earlier w w') (i j) : Earlier (w ++ [i]) (w' ++ [j]) := by
  rcases shortlex_def.mp h with hlen | ⟨hlen, hlex⟩
  · exact .of_length_lt (by simpa using hlen)
  · refine .of_lex (by simpa using hlen) ?_
    clear h
    induction hlex with
    | nil => simp at hlen
    | cons _ ih => exact .cons (ih (by simpa using hlen))
    | rel hr => exact .rel hr

lemma Earlier.trans {a b c} (hab : Earlier a b) (hbc : Earlier b c) : Earlier a c := by
  rcases shortlex_def.mp hab with h1 | ⟨h1, l1⟩ <;>
    rcases shortlex_def.mp hbc with h2 | ⟨h2, l2⟩
  · exact .of_length_lt (h1.trans h2)
  · exact .of_length_lt (h1.trans_eq h2)
  · exact .of_length_lt (h1.trans_lt h2)
  · exact .of_lex (h1.trans h2) (List.lt_trans l1 l2)

section Routes
variable {V : Type*} (succ : V → List V × List V) (src : V)

/-- The route `w` is the first to meet `v`, and does so in role `r`: the empty route meets the source, and a
live walk is extended unless an earlier route is live for the same node. -/
def Live : List Nat → V → Role → Prop :=
  Earlier.wf.fix fun w live v r =>
    (w = [] ∧ v = src ∧ r = .walk) ∨
    ∃ u i d, ∃ h : w = u ++ [i],
      live u (h ▸ Earlier.snoc_self u i) d .walk ∧ (touches succ d)[i]? = some (v, r) ∧
      ∀ w' (h' : Earlier w' w) r', ¬ live w' h' v r'

variable {succ src}

lemma live_iff {w v r} : Live succ src w v r ↔
    (w = [] ∧ v = src ∧ r = .walk) ∨
    ∃ u i d, w = u ++ [i] ∧ Live succ src u d .walk ∧ (touches succ d)[i]? = some (v, r) ∧
      ∀ w' r', Earlier w' w → ¬ Live succ src w' v r' := by
  conv_lhs => rw [Live, WellFounded.fix_eq]
  constructor
  · rintro (h | ⟨u, i, d, e, lv, ht, hf⟩)
    · exact .inl h
    · exact .inr ⟨u, i, d, e, lv, ht, fun w' r' h' => hf w' h' r'⟩
  · rintro (h | ⟨u, i, d, e, lv, ht, hf⟩)
    · exact .inl h
    · exact .inr ⟨u, i, d, e, lv, ht, fun w' h' r' => hf w' r' h'⟩

variable (succ src)

def Touched (v : V) : Prop := ∃ w r, Live succ src w v r

/-- The first route to the node meets it as a stop, so the search never walks on from it. -/
def Eclipsed (v : V) : Prop := ∃ w, Live succ src w v .stop

def Walk (v : V) : Prop := Relation.ReflTransGen (fun d v => v ∈ (succ d).1) src v

def Reach (v : V) : Prop := Walk succ src v ∨ ∃ d, Walk succ src d ∧ v ∈ (succ d).2

variable {succ src}

lemma mem_touches {d v r} : (v, r) ∈ touches succ d ↔
    (r = .walk ∧ v ∈ (succ d).1) ∨ (r = .stop ∧ v ∈ (succ d).2) := by
  cases r <;> simp [touches]

lemma live_source : Live succ src [] src .walk := live_iff.mpr (.inl ⟨rfl, rfl, rfl⟩)

lemma Live.touched_succ {w d v r} (lv : Live succ src w d .walk) (h : (v, r) ∈ touches succ d) :
    Touched succ src v := by
  obtain ⟨i, hi⟩ := mem_iff_getElem?.mp h
  by_cases hf : ∃ w' r', Earlier w' (w ++ [i]) ∧ Live succ src w' v r'
  · obtain ⟨w', r', _, lv'⟩ := hf
    exact ⟨w', r', lv'⟩
  · refine ⟨w ++ [i], r, live_iff.mpr (.inr ⟨w, i, d, rfl, lv, hi, ?_⟩)⟩
    exact fun w' r' he lv' => hf ⟨w', r', he, lv'⟩

lemma Live.walk {w v} (lv : Live succ src w v .walk) : Walk succ src v := by
  induction w using List.reverseRecOn generalizing v with
  | nil =>
    rcases live_iff.mp lv with ⟨_, rfl, _⟩ | ⟨u, i, d, e, _⟩
    · exact .refl
    · simp at e
  | append_singleton u i ih =>
    rcases live_iff.mp lv with ⟨e, _⟩ | ⟨u', i', d, e, lvd, ht, _⟩
    · simp at e
    · obtain ⟨rfl, rfl⟩ := append_inj' e rfl |>.imp_right (by simpa using ·)
      have hm := mem_touches.mp (mem_of_getElem? ht)
      exact (ih lvd).tail (by simpa using hm)

lemma Live.stop {w v} (lv : Live succ src w v .stop) : ∃ d, Walk succ src d ∧ v ∈ (succ d).2 := by
  rcases live_iff.mp lv with ⟨_, _, e⟩ | ⟨u, i, d, _, lvd, ht, _⟩
  · cases e
  · have hm := mem_touches.mp (mem_of_getElem? ht)
    exact ⟨d, lvd.walk, by simpa using hm⟩

/-- Soundness: only what walking reaches is touched. -/
lemma Touched.reach {v} (h : Touched succ src v) : Reach succ src v := by
  obtain ⟨w, r, lv⟩ := h
  cases r with
  | walk => exact .inl lv.walk
  | stop => exact .inr lv.stop

lemma Touched.eclipsed_or_succ {d} (h : Touched succ src d) :
    Eclipsed succ src d ∨ ∀ v r, (v, r) ∈ touches succ d → Touched succ src v := by
  obtain ⟨w, r, lv⟩ := h
  cases r with
  | walk => exact .inr fun v r hm => lv.touched_succ hm
  | stop => exact .inl ⟨w, lv⟩

/-- The search touches all that walking reaches exactly if every successor of an eclipsed node of a walk is
touched all the same. -/
theorem touched_complete_iff :
    (∀ v, Reach succ src v → Touched succ src v) ↔
      ∀ a, Walk succ src a → Eclipsed succ src a →
        ∀ v r, (v, r) ∈ touches succ a → Touched succ src v := by
  constructor
  · intro hc a wa _ v r hm
    rcases mem_touches.mp hm with ⟨_, hm⟩ | ⟨_, hm⟩
    · exact hc v (.inl (wa.tail hm))
    · exact hc v (.inr ⟨a, wa, hm⟩)
  · intro he
    have hsucc : ∀ d, Walk succ src d → Touched succ src d →
        ∀ v r, (v, r) ∈ touches succ d → Touched succ src v := fun d wd td =>
      td.eclipsed_or_succ.elim (he d wd) id
    have hwalk : ∀ d, Walk succ src d → Touched succ src d := by
      intro d wd
      induction wd with
      | refl => exact ⟨[], .walk, live_source⟩
      | tail wd hm ih => exact hsucc _ wd ih _ .walk (mem_touches.mpr (.inl ⟨rfl, hm⟩))
    rintro v (wv | ⟨d, wd, hm⟩)
    · exact hwalk v wv
    · exact hsucc d wd (hwalk d wd) v .stop (mem_touches.mpr (.inr ⟨rfl, hm⟩))

/-- A search that meets nothing from a node that another one does not meet from it stays within the other one
exactly if the nodes that only the other one eclipses lead to nothing new. -/
theorem touched_subset_iff {succ' : V → List V × List V}
    (hsub : ∀ d v r, (v, r) ∈ touches succ' d → ∃ r', (v, r') ∈ touches succ d) :
    (∀ v, Touched succ' src v → Touched succ src v) ↔
      ∀ d w, Live succ' src w d .walk → Eclipsed succ src d →
        ∀ v r, (v, r) ∈ touches succ' d → Touched succ src v := by
  constructor
  · intro h d w lv _ v r hm
    exact h v (lv.touched_succ hm)
  · rintro h v ⟨w, r, lv⟩
    -- Along the route of the first search, the other one meets every node.
    induction w using List.reverseRecOn generalizing v r with
    | nil =>
      obtain ⟨-, rfl, -⟩ | ⟨u, i, d, e, -⟩ := live_iff.mp lv
      · exact ⟨[], .walk, live_source⟩
      · simp at e
    | append_singleton w i ih =>
      obtain ⟨e, -⟩ | ⟨u, j, d, e, lvd, ht, -⟩ := live_iff.mp lv
      · simp at e
      · obtain rfl : w = u := (append_inj' e rfl).1
        have hm := mem_of_getElem? ht
        cases (ih d .walk lvd).eclipsed_or_succ with
        | inl hd => exact h d w lvd hd v r hm
        | inr hall =>
          obtain ⟨r', hm'⟩ := hsub d v r hm
          exact hall v r' hm'

end Routes

abbrev Discovery (V : Type*) := List Nat × V × Role

section Invariant
variable {V : Type*} (succ : V → List V × List V) (src : V)

def walkers (log : List (Discovery V)) : List (List Nat × V) :=
  log.filterMap fun e => match e.2.2 with
    | .walk => some (e.1, e.2.1)
    | .stop => none

/-- The invariant of the search. `log` lists the discoveries, and `P u d i` says that position `i` of `d`,
discovered by `u`, has been met. -/
structure Inv (P : List Nat → V → Nat → Prop) (log : List (Discovery V)) (s : State V) : Prop where
  visited : ∀ v, v ∈ s.visited ↔ ∃ w r, (w, v, r) ∈ log
  reached : ∀ v, v ∈ s.reached ↔ v ≠ src ∧ v ∈ s.visited
  nodup : s.reached.Nodup
  source : ([], src, Role.walk) ∈ log
  sorted : log.Pairwise fun a b => Earlier a.1 b.1
  distinct : log.Pairwise fun a b => a.2.1 ≠ b.2.1
  origin : ∀ w v r, (w, v, r) ∈ log → (w = [] ∧ v = src ∧ r = .walk) ∨
    ∃ u i d, w = u ++ [i] ∧ P u d i ∧ (touches succ d)[i]? = some (v, r)
  walked : ∀ u d i, P u d i → (u, d, Role.walk) ∈ log
  covered : ∀ u d i v r, P u d i → (touches succ d)[i]? = some (v, r) →
    ∃ w r', (w, v, r') ∈ log ∧ ¬ Earlier (u ++ [i]) w

variable {succ src} {log : List (Discovery V)}

lemma mem_walkers {u d} : (u, d) ∈ walkers log ↔ (u, d, Role.walk) ∈ log := by
  simp only [walkers, mem_filterMap, Prod.exists]
  constructor
  · rintro ⟨w, v, r, hm, he⟩
    cases r with
    | walk => obtain ⟨rfl, rfl⟩ : w = u ∧ v = d := by simpa using he
              exact hm
    | stop => cases he
  · exact fun hm => ⟨u, d, .walk, hm, rfl⟩

lemma walkers_append (log new : List (Discovery V)) : walkers (log ++ new) = walkers log ++ walkers new :=
  filterMap_append

lemma walkers_pairwise {R : Discovery V → Discovery V → Prop}
    {S : List Nat × V → List Nat × V → Prop} (hp : log.Pairwise R)
    (hRS : ∀ w v w' v', R (w, v, .walk) (w', v', .walk) → S (w, v) (w', v')) :
    (walkers log).Pairwise S := by
  refine List.Pairwise.filterMap _ ?_ hp
  rintro ⟨w, v, r⟩ ⟨w', v', r'⟩ he b hb b' hb'
  cases r with
  | stop => cases hb
  | walk =>
    cases r' with
    | stop => cases hb'
    | walk =>
      cases hb
      cases hb'
      exact hRS _ _ _ _ he

lemma pairwise_snoc {α : Type*} {R : α → α → Prop} {l a} (hp : l.Pairwise R)
    (h : ∀ b ∈ l, R b a) : (l ++ [a]).Pairwise R := by
  refine pairwise_append.mpr ⟨hp, pairwise_singleton _ _, fun b hb c hc => ?_⟩
  rw [mem_singleton.mp hc]
  exact h b hb

lemma eq_of_pairwise {α : Type*} {R : α → α → Prop} {l : List α} {a b}
    (hp : l.Pairwise R) (ha : a ∈ l) (hb : b ∈ l) (hab : ¬ R a b) (hba : ¬ R b a) : a = b := by
  by_contra ne
  rcases pairwise_iff_getElem.mp hp with hp
  obtain ⟨i, hi, rfl⟩ := getElem_of_mem ha
  obtain ⟨j, hj, rfl⟩ := getElem_of_mem hb
  rcases lt_trichotomy i j with h | rfl | h
  · exact hab (hp i j hi hj h)
  · exact ne rfl
  · exact hba (hp j i hj hi h)

lemma Inv.node_unique {P log s} (inv : Inv succ src P log s) {w w' v r r'}
    (h : (w, v, r) ∈ log) (h' : (w', v, r') ∈ log) : w = w' ∧ r = r' := by
  have e := eq_of_pairwise inv.distinct h h' (fun ne => ne rfl) (fun ne => ne rfl)
  simpa using e

lemma Inv.route_unique {P log s} (inv : Inv succ src P log s) {w v v' r r'}
    (h : (w, v, r) ∈ log) (h' : (w, v', r') ∈ log) : v = v' ∧ r = r' := by
  have e := eq_of_pairwise inv.sorted h h' Earlier.irrefl Earlier.irrefl
  simpa using e

/-- A position may count as met once its discovery is known. -/
lemma Inv.mono {P P' log s} (inv : Inv succ src P log s) (sub : ∀ u d i, P u d i → P' u d i)
    (walked : ∀ u d i, P' u d i → (u, d, Role.walk) ∈ log)
    (covered : ∀ u d i v r, P' u d i → (touches succ d)[i]? = some (v, r) →
      ∃ w r', (w, v, r') ∈ log ∧ ¬ Earlier (u ++ [i]) w) : Inv succ src P' log s := by
  refine { inv with origin := ?_, walked := walked, covered := covered }
  intro w v r hm
  cases inv.origin w v r hm with
  | inl h => exact .inl h
  | inr h =>
    obtain ⟨u, i, d, e, hp, ht⟩ := h
    exact .inr ⟨u, i, d, e, sub u d i hp, ht⟩

/-- Once every position of every walked discovery has been met, the log is the live routes. -/
lemma Inv.live_iff_mem {P log s} (inv : Inv succ src P log s)
    (all : ∀ u d i, (u, d, Role.walk) ∈ log → P u d i) {w v r} : Live succ src w v r ↔ (w, v, r) ∈ log := by
  induction w using Earlier.wf.induction generalizing v r with
  | _ w ih =>
    rw [live_iff]
    constructor
    · rintro (⟨rfl, rfl, rfl⟩ | ⟨u, i, d, rfl, lv, ht, hf⟩)
      · exact inv.source
      · have hd := (ih u (Earlier.snoc_self u i)).mp lv
        obtain ⟨w0, r0, h0, hle⟩ := inv.covered u d i v r (all u d i hd) ht
        -- the discovery of `v` is not later than this route, and an earlier one would be live
        have e : w0 = u ++ [i] := by
          rcases Earlier.trichotomy w0 (u ++ [i]) with hlt | e | hgt
          · exact absurd ((ih w0 hlt).mpr h0) (hf w0 r0 hlt)
          · exact e
          · exact absurd hgt hle
        subst e
        rcases inv.origin _ _ _ h0 with ⟨e, _⟩ | ⟨u', i', d', e, hp, ht'⟩
        · simp at e
        · obtain ⟨rfl, rfl⟩ := append_inj' e rfl |>.imp_right (by simpa using ·)
          obtain ⟨rfl, _⟩ := inv.route_unique hd (inv.walked _ _ _ hp)
          obtain rfl : r = r0 := by simpa using ht.symm.trans ht'
          exact h0
    · intro hm
      rcases inv.origin _ _ _ hm with h | ⟨u, i, d, rfl, hp, ht⟩
      · exact .inl h
      · refine .inr ⟨u, i, d, rfl, ?_, ht, ?_⟩
        · exact (ih u (Earlier.snoc_self u i)).mpr (inv.walked _ _ _ hp)
        · intro w' r' hlt lv'
          obtain ⟨rfl, _⟩ := inv.node_unique ((ih w' hlt).mp lv') hm
          exact Earlier.irrefl hlt

/-- Between two turns the walked discoveries are those taken off the queue, then those in it. -/
structure Between (src : V) (succ : V → List V × List V) (taken pending : List (List Nat × V))
    (log : List (Discovery V)) (s : State V) : Prop where
  inv : Inv succ src (fun u d _ => (u, d) ∈ taken) log s
  walkers : walkers log = taken ++ pending
  queue : s.queue = pending.map Prod.snd

lemma Between.start : Between src succ [] [([], src)] [([], src, .walk)] (start src) where
  inv :=
    { visited := by simp [Search.start]
      reached := by simp [Search.start]
      nodup := nodup_nil
      source := mem_singleton.mpr rfl
      sorted := pairwise_singleton _ _
      distinct := pairwise_singleton _ _
      origin := fun w v r hm => .inl (by simpa using hm)
      walked := by simp
      covered := by simp }
  walkers := rfl
  queue := rfl

end Invariant

section Loop
variable {V : Type*} [DecidableEq V] {succ : V → List V × List V} {src : V}

section
variable {P : List Nat → V → Nat → Prop} {log : List (Discovery V)} {s : State V} {u : List Nat}
  {d v : V} {i : Nat} {r : Role}

omit [DecidableEq V] in
/-- A node that carries the flag changes nothing: its discovery covers the position. -/
lemma Inv.touch_visited (inv : Inv succ src P log s) (hd : (u, d, Role.walk) ∈ log)
    (ht : (Search.touches succ d)[i]? = some (v, r)) (hlast : ∀ e ∈ log, Earlier e.1 (u ++ [i]))
    (hv : v ∈ s.visited) : Inv succ src (fun u' d' j => P u' d' j ∨ (u' = u ∧ d' = d ∧ j = i)) log s := by
  obtain ⟨w, q, hw⟩ := (inv.visited v).mp hv
  refine inv.mono (fun _ _ _ => .inl) ?_ ?_
  · rintro u' d' j (hp | ⟨rfl, rfl, rfl⟩)
    · exact inv.walked u' d' j hp
    · exact hd
  · rintro u' d' j x q' (hp | ⟨rfl, rfl, rfl⟩) ht'
    · exact inv.covered u' d' j x q' hp ht'
    · obtain ⟨rfl, rfl⟩ : v = x ∧ r = q' := by simpa using ht.symm.trans ht'
      exact ⟨w, q, hw, (hlast _ hw).asymm⟩

/-- A node without the flag is discovered on this position, after all others. -/
lemma Inv.touch_fresh (inv : Inv succ src P log s) (hd : (u, d, Role.walk) ∈ log)
    (ht : (Search.touches succ d)[i]? = some (v, r)) (hlast : ∀ e ∈ log, Earlier e.1 (u ++ [i]))
    (hv : v ∉ s.visited) :
    Inv succ src (fun u' d' j => P u' d' j ∨ (u' = u ∧ d' = d ∧ j = i))
      (log ++ [(u ++ [i], v, r)]) (s.touch (v, r)) := by
  have hfresh : ∀ e ∈ log, e.2.1 ≠ v := by
    rintro ⟨w, x, q⟩ hm rfl
    exact hv ((inv.visited x).mpr ⟨w, q, hm⟩)
  have hsrc : v ≠ src := fun e => hfresh _ inv.source e.symm
  rw [State.touch, if_neg hv]
  refine
    { visited := ?_, reached := ?_, nodup := ?_, source := mem_append_left _ inv.source
      sorted := ?_, distinct := ?_, origin := ?_, walked := ?_, covered := ?_ }
  · intro x
    rw [mem_cons, inv.visited x]
    simp only [mem_append, mem_singleton, mk.injEq]
    refine ⟨?_, ?_⟩
    · rintro (rfl | ⟨w, q, hm⟩)
      · exact ⟨u ++ [i], r, .inr ⟨rfl, rfl, rfl⟩⟩
      · exact ⟨w, q, .inl hm⟩
    · rintro ⟨w, q, hm | ⟨-, e, -⟩⟩
      · exact .inr ⟨w, q, hm⟩
      · exact .inl e
  · intro x
    rw [mem_append, inv.reached x, mem_singleton, mem_cons]
    refine ⟨?_, ?_⟩
    · rintro (⟨ne, hm⟩ | rfl)
      · exact ⟨ne, .inr hm⟩
      · exact ⟨hsrc, .inl rfl⟩
    · rintro ⟨ne, rfl | hm⟩
      · exact .inr rfl
      · exact .inl ⟨ne, hm⟩
  · refine inv.nodup.append (nodup_singleton v) (disjoint_singleton.mpr fun hx => ?_)
    exact hv ((inv.reached v).mp hx).2
  · exact pairwise_snoc inv.sorted hlast
  · exact pairwise_snoc inv.distinct hfresh
  · intro w x q hm
    cases mem_append.mp hm with
    | inl hm =>
      exact (inv.origin w x q hm).imp_right fun ⟨u', j, d', e, hp, ht'⟩ =>
        ⟨u', j, d', e, .inl hp, ht'⟩
    | inr hm =>
      obtain ⟨rfl, rfl, rfl⟩ : w = u ++ [i] ∧ x = v ∧ q = r := by simpa using hm
      exact .inr ⟨u, i, d, rfl, .inr ⟨rfl, rfl, rfl⟩, ht⟩
  · rintro u' d' j (hp | ⟨rfl, rfl, rfl⟩)
    · exact mem_append_left _ (inv.walked u' d' j hp)
    · exact mem_append_left _ hd
  · rintro u' d' j x q (hp | ⟨rfl, rfl, rfl⟩) ht'
    · obtain ⟨w, q', hm, hle⟩ := inv.covered u' d' j x q hp ht'
      exact ⟨w, q', mem_append_left _ hm, hle⟩
    · obtain ⟨rfl, rfl⟩ : v = x ∧ r = q := by simpa using ht.symm.trans ht'
      exact ⟨_, r, mem_append_right _ (mem_singleton.mpr rfl), Earlier.irrefl⟩

lemma Inv.touch (inv : Inv succ src P log s) (hd : (u, d, Role.walk) ∈ log)
    (ht : (Search.touches succ d)[i]? = some (v, r)) (hlast : ∀ e ∈ log, Earlier e.1 (u ++ [i])) :
    ∃ new, Inv succ src (fun u' d' j => P u' d' j ∨ (u' = u ∧ d' = d ∧ j = i)) (log ++ new)
        (s.touch (v, r)) ∧
      (s.touch (v, r)).queue = s.queue ++ (walkers new).map snd ∧
      ∀ e ∈ new, e.1 = u ++ [i] := by
  by_cases hv : v ∈ s.visited
  · refine ⟨[], ?_, by simp [State.touch, hv, walkers], by simp⟩
    rw [append_nil, State.touch, if_pos hv]
    exact inv.touch_visited hd ht hlast hv
  · refine ⟨[(u ++ [i], v, r)], inv.touch_fresh hd ht hlast hv, ?_, by simp⟩
    cases r <;> simp [State.touch, hv, walkers]
end

/-- Meeting the positions of one node from `i` on, by induction on what is left of them. -/
lemma Inv.touches {P : List Nat → V → Nat → Prop} {u d} (rest : List (V × Role)) :
    ∀ {i log s}, (Search.touches succ d).drop i = rest →
      Inv succ src (fun u' d' j => P u' d' j ∨ (u' = u ∧ d' = d ∧ j < i)) log s →
      (u, d, Role.walk) ∈ log → (∀ e ∈ log, Earlier e.1 (u ++ [i])) →
      ∃ new, Inv succ src (fun u' d' j => P u' d' j ∨ (u' = u ∧ d' = d)) (log ++ new)
          (rest.foldl State.touch s) ∧
        (rest.foldl State.touch s).queue = s.queue ++ (walkers new).map snd := by
  induction rest with
  | nil =>
    intro i log s hrest inv hd _
    have hlen : (Search.touches succ d).length ≤ i := drop_eq_nil_iff.mp hrest
    refine ⟨[], ?_, by simp [walkers]⟩
    rw [append_nil, foldl_nil]
    refine inv.mono (fun _ _ _ hp => hp.imp_right fun h => ⟨h.1, h.2.1⟩) ?_ ?_
    · rintro u' d' j (hp | ⟨rfl, rfl⟩)
      · exact inv.walked u' d' j (.inl hp)
      · exact hd
    · rintro u' d' j x q (hp | ⟨rfl, rfl⟩) ht
      · exact inv.covered u' d' j x q (.inl hp) ht
      · have hj := (List.getElem?_eq_some_iff.mp ht).1
        exact inv.covered u' d' j x q (.inr ⟨rfl, rfl, hj.trans_le hlen⟩) ht
  | cons e rest ih =>
    intro i log s hrest inv hd hlast
    obtain ⟨v, r⟩ := e
    have ht : (Search.touches succ d)[i]? = some (v, r) := by
      rw [← head?_drop, hrest]
      rfl
    have hrest' : (Search.touches succ d).drop (i + 1) = rest := by
      rw [← tail_drop, hrest]
      rfl
    obtain ⟨new, inv', hq, hnew⟩ := inv.touch hd ht hlast
    have inv'' : Inv succ src (fun u' d' j => P u' d' j ∨ (u' = u ∧ d' = d ∧ j < i + 1))
        (log ++ new) (s.touch (v, r)) := by
      have hP : ∀ u' d' j, ((P u' d' j ∨ (u' = u ∧ d' = d ∧ j < i)) ∨ (u' = u ∧ d' = d ∧ j = i)) ↔
          (P u' d' j ∨ (u' = u ∧ d' = d ∧ j < i + 1)) := by
        intro u' d' j
        rw [or_assoc, ← and_or_left, ← and_or_left, ← le_iff_lt_or_eq, Nat.lt_succ_iff]
      simpa only [hP] using inv'
    have hlast' : ∀ e ∈ log ++ new, Earlier e.1 (u ++ [i + 1]) := by
      intro e he
      rcases mem_append.mp he with he | he
      · exact (hlast e he).trans (Earlier.snoc_right u i.lt_succ_self)
      · rw [hnew e he]
        exact Earlier.snoc_right u i.lt_succ_self
    obtain ⟨new', inv3, hq'⟩ := ih hrest' inv'' (mem_append_left _ hd) hlast'
    refine ⟨new ++ new', ?_, ?_⟩
    · rw [← append_assoc]
      exact inv3
    · rw [foldl_cons, hq', hq, walkers_append, map_append, append_assoc]

lemma Between.step {taken pending u d log s} (bt : Between src succ taken ((u, d) :: pending) log s) :
    ∃ new, Between src succ (taken ++ [(u, d)]) (pending ++ Search.walkers new) (log ++ new)
      (step succ s) := by
  have hd : (u, d, Role.walk) ∈ log := mem_walkers.mp (by rw [bt.walkers]; simp)
  have hord : ∀ u' d', (u', d') ∈ taken → Earlier u' u := by
    intro u' d' hm
    have hp := walkers_pairwise (S := fun a b => Earlier a.1 b.1) bt.inv.sorted
      fun _ _ _ _ h => h
    rw [bt.walkers] at hp
    exact (pairwise_append.mp hp).2.2 _ hm _ (mem_cons_self ..)
  -- everything discovered so far was met from a node taken earlier, so by an earlier route
  have hlast : ∀ e ∈ log, Earlier e.1 (u ++ [0]) := by
    rintro ⟨w, v, r⟩ he
    rcases bt.inv.origin w v r he with ⟨rfl, _⟩ | ⟨u', j, d', rfl, hp, _⟩
    · exact .of_length_lt (by simp)
    · exact (hord u' d' hp).snoc j 0
  have inv0 : Inv succ src (fun u' d' j => (u', d') ∈ taken ∨ (u' = u ∧ d' = d ∧ j < 0)) log
      { s with queue := pending.map snd } := by
    simp only [Nat.not_lt_zero, and_false, or_false]
    exact { bt.inv with }
  obtain ⟨new, inv', hq⟩ := Inv.touches (Search.touches succ d) (i := 0) rfl inv0 hd hlast
  have hstep : Search.step succ s =
      (Search.touches succ d).foldl State.touch { s with queue := pending.map snd } := by
    rw [Search.step, bt.queue]
    rfl
  refine ⟨new, ?_, ?_, ?_⟩
  · rw [hstep]
    have hP : ∀ u' d', (u', d') ∈ taken ++ [(u, d)] ↔ (u', d') ∈ taken ∨ (u' = u ∧ d' = d) := by
      simp
    simpa only [hP] using inv'
  · rw [walkers_append, bt.walkers]
    simp
  · rw [hstep, hq, map_append]

lemma run_between (succ : V → List V × List V) (src : V) (n : Nat) : ∃ taken pending log,
    Between src succ taken pending log (run succ n src) ∧
      (pending = [] ∨ taken.length = n) := by
  induction n with
  | zero => exact ⟨[], _, _, Between.start, .inr rfl⟩
  | succ n ih =>
    obtain ⟨taken, pending, log, bt, hn⟩ := ih
    rw [run, Function.iterate_succ_apply']
    cases pending with
    | nil =>
      refine ⟨taken, [], log, ?_, .inl rfl⟩
      have hq : (run succ n src).queue = [] := bt.queue
      change Between src succ taken [] log (step succ (run succ n src))
      rw [step, hq]
      exact bt
    | cons x pending =>
      obtain ⟨new, bt'⟩ := bt.step
      refine ⟨_, _, _, bt', .inr ?_⟩
      rcases hn with hn | hn
      · cases hn
      · simp [hn]

variable [Fintype V]

/-- `Fintype.card V` turns empty the queue: no node is queued twice. -/
lemma run_final (succ : V → List V × List V) (src : V) {n} (hn : Fintype.card V ≤ n) : ∃ taken log,
    Between src succ taken [] log (run succ n src) := by
  obtain ⟨taken, pending, log, bt, h⟩ := run_between succ src n
  have hnodup : ((taken ++ pending).map snd).Nodup := by
    rw [← bt.walkers]
    exact pairwise_map.mpr (walkers_pairwise bt.inv.distinct fun _ _ _ _ h => h)
  have hcard := hnodup.length_le_card
  cases pending with
  | nil => exact ⟨taken, log, bt⟩
  | cons x pending =>
    rcases h with h | h
    · cases h
    · simp only [length_map, length_append, length_cons] at hcard
      omega

/-- The loop has come to its end after `Fintype.card V` turns. -/
theorem run_queue {n} (hn : Fintype.card V ≤ n) : (run succ n src).queue = [] := by
  obtain ⟨_, _, bt⟩ := run_final succ src hn
  exact bt.queue

omit [Fintype V] in
lemma run_nodup {n} : (run succ n src).reached.Nodup := by
  obtain ⟨_, _, _, bt, -⟩ := run_between succ src n
  exact bt.inv.nodup

/-- What the search has reached at its end: the ends of live routes, without the source. -/
theorem run_reached {n} (hn : Fintype.card V ≤ n) {v} :
    v ∈ (run succ n src).reached ↔ v ≠ src ∧ Touched succ src v := by
  obtain ⟨taken, log, bt⟩ := run_final succ src hn
  have all : ∀ u d (_ : Nat), (u, d, Role.walk) ∈ log → (u, d) ∈ taken := by
    intro u d _ hm
    have h := mem_walkers.mpr hm
    rwa [bt.walkers, append_nil] at h
  rw [bt.inv.reached v, bt.inv.visited v]
  simp only [Touched, bt.inv.live_iff_mem all]

end Loop

end SocioWorkspace.Search
