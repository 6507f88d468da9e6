import Mathlib

/-!
# Text patterns

The regular expressions that check a token. `Matches` says which texts a pattern stands for, and `rests`
searches as a backtracking matcher does (`mem_rests`). `accepts` is Python's `re.match` of a pattern between
`^` and `$`, where `$` also matches in front of a final line feed.
-/

namespace SocioWorkspace
open List

/-- A pattern; a run has a least and, if it is bounded, a greatest length. -/
inductive Pattern where
  | text (s : String)
  | run (p : Char → Bool) (lo : ℕ) (hi : Option ℕ)
  | seq (a b : Pattern)
  | alt (a b : Pattern)

namespace Pattern

inductive Matches : Pattern → List Char → Prop where
  | text {s} : Matches (.text s) s.toList
  | run {p lo hi w} :
    (∀ c ∈ w, p c = true) →
    lo ≤ w.length →
    (∀ n ∈ hi, w.length ≤ n) →
    Matches (.run p lo hi) w
  | seq {a b w w'} :
    Matches a w →
    Matches b w' →
    Matches (.seq a b) (w ++ w')
  | left {a b w} :
    Matches a w →
    Matches (.alt a b) w
  | right {a b w} :
    Matches b w →
    Matches (.alt a b) w

/-- What is left of the input after each match of its beginning. -/
def rests : Pattern → List Char → List (List Char)
  | text s, cs => if s.toList <+: cs then [cs.drop s.toList.length] else []
  | run p lo hi, cs =>
    ((List.range ((cs.takeWhile p).length + 1)).filter fun n => lo ≤ n ∧ ∀ m ∈ hi, n ≤ m).map cs.drop
  | seq a b, cs => (rests a cs).flatMap (rests b)
  | alt a b, cs => rests a cs ++ rests b cs

/-- Python `re.match` of the pattern between `^` and `$`. -/
def accepts (p : Pattern) (s : String) : Bool := (rests p s.toList).any fun r => r = [] ∨ r = ['\n']

lemma mem_rests_run {p : Char → Bool} {lo hi cs r} :
    r ∈ rests (.run p lo hi) cs ↔ ∃ w, Matches (.run p lo hi) w ∧ cs = w ++ r := by
  simp only [rests, mem_map, mem_filter, mem_range, decide_eq_true_eq]
  constructor
  · rintro ⟨n, ⟨hn, hlo, hhi⟩, rfl⟩
    -- the first `n` characters belong to the longest run
    have htake : cs.take n = (cs.takeWhile p).take n := by
      conv_lhs => rw [← takeWhile_append_dropWhile (p := p) (l := cs)]
      exact take_append_of_le_length (Nat.lt_succ_iff.1 hn)
    have hlength : (cs.take n).length = n := by
      rw [htake]
      exact length_take_of_le (Nat.lt_succ_iff.1 hn)
    have hmatch : Matches (.run p lo hi) (cs.take n) := by
      refine .run ?_ (hlength.symm ▸ hlo) (hlength.symm ▸ hhi)
      intro c hc
      rw [htake] at hc
      exact mem_takeWhile_imp (mem_of_mem_take hc)
    exact ⟨cs.take n, hmatch, (take_append_drop n cs).symm⟩
  · rintro ⟨w, hw, rfl⟩
    cases hw with
    | run hp hlo hhi =>
      refine ⟨w.length, ⟨?_, hlo, hhi⟩, drop_left⟩
      rw [takeWhile_append_of_pos hp, length_append]
      omega

variable {p : Pattern}

/-- The matcher finds exactly the matches of the pattern at the beginning of the input. -/
theorem mem_rests {cs r} : r ∈ rests p cs ↔ ∃ w, Matches p w ∧ cs = w ++ r := by
  induction p generalizing cs r with
  | text s =>
    rw [rests]
    constructor
    · intro h
      split_ifs at h with hbegin
      · obtain ⟨rest, rfl⟩ := hbegin
        rw [mem_singleton.1 h, drop_left]
        exact ⟨_, .text, rfl⟩
      · cases h
    · rintro ⟨w, hw, rfl⟩
      cases hw with
      | text => simp
  | run => exact mem_rests_run
  | seq a b iha ihb =>
    rw [rests, mem_flatMap]
    constructor
    · rintro ⟨r', ha, hb⟩
      obtain ⟨w, hw, rfl⟩ := iha.1 ha
      obtain ⟨w', hw', rfl⟩ := ihb.1 hb
      exact ⟨w ++ w', .seq hw hw', (append_assoc ..).symm⟩
    · rintro ⟨_, hw, rfl⟩
      cases hw with
      | @seq _ _ w w' ha hb =>
        exact ⟨w' ++ r, iha.2 ⟨w, ha, append_assoc ..⟩, ihb.2 ⟨w', hb, rfl⟩⟩
  | alt a b iha ihb =>
    rw [rests, mem_append, iha, ihb]
    constructor
    · rintro (⟨w, hw, he⟩ | ⟨w, hw, he⟩)
      · exact ⟨w, .left hw, he⟩
      · exact ⟨w, .right hw, he⟩
    · rintro ⟨w, hw, he⟩
      cases hw with
      | left hw => exact .inl ⟨w, hw, he⟩
      | right hw => exact .inr ⟨w, hw, he⟩

/-- An accepted text is a match, perhaps with a line feed after it. -/
lemma accepts_iff {s} :
    p.accepts s = true ↔ Matches p s.toList ∨ ∃ w, Matches p w ∧ s.toList = w ++ ['\n'] := by
  rw [accepts, any_eq_true]
  constructor
  · rintro ⟨r, hr, hend⟩
    obtain ⟨w, hw, he⟩ := mem_rests.1 hr
    cases of_decide_eq_true hend with
    | inl hend =>
      subst hend
      rw [he, append_nil]
      exact .inl hw
    | inr hend =>
      subst hend
      exact .inr ⟨w, hw, he⟩
  · rintro (hw | ⟨w, hw, he⟩)
    · exact ⟨[], mem_rests.2 ⟨_, hw, (append_nil _).symm⟩, rfl⟩
    · exact ⟨['\n'], mem_rests.2 ⟨w, hw, he⟩, rfl⟩

lemma exists_of_accepts {s} (h : p.accepts s = true) : ∃ w, Matches p w ∧ w <+: s.toList := by
  obtain ⟨r, hr, -⟩ := any_eq_true.1 h
  obtain ⟨w, hw, he⟩ := mem_rests.1 hr
  exact ⟨w, hw, r, he.symm⟩

def Within (q : Char → Prop) : Pattern → Prop
  | text s => ∀ c ∈ s.toList, q c
  | run p _ _ => ∀ c, p c = true → q c
  | seq a b => Within q a ∧ Within q b
  | alt a b => Within q a ∧ Within q b

lemma Matches.within {q : Char → Prop} {w} (h : Matches p w) (hp : p.Within q) : ∀ c ∈ w, q c := by
  induction h with
  | text => exact hp
  | run hclass => exact fun c hc => hp c (hclass c hc)
  | seq _ _ iha ihb =>
    intro c hc
    cases mem_append.1 hc with
    | inl hc => exact iha hp.1 c hc
    | inr hc => exact ihb hp.2 c hc
  | left _ ih => exact ih hp.1
  | right _ ih => exact ih hp.2

/-- Two patterns of one form; the runs of the second admit the characters `q` of the first's. -/
inductive Narrows (q : Char → Prop) : Pattern → Pattern → Prop where
  | text {s} : Narrows q (.text s) (.text s)
  | run {p p' lo hi} :
    (∀ c, q c → p c = true → p' c = true) →
    Narrows q (.run p lo hi) (.run p' lo hi)
  | seq {a a' b b'} :
    Narrows q a a' →
    Narrows q b b' →
    Narrows q (.seq a b) (.seq a' b')
  | alt {a a' b b'} :
    Narrows q a a' →
    Narrows q b b' →
    Narrows q (.alt a b) (.alt a' b')

lemma Matches.narrow {q : Char → Prop} {p p' w} (h : Matches p w)
    (hp : Narrows q p p') (hw : ∀ c ∈ w, q c) : Matches p' w := by
  induction hp generalizing w with
  | text => exact h
  | run hclass =>
    cases h with
    | run hall hlo hhi => exact .run (fun c hc => hclass c (hw c hc) (hall c hc)) hlo hhi
  | seq _ _ iha ihb =>
    cases h with
    | seq ha hb =>
      apply Matches.seq
      · exact iha ha fun c hc => hw c (mem_append_left _ hc)
      · exact ihb hb fun c hc => hw c (mem_append_right _ hc)
  | alt _ _ iha ihb =>
    cases h with
    | left ha => exact .left (iha ha hw)
    | right hb => exact .right (ihb hb hw)

end Pattern

end SocioWorkspace
