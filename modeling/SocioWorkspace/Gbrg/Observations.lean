import Mathlib.Data.List.DropRight
import SocioWorkspace.Lib.Basic

/-!
# Ids of evidence observations

Model of `proof_to_observations` and `scr_to_observations` of `gbrg/adapters/evidence.py`, as far as an
observation is told from another. The rest of a record, and what is raised on the way to it, is an input. Which
names `_sanitize_id` takes for one is said by `Alike`.
-/

namespace SocioWorkspace.Evidence
open List

def inCharset (c : Char) : Bool :=
  'A' ≤ c && c ≤ 'Z' || 'a' ≤ c && c ≤ 'z' || '0' ≤ c && c ≤ '9' || c ∈ ['.', '_', '/', '-']

/-- The `re.sub` of `_sanitize_id`: a run of other characters becomes one `-`. -/
def subRuns : Bool → List Char → List Char
  | _, [] => []
  | inRun, c :: cs =>
    if inCharset c then c :: subRuns false cs
    else if inRun then subRuns true cs
    else '-' :: subRuns true cs

/-- Python `_sanitize_id`. -/
def sanitizeId (text : String) : List Char :=
  ((subRuns false text.toList).dropWhile (· = '-')).rdropWhile (· = '-')

/-- Python `_METRICS`. -/
def METRICS : List String := ["dependents_count", "test_coverage_reach", "churn"]

/-- Python `_SCR_METRICS`. -/
def SCR_METRICS : List String := ["residualScore", "rating"]

/-- A proof artifact, or a supply-chain artifact with its `riskScope`. -/
inductive Kind where
  | proof
  | scr (riskScope : Option String)

def Kind.metrics : Kind → List String
  | .proof => METRICS
  | .scr _ => SCR_METRICS

def Kind.stem : Kind → String
  | .proof => "obs:gbrg/"
  | .scr riskScope => "obs:gbrg-scr/" ++ riskScope.getD "node" ++ "/"

structure Observation (R : Type) where
  observationId : List Char
  subject : String
  metric : String
  record : R

structure Report (E R : Type) where
  kind : Kind
  subject : String
  record : String → Except E R

variable {E R : Type}

/-- What an id has in front of the metric. -/
def Report.label (r : Report E R) : List Char := r.kind.stem.toList ++ sanitizeId r.subject

def Report.observe (r : Report E R) (metric : String) : Except E (Observation R) := do
  return ⟨r.label ++ '/' :: metric.toList, r.subject, metric, ← r.record metric⟩

def Report.observations (r : Report E R) : Except E (List (Observation R)) := r.kind.metrics.mapM r.observe

/-- Python `proof_to_observations`. -/
def proofToObservations (cellId : String) (record : String → Except E R) :
    Except E (List (Observation R)) :=
  Report.observations ⟨.proof, cellId, record⟩

/-- Python `scr_to_observations`. -/
def scrToObservations (riskScope subjectId : Option String) (record : String → Except E R) :
    Except E (List (Observation R)) :=
  Report.observations ⟨.scr riskScope, subjectId.getD "", record⟩

/-- Observations of different subjects or metrics have different ids. -/
def KeepIdentity (reports : List (Report E R)) : Prop :=
  ∀ r ∈ reports, ∀ r' ∈ reports, ∀ os os', r.observations = .ok os → r'.observations = .ok os' →
    ∀ o ∈ os, ∀ o' ∈ os', (o.subject, o.metric) ≠ (o'.subject, o'.metric) → o.observationId ≠ o'.observationId

/-- A text that the slug has a `-` for: a `-`, or a run of other characters. -/
def Hyphen (u : List Char) : Prop := u = ['-'] ∨ u ≠ [] ∧ ∀ c ∈ u, inCharset c = false

/-- The run ends in front of `rest`. -/
def Ends (u rest : List Char) : Prop := u = ['-'] ∨ ∀ c ∈ rest.head?, inCharset c = true

/-- The same text up to runs of other characters: a run stands for any other run, and for a `-`. -/
inductive Alike : List Char → List Char → Prop
  | nil : Alike [] []
  | same {c a b} : inCharset c = true → Alike a b → Alike (c :: a) (c :: b)
  | hyphens {u v a b} : Hyphen u → Hyphen v → Ends u a → Ends v b → Alike a b → Alike (u ++ a) (v ++ b)

/-- A character that is lost at the ends of a name. -/
def outer (c : Char) : Bool := c = '-' || !inCharset c

def core (name : String) : List Char := (name.toList.dropWhile outer).rdropWhile outer

/-- The id of `r` starts like that of `r'`, and goes on with a name that is alike. The scope of a risk is written
as it is and may hold a `/`, so that it may be longer by a part of the other name. -/
def Report.Mistakable (r r' : Report E R) : Prop :=
  ∃ x, r'.kind.stem.toList = r.kind.stem.toList ++ x ∧ (∀ c ∈ x, inCharset c = true) ∧
    Alike (core r.subject) (x ++ core r'.subject)

/-- All records of the report can be built. -/
def Report.Observed (r : Report E R) : Prop := ∀ m ∈ r.kind.metrics, ∃ x, r.record m = .ok x

/-- Reports of one kind whose ids can be mistaken for each other are about one cell or subject. -/
def NamesTell (reports : List (Report E R)) : Prop :=
  ∀ r ∈ reports, ∀ r' ∈ reports, r.Observed → r'.Observed → r.kind.metrics = r'.kind.metrics →
    r.Mistakable r' → r.subject = r'.subject

section Slug
variable {a b t : List Char} {c : Char}

lemma subRuns_run {u : List Char} (hu : u ≠ []) (hall : ∀ c ∈ u, inCharset c = false)
    (hend : ∀ c ∈ t.head?, inCharset c = true) : subRuns false (u ++ t) = '-' :: subRuns false t := by
  have htrue : ∀ u : List Char, (∀ c ∈ u, inCharset c = false) → subRuns true (u ++ t) = subRuns false t := by
    intro u hall
    induction u with
    | nil =>
      cases t with
      | nil => rfl
      | cons c t => simp [subRuns, hend c rfl]
    | cons c u ih => simp [subRuns, hall c mem_cons_self, ih fun c hc => hall c (mem_cons_of_mem _ hc)]
  cases u with
  | nil => exact absurd rfl hu
  | cons c u => simp [subRuns, hall c mem_cons_self, htrue u fun c hc => hall c (mem_cons_of_mem _ hc)]

lemma subRuns_hyphen {u : List Char} (hu : Hyphen u) (hend : Ends u t) :
    subRuns false (u ++ t) = '-' :: subRuns false t := by
  rcases hu with rfl | ⟨hne, hall⟩
  · rfl
  · rcases hend with rfl | hend
    · exact absurd (hall '-' mem_cons_self) (by decide)
    · exact subRuns_run hne hall hend

/-- A text starts with a character of the charset or with a whole run of others. -/
lemma exists_run (hc : inCharset c = false) (t : List Char) :
    ∃ u rest, c :: t = u ++ rest ∧ Hyphen u ∧ Ends u rest ∧ rest.length ≤ t.length := by
  refine ⟨(c :: t).takeWhile (!inCharset ·), (c :: t).dropWhile (!inCharset ·), takeWhile_append_dropWhile.symm,
    .inr ⟨by simp [hc], fun x hx => by simpa using mem_takeWhile_imp hx⟩, .inr fun x hx => ?_, ?_⟩
  · have hhead := head?_dropWhile_not (fun x => !inCharset x) (c :: t)
    rw [Option.mem_def.1 hx] at hhead
    simpa using hhead
  · rw [dropWhile_cons_of_pos (by simp [hc])]
    exact (dropWhile_sublist _).length_le

/-- Texts are substituted alike exactly if they are the same up to runs. -/
lemma subRuns_eq_iff : subRuns false a = subRuns false b ↔ Alike a b := by
  constructor
  · intro h
    induction hn : a.length using Nat.strong_induction_on generalizing a b with
    | _ n ih =>
      subst hn
      -- both texts begin with something that becomes the first character of the slug
      have hsplit : ∀ t : List Char, t = [] ∨ (∃ c rest, t = c :: rest ∧ inCharset c = true) ∨
          ∃ u rest, t = u ++ rest ∧ Hyphen u ∧ Ends u rest ∧ rest.length < t.length := by
        intro t
        cases t with
        | nil => exact .inl rfl
        | cons c t =>
          cases hc : inCharset c with
          | true => exact .inr (.inl ⟨c, t, rfl, hc⟩)
          | false =>
            obtain ⟨u, rest, ht, hu, hend, hlt⟩ := exists_run hc t
            exact .inr (.inr ⟨u, rest, ht, hu, hend, Nat.lt_succ_of_le hlt⟩)
      have hhyphen : Hyphen ['-'] := .inl rfl
      have hends : ∀ rest, Ends ['-'] rest := fun _ => .inl rfl
      obtain rfl | ⟨c, a', rfl, hc⟩ | ⟨u, a', rfl, hu, hua, hlt⟩ := hsplit a <;>
        obtain rfl | ⟨d, b', rfl, hd⟩ | ⟨v, b', rfl, hv, hvb, -⟩ := hsplit b
      · exact .nil
      · simp [subRuns, hd] at h
      · simp [subRuns, subRuns_hyphen hv hvb] at h
      · simp [subRuns, hc] at h
      · simp only [subRuns, hc, hd, if_true, cons.injEq] at h
        obtain ⟨rfl, h⟩ := h
        exact .same hc (ih _ (by simp) h rfl)
      · simp only [subRuns, hc, if_true, subRuns_hyphen hv hvb, cons.injEq] at h
        obtain ⟨rfl, h⟩ := h
        exact .hyphens hhyphen hv (hends _) hvb (ih _ (by simp) h rfl)
      · simp [subRuns, subRuns_hyphen hu hua] at h
      · simp only [subRuns, hd, if_true, subRuns_hyphen hu hua, cons.injEq] at h
        obtain ⟨rfl, h⟩ := h
        exact .hyphens hu hhyphen hua (hends _) (ih _ hlt h rfl)
      · rw [subRuns_hyphen hu hua, subRuns_hyphen hv hvb, cons.injEq] at h
        exact .hyphens hu hv hua hvb (ih _ hlt h.2 rfl)
  · intro h
    induction h with
    | nil => rfl
    | same hc _ ih => simp [subRuns, hc, ih]
    | hyphens hu hv hua hvb _ ih => rw [subRuns_hyphen hu hua, subRuns_hyphen hv hvb, ih]

lemma dropWhile_subRuns (inRun : Bool) (t : List Char) :
    (subRuns inRun t).dropWhile (· = '-') = subRuns false (t.dropWhile outer) := by
  induction t generalizing inRun with
  | nil => rfl
  | cons c t ih =>
    cases hc : inCharset c with
    | true =>
      by_cases hh : c = '-'
      · simp [subRuns, outer, hh, ih, show inCharset '-' = true from rfl]
      · simp [subRuns, hc, outer, hh]
    | false => cases inRun <;> simp [subRuns, hc, outer, ih]

/-- At the end of a text a run adds a `-`, unless it goes on with the run before. -/
lemma subRuns_snoc (inRun : Bool) (t : List Char) (c : Char) :
    subRuns inRun (t ++ [c]) = subRuns inRun t ++ [c] ∧ inCharset c = true ∨
      inCharset c = false ∧ (subRuns inRun (t ++ [c]) = subRuns inRun t ++ ['-'] ∨
        subRuns inRun (t ++ [c]) = subRuns inRun t) := by
  induction t generalizing inRun with
  | nil =>
    cases hc : inCharset c with
    | true => simp [subRuns, hc]
    | false => cases inRun <;> simp [subRuns, hc]
  | cons d t ih =>
    cases hd : inCharset d with
    | true => simpa [subRuns, hd] using ih false
    | false => cases inRun <;> simpa [subRuns, hd] using ih true

lemma rdropWhile_subRuns (t : List Char) :
    (subRuns false t).rdropWhile (· = '-') = subRuns false (t.rdropWhile outer) := by
  induction t using List.reverseRecOn with
  | nil => rfl
  | append_singleton t c ih =>
    obtain ⟨h, hc⟩ | ⟨hc, h | h⟩ := subRuns_snoc false t c
    · by_cases hh : c = '-'
      · rw [h, rdropWhile_concat_pos _ _ _ (by simp [hh]), rdropWhile_concat_pos _ _ _ (by simp [outer, hh]), ih]
      · rw [rdropWhile_concat_neg _ _ _ (by simp [outer, hh, hc]), h, rdropWhile_concat_neg _ _ _ (by simp [hh])]
    · rw [h, rdropWhile_concat_pos _ _ _ (by simp), rdropWhile_concat_pos _ _ _ (by simp [outer, hc]), ih]
    · rw [h, rdropWhile_concat_pos _ _ _ (by simp [outer, hc]), ih]

lemma sanitizeId_eq (name : String) : sanitizeId name = subRuns false (core name) := by
  rw [sanitizeId, dropWhile_subRuns, rdropWhile_subRuns, core]

lemma inCharset_of_mem {inRun} (h : c ∈ subRuns inRun t) : inCharset c = true := by
  induction t generalizing inRun with
  | nil => cases h
  | cons d t ih =>
    rw [subRuns] at h
    split_ifs at h with hd hrun
    · cases mem_cons.1 h with
      | inl he => exact he ▸ hd
      | inr h => exact ih h
    · exact ih h
    · cases mem_cons.1 h with
      | inl he => exact he ▸ rfl
      | inr h => exact ih h

lemma sanitizeId_eq_append_iff {name name' : String} {x : List Char} :
    sanitizeId name = x ++ sanitizeId name' ↔
      (∀ c ∈ x, inCharset c = true) ∧ Alike (core name) (x ++ core name') := by
  have happend : (∀ c ∈ x, inCharset c = true) →
      x ++ sanitizeId name' = subRuns false (x ++ core name') := by
    intro hx
    rw [sanitizeId_eq]
    induction x with
    | nil => rfl
    | cons c x ih =>
      simp [subRuns, hx c mem_cons_self, ih fun c hc => hx c (mem_cons_of_mem _ hc)]
  rw [← subRuns_eq_iff, ← sanitizeId_eq]
  constructor
  · intro h
    have hx : ∀ c ∈ x, inCharset c = true := by
      intro c hc
      have hmem : c ∈ subRuns false (core name) := by
        rw [← sanitizeId_eq, h]
        exact mem_append_left _ hc
      exact inCharset_of_mem hmem
    exact ⟨hx, h.trans (happend hx)⟩
  · rintro ⟨hx, h⟩
    rw [happend hx, h]

end Slug

variable {r r' : Report E R} {os : List (Observation R)} {o : Observation R} {m m' : String}

lemma eq_of_observe (h : r.observe m = .ok o) : o.metric = m ∧ o.subject = r.subject ∧
    o.observationId = r.label ++ '/' :: m.toList := by
  obtain ⟨record, -, h⟩ := bind_eq_ok.1 h
  cases h
  exact ⟨rfl, rfl, rfl⟩

lemma slash_notMem {k : Kind} (hm : m ∈ k.metrics) : '/' ∉ m.toList := by
  have hall : ∀ m ∈ METRICS ++ SCR_METRICS, '/' ∉ m.toList := by decide
  cases k with
  | proof => exact hall m (mem_append_left _ hm)
  | scr => exact hall m (mem_append_right _ hm)

lemma metrics_eq {k k' : Kind} (hm : m ∈ k.metrics) (hm' : m ∈ k'.metrics) : k.metrics = k'.metrics := by
  have hdisjoint : ∀ m ∈ METRICS, m ∉ SCR_METRICS := by decide
  cases k <;> cases k'
  · rfl
  · exact absurd hm' (hdisjoint m hm)
  · exact absurd hm (hdisjoint m hm')
  · rfl

lemma mistakable_iff : r.Mistakable r' ↔
    ∃ x, r'.kind.stem.toList = r.kind.stem.toList ++ x ∧ sanitizeId r.subject = x ++ sanitizeId r'.subject := by
  simp only [Report.Mistakable, sanitizeId_eq_append_iff]

lemma label_eq_iff : r.label = r'.label ↔ r.Mistakable r' ∨ r'.Mistakable r := by
  rw [mistakable_iff, mistakable_iff, Report.label, Report.label, append_eq_append_iff]

lemma observed_iff : r.Observed ↔ ∃ os, r.observations = .ok os := by
  rw [Report.observations, mapM_returns]
  refine forall₂_congr fun m _ => ?_
  rw [Report.observe, bind_returns]
  exact exists_congr fun x => (and_iff_left ⟨_, rfl⟩).symm

/-- Python `proof_to_observations` and `scr_to_observations`: the observations keep their identity exactly if the
names tell the cells and subjects apart. -/
theorem keepIdentity_iff (reports : List (Report E R)) : KeepIdentity reports ↔ NamesTell reports := by
  constructor
  · intro h r hr r' hr' hos hos' hkind hmistakable
    obtain ⟨os, hos⟩ := observed_iff.1 hos
    obtain ⟨os', hos'⟩ := observed_iff.1 hos'
    by_contra hne
    obtain ⟨m, hm⟩ : ∃ m, m ∈ r.kind.metrics := by
      cases r.kind with
      | proof => exact ⟨_, mem_cons_self⟩
      | scr => exact ⟨_, mem_cons_self⟩
    obtain ⟨o, ho, h₁⟩ := exists_mem_of_forall₂ (forall₂_of_mapM_eq_ok hos) hm
    obtain ⟨o', ho', h₂⟩ := exists_mem_of_forall₂ (forall₂_of_mapM_eq_ok hos') (hkind ▸ hm)
    obtain ⟨-, hs₁, hi₁⟩ := eq_of_observe h₁
    obtain ⟨-, hs₂, hi₂⟩ := eq_of_observe h₂
    refine h r hr r' hr' os os' hos hos' o ho o' ho' (fun e => hne ?_) ?_
    · exact hs₁.symm.trans ((congrArg Prod.fst e).trans hs₂)
    · rw [hi₁, hi₂, label_eq_iff.2 (.inl hmistakable)]
  · intro h r hr r' hr' os os' hos hos' o ho o' ho' hne hid
    obtain ⟨m, hm, h₁⟩ := exists_mem_of_forall₂ (forall₂_of_mapM_eq_ok hos).flip ho
    obtain ⟨m', hm', h₂⟩ := exists_mem_of_forall₂ (forall₂_of_mapM_eq_ok hos').flip ho'
    obtain ⟨hm₁, hs₁, hi₁⟩ := eq_of_observe h₁
    obtain ⟨hm₂, hs₂, hi₂⟩ := eq_of_observe h₂
    rw [hi₁, hi₂] at hid
    obtain ⟨hlabel, hmetric⟩ := append_cons_inj (slash_notMem hm) (slash_notMem hm') hid
    obtain rfl := String.toList_inj.1 hmetric
    have hkind := metrics_eq hm hm'
    have hos := observed_iff.2 ⟨os, hos⟩
    have hos' := observed_iff.2 ⟨os', hos'⟩
    have hsubject : r.subject = r'.subject := by
      cases label_eq_iff.1 hlabel with
      | inl hmistakable => exact h r hr r' hr' hos hos' hkind hmistakable
      | inr hmistakable => exact (h r' hr' r hr hos' hos hkind.symm hmistakable).symm
    rw [hm₁, hm₂, hs₁, hs₂, hsubject] at hne
    exact hne rfl

/-- A function and a macro of one file have the same ids. -/
theorem punctuated_cells_collide : ¬KeepIdentity [(⟨.proof, "a.rs#f", fun _ => .ok ()⟩ : Report Unit Unit),
    ⟨.proof, "a.rs#f!", fun _ => .ok ()⟩] := by
  intro h
  refine h _ mem_cons_self _ (mem_cons_of_mem _ mem_cons_self) _ _ rfl rfl _ mem_cons_self _ mem_cons_self
    (by decide) ?_
  decide +kernel

end SocioWorkspace.Evidence
