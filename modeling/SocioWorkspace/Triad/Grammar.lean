import SocioWorkspace.Triad.Assess

/-!
# The grammar of receipts

What `lint_receipt` admits against the published grammar of tokens. Python's `$` also matches in front of a
final line feed, and the `\d` of a time stands for every decimal digit of Unicode.

`linted_of_whole` and `whole_of_linted` compare the patterns of the code with the same ones read to the end of
the token, and `admits_grammar_iff` says for which receipts the two agree.
-/

namespace SocioWorkspace.Triad
open Pattern List ClusterReceipt

/-- The grammar has whole texts. -/
def Whole (p : Pattern) (s : String) : Prop := p.Matches s.toList

/-- A receipt of the grammar, with ASCII digits in its time. -/
def InGrammar (raw : Value) : Prop :=
  ∃ d receipt, raw.asDict = some d ∧ Reads Whole d (RE_TIME asciiText).pattern receipt

def ClusterReceipt.tokens (r : ClusterReceipt) : List String :=
  [r.cluster, r.receiptId, r.issuedAt, r.stateRoot, r.commit, r.writerPrincipal, r.replicaPrincipal] ++
    r.koeId.toList ++ r.quorumSigs

def tokenPatterns (time : Pattern) : List Pattern :=
  [time, RE_DID.pattern, RE_LZ_ID.pattern, RE_SHA256.pattern, RE_GIT_SHA.pattern, RE_KOE_ID.pattern,
    RE_BLS_SIG.pattern]

section
variable {accept accept' : Pattern → String → Prop} {d : Dict} {time time' : Pattern}
variable {receipt : ClusterReceipt}

lemma OptionalToken.mono {name p o}
    (h : OptionalToken accept d name p o) (himp : ∀ s ∈ o, accept p s → accept' p s) :
    OptionalToken accept' d name p o := by
  cases h with
  | absent h => exact .absent h
  | present h => exact .present ⟨h.1, himp _ rfl h.2⟩

/-- What is accepted of each token is all that matters. -/
lemma Reads.mono (h : Reads accept d time receipt)
    (himp : ∀ p, ∀ t ∈ receipt.tokens, accept p t → accept' p t)
    (htime : accept time receipt.issuedAt → accept' time' receipt.issuedAt) :
    Reads accept' d time' receipt where
  cluster := ⟨h.cluster.1, himp _ _ (by simp [tokens]) h.cluster.2⟩
  receiptId := ⟨h.receiptId.1, himp _ _ (by simp [tokens]) h.receiptId.2⟩
  issuedAt := ⟨h.issuedAt.1, htime h.issuedAt.2⟩
  stateRoot := ⟨h.stateRoot.1, himp _ _ (by simp [tokens]) h.stateRoot.2⟩
  commit := ⟨h.commit.1, himp _ _ (by simp [tokens]) h.commit.2⟩
  writerPrincipal := ⟨h.writerPrincipal.1, himp _ _ (by simp [tokens]) h.writerPrincipal.2⟩
  replicaPrincipal := ⟨h.replicaPrincipal.1, himp _ _ (by simp [tokens]) h.replicaPrincipal.2⟩
  koeId := h.koeId.mono fun s hs => himp _ s (by simp [tokens, Option.mem_def.1 hs])
  quorumSigs := ⟨h.quorumSigs.listed, h.quorumSigs.nonempty, fun s hs =>
    himp _ s (mem_append_right _ hs) (h.quorumSigs.accepted s hs)⟩
  separate := h.separate

lemma Reads.exists_pattern (h : Reads accept d time receipt) :
    ∀ t ∈ receipt.tokens, ∃ p ∈ tokenPatterns time, accept p t := by
  intro t ht
  simp only [tokens, mem_append, mem_cons, not_mem_nil, or_false] at ht
  rcases ht with ((rfl | rfl | rfl | rfl | rfl | rfl | rfl) | ht) | ht
  · exact ⟨_, by simp [tokenPatterns], h.cluster.2⟩
  · exact ⟨_, by simp [tokenPatterns], h.receiptId.2⟩
  · exact ⟨_, by simp [tokenPatterns], h.issuedAt.2⟩
  · exact ⟨_, by simp [tokenPatterns], h.stateRoot.2⟩
  · exact ⟨_, by simp [tokenPatterns], h.commit.2⟩
  · exact ⟨_, by simp [tokenPatterns], h.writerPrincipal.2⟩
  · exact ⟨_, by simp [tokenPatterns], h.replicaPrincipal.2⟩
  · have hkoe := h.koeId
    cases hkoe' : receipt.koeId with
    | none => simp [hkoe'] at ht
    | some koe =>
      rw [hkoe'] at hkoe ht
      cases mem_singleton.1 ht
      cases hkoe with
      | present hkoe => exact ⟨_, by simp [tokenPatterns], hkoe.2⟩
  · exact ⟨_, by simp [tokenPatterns], h.quorumSigs.accepted t ht⟩

end

lemma ne_of_class {p : Char → Bool} {c} (h : p c = false) : ∀ c', p c' = true → c' ≠ c := by
  rintro c' hc' rfl
  rw [h] at hc'
  cases hc'

lemma tokenPatterns_within : ∀ p ∈ tokenPatterns (RE_TIME asciiText).pattern, p.Within (· ≠ '\n') := by
  have hdigit := ne_of_class (p := asciiText.decimal) (c := '\n') rfl
  have hhex := ne_of_class (p := hex) (c := '\n') rfl
  have hid := ne_of_class (p := idChar) (c := '\n') rfl
  have hdid := ne_of_class (p := didChar) (c := '\n') rfl
  intro p hp
  simp only [tokenPatterns, mem_cons, not_mem_nil, or_false] at hp
  rcases hp with rfl | rfl | rfl | rfl | rfl | rfl | rfl
  · simpa [RE_TIME, Within] using hdigit
  · simpa [RE_DID, oneOf, Within] using hdid
  · simpa [RE_LZ_ID, oneOf, Within] using hid
  · simpa [RE_SHA256, Within] using hhex
  · simpa [RE_GIT_SHA, Within] using hhex
  · simpa [RE_KOE_ID, Within] using hid
  · simpa [RE_BLS_SIG, Within] using hhex

lemma time_narrows {py py'} {q : Char → Prop} (h : ∀ c, q c → py.decimal c = true → py'.decimal c = true) :
    Narrows q (RE_TIME py).pattern (RE_TIME py').pattern := by
  have hdigits : ∀ n, Narrows q (.run py.decimal n (some n)) (.run py'.decimal n (some n)) := fun n => .run h
  exact .seq (hdigits 4) (.seq .text (.seq (hdigits 2) (.seq .text (.seq (hdigits 2)
    (.seq .text (.seq (hdigits 2) (.seq .text (.seq (hdigits 2) (.seq .text
    (.seq (hdigits 2) .text))))))))))

lemma time_within : (RE_TIME asciiText).pattern.Within (·.toNat < 128) := by
  have hdigit : ∀ c, asciiText.decimal c = true → c.toNat < 128 := by
    intro c hc
    have hle : c ≤ '9' := by
      simp only [asciiText, Char.isDigit, Bool.and_eq_true, decide_eq_true_eq] at hc
      exact hc.2
    exact lt_of_le_of_lt (show c.toNat ≤ '9'.toNat from hle) (by decide)
  simpa [RE_TIME, Within] using hdigit

lemma did_within : RE_DID.pattern.Within (didChar · = true) := by
  simp [RE_DID, oneOf, Within, didChar, idChar]

lemma linted_of_whole {p s} (h : Whole p s) : Linted p s := accepts_iff.2 (.inl h)

lemma whole_of_linted {p s} (h : Linted p s) (hline : '\n' ∉ s.toList) : Whole p s := by
  cases accepts_iff.1 h with
  | inl h => exact h
  | inr h =>
    obtain ⟨w, -, he⟩ := h
    rw [he] at hline
    exact absurd (mem_append_right _ (mem_singleton_self _)) hline

section
variable {py : Builtins} {raw : Value} {receipt : ClusterReceipt} {d : Dict}

lemma lintReceipt_of_whole (hd : raw.asDict = some d)
    (h : Reads Whole d (RE_TIME asciiText).pattern receipt) : lintReceipt py raw = .ok receipt := by
  refine lintReceipt_ok_iff.2 ⟨d, hd, h.mono (fun p t _ => linted_of_whole) fun htime => ?_⟩
  have hnarrows : Narrows (fun _ => True) (RE_TIME asciiText).pattern (RE_TIME py).pattern :=
    time_narrows fun c _ => py.decimal_digit c
  exact linted_of_whole (Matches.narrow htime hnarrows fun _ _ => trivial)

/-- The tokens of the grammar have one line, and its times are ASCII. -/
lemma Reads.plain (h : Reads Whole d (RE_TIME asciiText).pattern receipt) :
    (∀ t ∈ receipt.tokens, '\n' ∉ t.toList) ∧ ∀ c ∈ receipt.issuedAt.toList, c.toNat < 128 := by
  refine ⟨fun t ht hline => ?_, Matches.within h.issuedAt.2 time_within⟩
  obtain ⟨p, hp, hmatch⟩ := h.exists_pattern t ht
  exact Matches.within hmatch (tokenPatterns_within p hp) _ hline rfl

lemma whole_of_plain (hdecimal : ∀ c : Char, c.toNat < 128 → py.decimal c = true → c.isDigit = true)
    (h : Reads Linted d (RE_TIME py).pattern receipt) (hlines : ∀ t ∈ receipt.tokens, '\n' ∉ t.toList)
    (hascii : ∀ c ∈ receipt.issuedAt.toList, c.toNat < 128) :
    Reads Whole d (RE_TIME asciiText).pattern receipt := by
  refine h.mono (fun p t ht hlinted => whole_of_linted hlinted (hlines t ht)) fun htime => ?_
  have hwhole := whole_of_linted htime (hlines _ (by simp [tokens]))
  exact Matches.narrow hwhole (time_narrows hdecimal) hascii

lemma Reads.separate_dids {time} (h : Reads Whole d time receipt) :
    receipt.writerPrincipal.toList.filter didChar ≠ receipt.replicaPrincipal.toList.filter didChar := by
  rw [filter_eq_self.2 (Matches.within h.writerPrincipal.2 did_within),
    filter_eq_self.2 (Matches.within h.replicaPrincipal.2 did_within)]
  exact fun h' => h.separate (String.ext_iff.2 h')

end

/-- Receipts are admitted by the grammar, and no replica attests itself with other characters, exactly if
the tokens that the patterns of `lint_receipt` accept have no line feed and the time is ASCII. -/
theorem admits_grammar_iff (py : Builtins)
    (hdecimal : ∀ c : Char, c.toNat < 128 → py.decimal c = true → c.isDigit = true) (raw : Value) :
    (((∃ receipt, lintReceipt py raw = .ok receipt) ↔ InGrammar raw) ∧
      ∀ receipt, lintReceipt py raw = .ok receipt →
        receipt.writerPrincipal.toList.filter didChar ≠ receipt.replicaPrincipal.toList.filter didChar) ↔
    ∀ d receipt, raw.asDict = some d → Reads Linted d (RE_TIME py).pattern receipt →
      (∀ t ∈ receipt.tokens, '\n' ∉ t.toList) ∧ ∀ c ∈ receipt.issuedAt.toList, c.toNat < 128 := by
  constructor
  · rintro ⟨hadmits, -⟩ d receipt hd hreads
    have hreceipt : lintReceipt py raw = .ok receipt := lintReceipt_ok_iff.2 ⟨d, hd, hreads⟩
    obtain ⟨d, receipt', hd, hreads⟩ := hadmits.1 ⟨receipt, hreceipt⟩
    cases hreceipt.symm.trans (lintReceipt_of_whole hd hreads)
    exact hreads.plain
  · intro hplain
    have hwhole : ∀ receipt, lintReceipt py raw = .ok receipt →
        ∃ d, raw.asDict = some d ∧ Reads Whole d (RE_TIME asciiText).pattern receipt := by
      intro receipt hreceipt
      obtain ⟨d, hd, hreads⟩ := lintReceipt_ok_iff.1 hreceipt
      obtain ⟨hlines, hascii⟩ := hplain d receipt hd hreads
      exact ⟨d, hd, whole_of_plain hdecimal hreads hlines hascii⟩
    refine ⟨⟨?_, ?_⟩, fun receipt hreceipt => ?_⟩
    · rintro ⟨receipt, hreceipt⟩
      obtain ⟨d, hd, hreads⟩ := hwhole receipt hreceipt
      exact ⟨d, receipt, hd, hreads⟩
    · rintro ⟨d, receipt, hd, hreads⟩
      exact ⟨receipt, lintReceipt_of_whole hd hreads⟩
    · obtain ⟨d, -, hreads⟩ := hwhole receipt hreceipt
      exact hreads.separate_dids

/-- A receipt of the grammar is admitted. -/
theorem soundReceipt_admitted :
    let raw := soundReceipt "did:key:a" '0' "0000000"
    (∃ receipt, lintReceipt asciiText raw = .ok receipt) ∧ InGrammar raw := by
  intro raw
  have hplain : (lintReceipt asciiText raw).toOption.any (fun receipt =>
      receipt.tokens.all (fun t => !t.toList.contains '\n') &&
        receipt.issuedAt.toList.all fun c => c.toNat < 128) = true := by
    decide +kernel
  cases hlint : lintReceipt asciiText raw with
  | error errors =>
    rw [hlint] at hplain
    cases hplain
  | ok receipt =>
    rw [hlint] at hplain
    have hadmits := (admits_grammar_iff asciiText (fun _ _ h => h) raw).2 fun d receipt' hd hreads => by
      cases hlint.symm.trans (lintReceipt_ok_iff.2 ⟨d, hd, hreads⟩)
      simpa [Except.toOption] using hplain
    exact ⟨⟨receipt, rfl⟩, hadmits.1.1 ⟨receipt, hlint⟩⟩

def attestedBy (replica : String) : Dict :=
  ((soundReceipt "did:key:a" '0' "0000000").asDict.getD (.ofList [])).insert "replica_principal"
    (.str replica)

/-- The writer attests its own state, with a line feed after its name. -/
theorem lineFeed_not_grammar :
    ¬InGrammar (.dict (attestedBy "did:key:writer\n")) ∧
      ∃ receipt, lintReceipt asciiText (.dict (attestedBy "did:key:writer\n")) = .ok receipt ∧
        receipt.writerPrincipal = "did:key:writer" ∧ receipt.replicaPrincipal = "did:key:writer\n" := by
  refine ⟨?_, ?_⟩
  · rintro ⟨d, receipt, hd, hreads⟩
    rw [Value.asDict_dict] at hd
    cases hd
    have hreplica := hreads.replicaPrincipal.1
    have hline := hreads.plain.1 receipt.replicaPrincipal (by simp [tokens])
    rw [← Value.str_inj (Option.some.inj hreplica)] at hline
    exact hline (by decide)
  · have hlint : (lintReceipt asciiText (.dict (attestedBy "did:key:writer\n"))).toOption.any (fun receipt =>
        receipt.writerPrincipal = "did:key:writer" ∧ receipt.replicaPrincipal = "did:key:writer\n") = true := by
      decide +kernel
    cases hlint' : lintReceipt asciiText (.dict (attestedBy "did:key:writer\n")) with
    | error errors =>
      rw [hlint'] at hlint
      cases hlint
    | ok receipt =>
      rw [hlint'] at hlint
      exact ⟨receipt, rfl, of_decide_eq_true hlint⟩

end SocioWorkspace.Triad
