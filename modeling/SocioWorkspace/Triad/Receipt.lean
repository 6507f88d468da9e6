import SocioWorkspace.Lib.Pattern
import SocioWorkspace.Lib.PyJson

/-!
# Integrity receipts

Model of `automation/lazerus.py`: the token grammar and `lint_receipt`, which reads one decoded receipt
and either returns the receipt or says all that is wrong with it. Which characters `\d` stands for,
`repr` and `str` are parameters (`Builtins`).
-/

namespace SocioWorkspace.Triad
open List Option Value

/-- Python `repr` and `str` of decoded values, and the decimal digits of `\d`. -/
structure Builtins where
  repr : Value → String
  str : Value → String
  decimal : Char → Bool
  str_str : ∀ s, str (.str s) = s
  decimal_digit : ∀ c, c.isDigit = true → decimal c = true

/-- Python `type(v).__name__`. -/
def typeName (v : Value) : String :=
  match v.json with
  | .null => "NoneType"
  | .bool _ => "bool"
  | .num (.int _) => "int"
  | .num (.float _) => "float"
  | .str _ => "str"
  | .arr _ => "list"
  | .obj _ => "dict"

/-- A compiled regular expression, with its source. -/
structure Re where
  source : String
  pattern : Pattern

def oneOf (s : String) (others : List String) : Pattern :=
  others.foldl (fun p t => .alt p (.text t)) (.text s)

def hex (c : Char) : Bool := c.isDigit || ('a' ≤ c && c ≤ 'f')

def idChar (c : Char) : Bool := c.isAlphanum || c = '.' || c = '_' || c = '-'

/-- The characters of an identifier, and `:`, `/`, `%` and `#`. -/
def didChar (c : Char) : Bool := idChar c || c = ':' || c = '/' || c = '%' || c = '#'

/-- Python `RE_TIME`. -/
def RE_TIME (py : Builtins) : Re where
  source := "^\\d\x7b4\x7d-\\d\x7b2\x7d-\\d\x7b2\x7dT\\d\x7b2\x7d:\\d\x7b2\x7d:\\d\x7b2\x7dZ$"
  pattern :=
    let digits n := Pattern.run py.decimal n (some n)
    .seq (digits 4) (.seq (.text "-") (.seq (digits 2) (.seq (.text "-") (.seq (digits 2)
      (.seq (.text "T") (.seq (digits 2) (.seq (.text ":") (.seq (digits 2) (.seq (.text ":")
      (.seq (digits 2) (.text "Z")))))))))))

def RE_SHA256 : Re where
  source := "^sha256:[0-9a-f]\x7b64\x7d$"
  pattern := .seq (.text "sha256:") (.run hex 64 (some 64))

/-- Python `RE_LZ_ID`. -/
def RE_LZ_ID : Re where
  source := "^urn:lz:(bie|nie|cie|rie|report|mix):[A-Za-z0-9._\\-]\x7b6,\x7d$"
  pattern := .seq (.text "urn:lz:") (.seq (oneOf "bie" ["nie", "cie", "rie", "report", "mix"])
    (.seq (.text ":") (.run idChar 6 none)))

/-- Python `RE_KOE_ID`. -/
def RE_KOE_ID : Re where
  source := "^urn:lz:koe:[A-Za-z0-9._\\-]\x7b6,\x7d$"
  pattern := .seq (.text "urn:lz:koe:") (.run idChar 6 none)

/-- Python `RE_DID`. -/
def RE_DID : Re where
  source := "^did:(web|key):[A-Za-z0-9:._\\-/%#]+$"
  pattern := .seq (.text "did:") (.seq (oneOf "web" ["key"]) (.seq (.text ":") (.run didChar 1 none)))

/-- Python `RE_BLS_SIG`. -/
def RE_BLS_SIG : Re where
  source := "^bls:[0-9a-f]\x7b96\x7d(?:[0-9a-f]\x7b96\x7d)?$"
  pattern := .seq (.text "bls:") (.seq (.run hex 96 (some 96)) (.alt (.run hex 96 (some 96)) (.text "")))

/-- Python `RE_GIT_SHA`. -/
def RE_GIT_SHA : Re where
  source := "^[0-9a-f]\x7b7,40\x7d$"
  pattern := .run hex 7 (some 40)

/-- Python `ClusterReceipt`. -/
structure ClusterReceipt where
  cluster : String
  receiptId : String
  issuedAt : String
  stateRoot : String
  commit : String
  writerPrincipal : String
  replicaPrincipal : String
  quorumSigs : List String
  koeId : Option String
deriving DecidableEq

section Lint
variable (py : Builtins) (raw : Dict)

/-- Python `check(name, pattern, required=False)`; the list is what is added to `errors`. -/
def checkOptional (name : String) (re : Re) : Except (List String) (Option String) :=
  let val := (raw.get? name).getD .null
  if val = .null then .ok none
  else
    match val.asStr.filter re.pattern.accepts with
    | some s => .ok (some s)
    | none => .error [name ++ ": " ++ py.repr val ++ " does not match " ++ re.source]

/-- Python `check`. -/
def check (name : String) (re : Re) : Except (List String) String :=
  match checkOptional py raw name re with
  | .ok (some s) => .ok s
  | .ok none => .error [name ++ ": missing (required)"]
  | .error errors => .error errors

def quorumSigs : Except (List String) (List String) :=
  match ((raw.get? "quorum_sigs").getD (.list [])).asList with
  | none => .error ["quorum_sigs: must be a non-empty list of bls: signatures"]
  | some [] => .error ["quorum_sigs: must be a non-empty list of bls: signatures"]
  | some sigs =>
    match sigs.filter fun s => (s.asStr.filter RE_BLS_SIG.pattern.accepts).isNone with
    | [] => .ok (sigs.filterMap Value.asStr)
    | bad => .error (bad.map fun s => "quorum_sigs: " ++ py.repr s ++ " is not a bls: signature")

def errorsOf {α : Type} : Except (List String) α → List String
  | .ok _ => []
  | .error errors => errors

def selfAttested (writer replica : Except (List String) String) : Except (List String) Unit :=
  match writer, replica with
  | .ok w, .ok r =>
    if w = r then
      .error ["writer_principal == replica_principal: a replica may not self-attest"]
    else .ok ()
  | _, _ => .ok ()

/-- Python `lint_receipt` of a dict. -/
def lintDict : Except (List String) ClusterReceipt :=
  let cluster := check py raw "cluster" RE_DID
  let receiptId := check py raw "receipt_id" RE_LZ_ID
  let issuedAt := check py raw "issued_at" (RE_TIME py)
  let stateRoot := check py raw "state_root" RE_SHA256
  let commit := check py raw "commit" RE_GIT_SHA
  let writer := check py raw "writer_principal" RE_DID
  let replica := check py raw "replica_principal" RE_DID
  let koeId := checkOptional py raw "koe_id" RE_KOE_ID
  let sigs := quorumSigs py raw
  let errors := errorsOf cluster ++ errorsOf receiptId ++ errorsOf issuedAt ++ errorsOf stateRoot ++
    errorsOf commit ++ errorsOf writer ++ errorsOf replica ++ errorsOf koeId ++ errorsOf sigs ++
    errorsOf (selfAttested writer replica)
  match errors with
  | [] => do
    -- nothing is wrong, so that every check has a value
    return {
      cluster := ← cluster
      receiptId := ← receiptId
      issuedAt := ← issuedAt
      stateRoot := ← stateRoot
      commit := ← commit
      writerPrincipal := ← writer
      replicaPrincipal := ← replica
      quorumSigs := ← sigs
      koeId := ← koeId }
  | errors => .error errors

/-- Python `lint_receipt`. -/
def lintReceipt (raw : Value) : Except (List String) ClusterReceipt :=
  match raw.asDict with
  | none => .error ["receipt must be an object, got " ++ typeName raw]
  | some raw => lintDict py raw

end Lint

section Reads
variable (accept : Pattern → String → Prop) (d : Dict)

def Token (name : String) (p : Pattern) (s : String) : Prop := d.get? name = some (.str s) ∧ accept p s

inductive OptionalToken (name : String) (p : Pattern) : Option String → Prop where
  | absent : (d.get? name).getD .null = .null → OptionalToken name p none
  | present {s} : Token accept d name p s → OptionalToken name p (some s)

structure Signatures (sigs : List String) : Prop where
  listed : (d.get? "quorum_sigs").bind Value.asList = some (sigs.map .str)
  nonempty : sigs ≠ []
  accepted : ∀ s ∈ sigs, accept RE_BLS_SIG.pattern s

/-- The receipt is what the dict holds, its tokens are accepted, and the replica is not the writer. -/
structure Reads (time : Pattern) (receipt : ClusterReceipt) : Prop where
  cluster : Token accept d "cluster" RE_DID.pattern receipt.cluster
  receiptId : Token accept d "receipt_id" RE_LZ_ID.pattern receipt.receiptId
  issuedAt : Token accept d "issued_at" time receipt.issuedAt
  stateRoot : Token accept d "state_root" RE_SHA256.pattern receipt.stateRoot
  commit : Token accept d "commit" RE_GIT_SHA.pattern receipt.commit
  writerPrincipal : Token accept d "writer_principal" RE_DID.pattern receipt.writerPrincipal
  replicaPrincipal : Token accept d "replica_principal" RE_DID.pattern receipt.replicaPrincipal
  koeId : OptionalToken accept d "koe_id" RE_KOE_ID.pattern receipt.koeId
  quorumSigs : Signatures accept d receipt.quorumSigs
  separate : receipt.writerPrincipal ≠ receipt.replicaPrincipal

end Reads

/-- The linter accepts what Python's `match` accepts. -/
def Linted (p : Pattern) (s : String) : Prop := p.accepts s = true

section
variable {py : Builtins} {d : Dict} {name s : String} {re : Re}

lemma checkOptional_eq_some (h : checkOptional py d name re = .ok (some s)) :
    d.get? name = some (.str s) ∧ re.pattern.accepts s = true := by
  rw [checkOptional] at h
  split_ifs at h with hnull
  · cases h
  · split at h
    · rename_i t ht
      cases h
      obtain ⟨hstr, haccepts⟩ := filter_eq_some_iff.1 ht
      have hval := asStr_eq_some.1 hstr
      cases hget : d.get? name with
      | none => exact absurd (by rw [hget]; rfl) hnull
      | some v =>
        rw [hget] at hval
        exact ⟨congrArg some hval, haccepts⟩
    · cases h

lemma checkOptional_ok_iff {name o} :
    checkOptional py d name re = .ok o ↔ OptionalToken Linted d name re.pattern o := by
  constructor
  · intro h
    cases o with
    | none =>
      rw [checkOptional] at h
      split_ifs at h with hnull
      · exact .absent hnull
      · split at h
        · cases h
        · cases h
    | some s => exact .present (checkOptional_eq_some h)
  · intro h
    cases h with
    | absent hnull => rw [checkOptional, if_pos hnull]
    | @present s hs =>
      have hfilter : (str s).asStr.filter re.pattern.accepts = some s := filter_eq_some_iff.2 ⟨rfl, hs.2⟩
      have hnull : str s ≠ .null := by
        intro h
        cases congrArg json h
      rw [checkOptional, hs.1, getD_some, if_neg hnull, hfilter]

lemma check_ok_iff : check py d name re = .ok s ↔ Token Linted d name re.pattern s := by
  refine ⟨fun h => ?_, fun h => by rw [check, checkOptional_ok_iff.2 (.present h)]⟩
  rw [check] at h
  split at h
  · rename_i hcheck
    cases h
    exact checkOptional_eq_some hcheck
  · cases h
  · cases h

lemma filter_unsigned_iff {vs : List Value} :
    (vs.filter fun s => (s.asStr.filter RE_BLS_SIG.pattern.accepts).isNone) = [] ↔
      ∀ v ∈ vs, ∃ s, v = .str s ∧ Linted RE_BLS_SIG.pattern s := by
  rw [filter_eq_nil_iff]
  refine forall₂_congr fun v _ => ?_
  rw [Bool.not_eq_true, isNone_eq_false_iff, isSome_iff_exists]
  refine exists_congr fun s => ?_
  rw [filter_eq_some_iff, asStr_eq_some, Linted]

lemma map_filterMap_asStr {vs : List Value} (h : ∀ v ∈ vs, ∃ s, v = .str s) :
    (vs.filterMap asStr).map .str = vs := by
  rw [map_filterMap]
  refine Eq.trans (filterMap_congr fun v hv => ?_) filterMap_some
  obtain ⟨s, rfl⟩ := h v hv
  rfl

lemma quorumSigs_ok_iff {sigs : List String} : quorumSigs py d = .ok sigs ↔ Signatures Linted d sigs := by
  constructor
  · intro h
    rw [quorumSigs] at h
    split at h
    · cases h
    · cases h
    · rename_i vs hne hvs
      split at h
      · rename_i hsigned
        cases h
        have hsigned := filter_unsigned_iff.1 hsigned
        have hmap := map_filterMap_asStr fun v hv => (hsigned v hv).imp fun _ hs => hs.1
        refine ⟨?_, fun hnil => hne ?_, fun s hs => ?_⟩
        · rw [hmap]
          cases hget : d.get? "quorum_sigs" with
          | none =>
            rw [hget, getD_none, asList_list] at hvs
            exact absurd (some.inj hvs).symm hne
          | some v =>
            rw [hget] at hvs
            exact hvs
        · rw [← hmap, hnil, map_nil]
        · obtain ⟨v, hv, hs⟩ := mem_filterMap.1 hs
          obtain ⟨t, rfl, ht⟩ := hsigned v hv
          cases hs
          exact ht
      · cases h
  · intro h
    obtain ⟨s, rest, rfl⟩ := exists_cons_of_ne_nil h.nonempty
    have hlist : ((d.get? "quorum_sigs").getD (.list [])).asList = some ((s :: rest).map .str) := by
      obtain ⟨v, hget, hv⟩ := bind_eq_some_iff.1 h.listed
      rw [hget, getD_some, hv]
    have hall : ∀ v ∈ (s :: rest).map str, ∃ t, v = .str t ∧ Linted RE_BLS_SIG.pattern t := by
      intro v hv
      obtain ⟨t, ht, rfl⟩ := mem_map.1 hv
      exact ⟨t, rfl, h.accepted t ht⟩
    have hsigned := filter_unsigned_iff.2 hall
    have hstr : ((s :: rest).map str).filterMap asStr = s :: rest := by
      rw [filterMap_map]
      exact filterMap_some
    rw [map_cons] at hlist hsigned hstr
    rw [quorumSigs, hlist]
    simp only [hsigned, hstr]

lemma selfAttested_iff {w r} : errorsOf (selfAttested (.ok w) (.ok r)) = [] ↔ w ≠ r := by
  rw [selfAttested]
  split_ifs with h
  · simp [errorsOf, h]
  · simp [errorsOf, h]

variable {receipt : ClusterReceipt}

lemma lintDict_ok_iff : lintDict py d = .ok receipt ↔ Reads Linted d (RE_TIME py).pattern receipt := by
  constructor
  · intro h
    rw [lintDict] at h
    split at h
    · rename_i hnone
      obtain ⟨cluster, hcluster, h⟩ := bind_eq_ok.1 h
      obtain ⟨receiptId, hid, h⟩ := bind_eq_ok.1 h
      obtain ⟨issuedAt, htime, h⟩ := bind_eq_ok.1 h
      obtain ⟨stateRoot, hroot, h⟩ := bind_eq_ok.1 h
      obtain ⟨commit, hcommit, h⟩ := bind_eq_ok.1 h
      obtain ⟨writer, hwriter, h⟩ := bind_eq_ok.1 h
      obtain ⟨replica, hreplica, h⟩ := bind_eq_ok.1 h
      obtain ⟨sigs, hsigs, h⟩ := bind_eq_ok.1 h
      obtain ⟨koeId, hkoe, h⟩ := bind_eq_ok.1 h
      cases h
      have hself := (append_eq_nil_iff.1 hnone).2
      rw [hwriter, hreplica] at hself
      exact {
        cluster := check_ok_iff.1 hcluster
        receiptId := check_ok_iff.1 hid
        issuedAt := check_ok_iff.1 htime
        stateRoot := check_ok_iff.1 hroot
        commit := check_ok_iff.1 hcommit
        writerPrincipal := check_ok_iff.1 hwriter
        replicaPrincipal := check_ok_iff.1 hreplica
        koeId := checkOptional_ok_iff.1 hkoe
        quorumSigs := quorumSigs_ok_iff.1 hsigs
        separate := selfAttested_iff.1 hself }
    · cases h
  · intro h
    rw [lintDict, check_ok_iff.2 h.cluster, check_ok_iff.2 h.receiptId, check_ok_iff.2 h.issuedAt,
      check_ok_iff.2 h.stateRoot, check_ok_iff.2 h.commit, check_ok_iff.2 h.writerPrincipal,
      check_ok_iff.2 h.replicaPrincipal, checkOptional_ok_iff.2 h.koeId, quorumSigs_ok_iff.2 h.quorumSigs,
      selfAttested_iff.2 h.separate]
    rfl

variable {raw : Value}

/-- A receipt is admitted if it is what the dict holds, up to what Python's `match` accepts. -/
lemma lintReceipt_ok_iff :
    lintReceipt py raw = .ok receipt ↔
      ∃ d, raw.asDict = some d ∧ Reads Linted d (RE_TIME py).pattern receipt := by
  rw [lintReceipt]
  cases raw.asDict with
  | none => simp
  | some d => simp [lintDict_ok_iff]

lemma cluster_begins (h : lintReceipt py raw = .ok receipt) : "did:".toList <+: receipt.cluster.toList := by
  obtain ⟨d, -, hreads⟩ := lintReceipt_ok_iff.1 h
  obtain ⟨w, hw, hbegin⟩ := Pattern.exists_of_accepts hreads.cluster.2
  cases hw with
  | @seq _ _ v w' hv hw' =>
    cases hv with
    | text => exact (prefix_append _ _).trans hbegin

lemma commit_ne_empty (h : lintReceipt py raw = .ok receipt) : receipt.commit ≠ "" := by
  obtain ⟨d, -, hreads⟩ := lintReceipt_ok_iff.1 h
  obtain ⟨w, hw, hbegin⟩ := Pattern.exists_of_accepts hreads.commit.2
  intro hempty
  rw [hempty] at hbegin
  have hnil : w = [] := prefix_nil.1 hbegin
  cases hw with
  | run hp hlo hhi =>
    rw [hnil] at hlo
    cases hlo

end

end SocioWorkspace.Triad
