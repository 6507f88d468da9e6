import SocioWorkspace.Lib.Binomial
import SocioWorkspace.Lib.PyJson

/-!
# Placement under threat

Model of `automation/storage_placement.py` and of `Placement` of `automation/storage_resilience.py`. The
registry is the decoded `registry/mesh-storage-placement.yaml`, where every tier passes the validation.
`load_runtime_placement` compares the tier of the threat state with the default tier by overhead only. Overheads
and probabilities are exact. Python's `int`, `str`, the `==` of keys and `sorted` are parameters (`Builtins`).
-/

namespace SocioWorkspace.Storage
open Python Binomial

/-- Python `Placement`. -/
structure Placement where
  replicas : ℤ
  rsK : ℤ
  rsM : ℤ
  encryptedAtRest : Bool
  shardReplicas : ℤ
deriving DecidableEq

namespace Placement
variable (p : Placement)

/-- Python `Placement.rs_n`. -/
def rsN : ℤ := p.rsK + p.rsM

/-- Python `Placement.durability_overhead`. -/
def durabilityOverhead : ℚ := p.rsN * p.shardReplicas / p.rsK

/-- Python `survival_probability`, of a valid placement. -/
def survivalProbability {α : Type} [CommRing α] (frac : α) : α :=
  Binomial.tail p.rsN.toNat p.rsK.toNat (1 - frac ^ p.shardReplicas.toNat)

/-- Python `max_seizable_nodes`. -/
def maxSeizableNodes : ℤ := p.rsM

end Placement

/-- Python `int`, `str`, `==` of keys and `sorted`. -/
structure Builtins where
  int : IntBuiltin
  str : Value → String
  same : Value → Value → Bool
  sorted : List Value → Except PyError (List Value)
  same_str : ∀ v s, same v (.str s) = true ↔ v = .str s

/-- What `_validate` rejects. -/
inductive Problem where
  | rsK
  | rsM
  | replicas
  | shardReplicas
  | plaintext
deriving DecidableEq

/-- The exceptions of the loader: its own, which are `ValueError`s, and those of a conversion. -/
inductive LoadError where
  | rejected (tier : Value) (problem : Problem)
  | noTier
  | unknownTier (tier : Value) (declared : List Value)
  | raised (e : PyError)

namespace LoadError

def isValueError : LoadError → Bool
  | raised e => e = .value
  | _ => true

end LoadError

/-- Python `_validate`. -/
def validate (tier : Value) (p : Placement) : Except LoadError Unit :=
  if p.rsK < 1 then .error (.rejected tier .rsK)
  else if p.rsM < 0 then .error (.rejected tier .rsM)
  else if p.replicas < 1 then .error (.rejected tier .replicas)
  else if p.shardReplicas < 1 then .error (.rejected tier .shardReplicas)
  else if !p.encryptedAtRest then .error (.rejected tier .plaintext)
  else .ok ()

section Load
variable (py : Builtins)

/-- Python `_tier_to_placement`. -/
def tierToPlacement (spec : Value) : Except PyError Placement := do
  let spec ← orRaise .attr spec.asDict
  return {
    replicas := ← py.int.int ((spec.get? "replicas").getD (.int 3))
    rsK := ← py.int.int (← orRaise .key (spec.get? "rs_k"))
    rsM := ← py.int.int (← orRaise .key (spec.get? "rs_m"))
    encryptedAtRest := ((spec.get? "encrypted_at_rest").getD (.bool true)).truthy
    shardReplicas := ← py.int.int ((spec.get? "shard_replicas").getD (.int 1)) }

def loadTier (tier spec : Value) : Except LoadError Placement := do
  let p ← (tierToPlacement py spec).mapError .raised
  validate tier p
  return p

structure Registry where
  defaultTier : Value
  tiers : List (Value × Value)
  valid : ∀ m ∈ tiers, ∃ p, loadTier py m.1 m.2 = .ok p

variable {py} (reg : Registry py)

def Registry.find (tier : Value) : Option (Value × Value) := reg.tiers.find? fun m => py.same m.1 tier

/-- Python `load_placement`. -/
def loadPlacement (threatTier : Option String) : Except LoadError Placement :=
  let tier := ((threatTier.filter (· ≠ "")).map .str).getD reg.defaultTier
  if !tier.truthy then .error .noTier
  else if !tier.hashable then .error (.raised .type)
  else
    match reg.find tier with
    | none =>
      match py.sorted (reg.tiers.map Prod.fst) with
      | .ok declared => .error (.unknownTier tier declared)
      | .error e => .error (.raised e)
    | some m => loadTier py tier m.2

section Runtime
variable {B : Type} (codec : JsonCodec B) (file : Option B)

/-- The tier that the state file names, if it is there and has one. -/
def stateTier : Except PyError (Option String) :=
  match file with
  | none => .ok none
  | some bytes =>
    match codec.loads bytes with
    | .ok doc => .ok (((doc.asDict.bind (·.get? "tier")).bind (·.asStr)).filter (· ≠ ""))
    | .error .value => .ok none
    | .error .attr => .ok none
    | .error e => .error e

/-- Python `load_runtime_placement`. -/
def loadRuntimePlacement : Except LoadError Placement := do
  let floor ← loadPlacement reg none
  match ← (stateTier codec file).mapError .raised with
  | none => return floor
  | some tier =>
    match loadPlacement reg (some tier) with
    | .ok chosen =>
      return if floor.durabilityOverhead ≤ chosen.durabilityOverhead then chosen else floor
    | .error e => if e.isValueError then return floor else throw e

end Runtime

end Load

/-- What the validation leaves. -/
structure Placement.Valid (p : Placement) : Prop where
  rsK : 1 ≤ p.rsK
  rsM : 0 ≤ p.rsM
  replicas : 1 ≤ p.replicas
  shardReplicas : 1 ≤ p.shardReplicas
  encrypted : p.encryptedAtRest = true

variable {p : Placement}

lemma validate_eq_ok {tier} : validate tier p = .ok () ↔ p.Valid := by
  rw [validate]
  constructor
  · intro h
    split_ifs at h with hk hm hreplicas hshards hencrypted
    exact ⟨not_lt.1 hk, not_lt.1 hm, not_lt.1 hreplicas, not_lt.1 hshards, by simpa using hencrypted⟩
  · rintro ⟨hk, hm, hreplicas, hshards, hencrypted⟩
    rw [if_neg (not_lt.2 hk), if_neg (not_lt.2 hm), if_neg (not_lt.2 hreplicas),
      if_neg (not_lt.2 hshards), if_neg (by simp [hencrypted])]

lemma loadTier_eq_ok {py tier spec} :
    loadTier py tier spec = .ok p ↔ tierToPlacement py spec = .ok p ∧ p.Valid := by
  rw [loadTier]
  constructor
  · intro h
    obtain ⟨p', hp', h⟩ := bind_eq_ok.1 h
    obtain ⟨_, hvalid, h⟩ := bind_eq_ok.1 h
    cases h
    exact ⟨mapError_eq_ok.1 hp', validate_eq_ok.1 hvalid⟩
  · rintro ⟨hp, hvalid⟩
    exact bind_eq_ok.2 ⟨p, mapError_eq_ok.2 hp, bind_eq_ok.2 ⟨(), validate_eq_ok.2 hvalid, rfl⟩⟩

/-- The placement can lose as many nodes and is at least as likely to survive, however many are seized. -/
def NotWeaker (p floor : Placement) : Prop :=
  floor.maxSeizableNodes ≤ p.maxSeizableNodes ∧
    ∀ f : ℝ, 0 ≤ f → f ≤ 1 → floor.survivalProbability f ≤ p.survivalProbability f

structure Placement.Coded (p : Placement) : Prop where
  rsK : 1 ≤ p.rsK
  rsM : 0 ≤ p.rsM
  shardReplicas : 1 ≤ p.shardReplicas

lemma Placement.Valid.coded (hp : p.Valid) : p.Coded := ⟨hp.rsK, hp.rsM, hp.shardReplicas⟩

section Coded
variable {K : Type} [CommRing K] {p floor : Placement} (hp : p.Coded) (hfloor : floor.Coded)
include hp

lemma survivalProbability_eq (f : K) : p.survivalProbability f =
    tail (p.rsK.toNat + p.rsM.toNat) p.rsK.toNat (1 - f ^ p.shardReplicas.toNat) := by
  have hk := hp.rsK
  rw [Placement.survivalProbability, Placement.rsN, Int.toNat_add (by omega) hp.rsM]

variable [LinearOrder K] [IsStrictOrderedRing K] {f : K}

omit hp in
lemma survives_mem_Icc (h0 : 0 ≤ f) (h1 : f ≤ 1) (copies : ℕ) : 0 ≤ 1 - f ^ copies ∧ 1 - f ^ copies ≤ 1 :=
  ⟨sub_nonneg.2 (pow_le_one₀ h0 h1), sub_le_self 1 (pow_nonneg h0 copies)⟩

include hfloor

lemma survivalProbability_mono (hm : floor.rsM ≤ p.rsM) (hk : p.rsK ≤ floor.rsK)
    (hr : floor.shardReplicas ≤ p.shardReplicas) (h0 : 0 ≤ f) (h1 : f ≤ 1) :
    floor.survivalProbability f ≤ p.survivalProbability f := by
  have hcopies : 1 - f ^ floor.shardReplicas.toNat ≤ 1 - f ^ p.shardReplicas.toNat :=
    sub_le_sub_left (pow_le_pow_of_le_one h0 h1 (Int.toNat_le_toNat hr)) 1
  obtain ⟨hq0, hq1⟩ := survives_mem_Icc h0 h1 p.shardReplicas.toNat
  rw [survivalProbability_eq hp, survivalProbability_eq hfloor]
  calc
    _ ≤ tail (floor.rsK.toNat + floor.rsM.toNat) floor.rsK.toNat
        (1 - f ^ p.shardReplicas.toNat) := tail_mono (survives_mem_Icc h0 h1 _).1 hcopies hq1
    _ ≤ tail (p.rsK.toNat + floor.rsM.toNat) p.rsK.toNat (1 - f ^ p.shardReplicas.toNat) :=
      tail_add_anti hq0 hq1 _ (Int.toNat_le_toNat hk)
    _ ≤ _ := tail_add_mono hq0 hq1 _ (Int.toNat_le_toNat hm)

end Coded

section Price
variable {K : Type} [CommRing K] [LinearOrder K] [IsStrictOrderedRing K] {p : Placement}

lemma survivalProbability_anti (hp : p.Coded) {f g : K} (h0 : 0 ≤ f) (hfg : f ≤ g) (h1 : g ≤ 1) :
    p.survivalProbability g ≤ p.survivalProbability f := by
  obtain ⟨hg0, -⟩ := survives_mem_Icc (h0.trans hfg) h1 p.shardReplicas.toNat
  obtain ⟨-, hf1⟩ := survives_mem_Icc h0 (hfg.trans h1) p.shardReplicas.toNat
  rw [survivalProbability_eq hp, survivalProbability_eq hp]
  exact tail_mono hg0 (sub_le_sub_left (pow_le_pow_left₀ h0 hfg _) 1) hf1

/-- Survival is a probability, certain if no node is seized and lost if all are, worse for more seized
nodes, better for more parity and copies. -/
theorem survivalProbability_price (K : Type) [CommRing K] [LinearOrder K] [IsStrictOrderedRing K]
    (p : Placement) (hk : 1 ≤ p.rsK) (hm : 0 ≤ p.rsM) (hr : 1 ≤ p.shardReplicas) :
    (∀ f : K, 0 ≤ f → f ≤ 1 → 0 ≤ p.survivalProbability f ∧ p.survivalProbability f ≤ 1) ∧
    p.survivalProbability (0 : K) = 1 ∧ p.survivalProbability (1 : K) = 0 ∧
    (∀ f g : K, 0 ≤ f → f ≤ g → g ≤ 1 → p.survivalProbability g ≤ p.survivalProbability f) ∧
    (∀ f : K, 0 ≤ f → f ≤ 1 → ∀ m, p.rsM ≤ m →
      p.survivalProbability f ≤ { p with rsM := m }.survivalProbability f) ∧
    ∀ f : K, 0 ≤ f → f ≤ 1 → ∀ r, p.shardReplicas ≤ r →
      p.survivalProbability f ≤ { p with shardReplicas := r }.survivalProbability f := by
  have hp : p.Coded := ⟨hk, hm, hr⟩
  have hcopies : p.shardReplicas.toNat ≠ 0 := by omega
  refine ⟨?_, ?_, ?_, ?_, ?_, ?_⟩
  · intro f h0 h1
    obtain ⟨hs0, hs1⟩ := survives_mem_Icc h0 h1 p.shardReplicas.toNat
    exact ⟨tail_nonneg hs0 hs1, tail_le_one hs0 hs1⟩
  · rw [survivalProbability_eq hp, zero_pow hcopies, sub_zero]
    exact tail_one (Nat.le_add_right _ _)
  · rw [survivalProbability_eq hp, one_pow, sub_self]
    exact tail_zero_right (by omega)
  · exact fun f g => survivalProbability_anti hp
  · intro f h0 h1 m hle
    have hmore : Placement.Coded { p with rsM := m } := ⟨hk, hm.trans hle, hr⟩
    exact survivalProbability_mono hmore hp hle le_rfl le_rfl h0 h1
  · intro f h0 h1 r hle
    have hmore : Placement.Coded { p with shardReplicas := r } := ⟨hk, hm, hr.trans hle⟩
    exact survivalProbability_mono hmore hp le_rfl le_rfl hle h0 h1

/-- The default placement, over the rationals. -/
theorem defaultPlacement_price : let p : Placement := ⟨3, 6, 3, true, 1⟩
    (∀ f : ℚ, 0 ≤ f → f ≤ 1 → 0 ≤ p.survivalProbability f ∧ p.survivalProbability f ≤ 1) ∧
    p.survivalProbability (0 : ℚ) = 1 ∧ p.survivalProbability (1 : ℚ) = 0 ∧
    (∀ f g : ℚ, 0 ≤ f → f ≤ g → g ≤ 1 → p.survivalProbability g ≤ p.survivalProbability f) ∧
    (∀ f : ℚ, 0 ≤ f → f ≤ 1 → ∀ m, p.rsM ≤ m →
      p.survivalProbability f ≤ { p with rsM := m }.survivalProbability f) ∧
    ∀ f : ℚ, 0 ≤ f → f ≤ 1 → ∀ r, p.shardReplicas ≤ r →
      p.survivalProbability f ≤ { p with shardReplicas := r }.survivalProbability f :=
  survivalProbability_price ℚ ⟨3, 6, 3, true, 1⟩ (by decide) (by decide) (by decide)

end Price

section Survival
variable {p floor : Placement} (hp : p.Valid) (hfloor : floor.Valid)
include hp hfloor

/-- A placement that needs more shards is the weaker one when almost every node is seized. -/
lemma rsK_le_of_survives
    (h : ∀ f : ℝ, 0 ≤ f → f ≤ 1 → floor.survivalProbability f ≤ p.survivalProbability f) :
    p.rsK ≤ floor.rsK := by
  have hk₀ := hfloor.rsK
  have hr₀ := hfloor.shardReplicas
  by_contra hlt
  obtain ⟨f, h0, h1, hweaker⟩ := @Binomial.exists_tail_lt ℝ _ _ _ p.rsK.toNat p.rsM.toNat
    p.shardReplicas.toNat floor.rsK.toNat floor.rsM.toNat floor.shardReplicas.toNat (by omega) (by omega)
  rw [← survivalProbability_eq hp.coded, ← survivalProbability_eq hfloor.coded] at hweaker
  exact absurd (h f h0 h1) (not_le.2 hweaker)

end Survival

section Runtime
variable {py : Builtins} {reg : Registry py} {B : Type} {codec : JsonCodec B} {file : Option B}
variable {p floor : Placement}

lemma loadPlacement_valid {tier} (h : loadPlacement reg tier = .ok p) : p.Valid := by
  rw [loadPlacement] at h
  split_ifs at h
  split at h
  · split at h <;> cases h
  · exact (loadTier_eq_ok.1 h).2

lemma exists_loadTier {tier m} (h : reg.find tier = some m) : ∃ p, loadTier py tier m.2 = .ok p := by
  obtain ⟨p, hp⟩ := reg.valid m (List.mem_of_find?_eq_some h)
  exact ⟨p, loadTier_eq_ok.2 (loadTier_eq_ok.1 hp)⟩

structure Registry.DefaultDeclared (reg : Registry py) : Prop where
  truthy : reg.defaultTier.truthy = true
  hashable : reg.defaultTier.hashable = true
  find : (reg.find reg.defaultTier).isSome = true

lemma exists_floor_iff : (∃ floor, loadPlacement reg none = .ok floor) ↔ reg.DefaultDeclared := by
  have hnone : loadPlacement reg none =
      if !reg.defaultTier.truthy then .error .noTier
      else if !reg.defaultTier.hashable then .error (.raised .type)
      else
        match reg.find reg.defaultTier with
        | none =>
          match py.sorted (reg.tiers.map Prod.fst) with
          | .ok declared => .error (.unknownTier reg.defaultTier declared)
          | .error e => .error (.raised e)
        | some m => loadTier py reg.defaultTier m.2 := rfl
  rw [hnone]
  constructor
  · rintro ⟨floor, h⟩
    split_ifs at h with htruthy hhashable
    split at h
    · split at h <;> cases h
    · rename_i m hfind
      exact ⟨by simpa using htruthy, by simpa using hhashable, by rw [hfind]; rfl⟩
  · intro h
    obtain ⟨m, hm⟩ := Option.isSome_iff_exists.1 h.find
    rw [if_neg (by simp [h.truthy]), if_neg (by simp [h.hashable]), hm]
    exact exists_loadTier hm

variable {tier : String}

lemma loadPlacement_some (hne : tier ≠ "") : loadPlacement reg (some tier) =
    match reg.find (.str tier) with
    | none =>
      match py.sorted (reg.tiers.map Prod.fst) with
      | .ok declared => .error (.unknownTier (.str tier) declared)
      | .error e => .error (.raised e)
    | some m => loadTier py (.str tier) m.2 := by
  have htier : (((some tier).filter (· ≠ "")).map Value.str).getD reg.defaultTier = .str tier := by
    rw [Option.filter_some, if_pos (by simpa using hne)]
    rfl
  have htruthy : (Value.str tier).truthy = true := decide_eq_true hne
  have hhashable : (Value.str tier).hashable = true := rfl
  rw [loadPlacement, htier, if_neg (by simp [htruthy]), if_neg (by simp [hhashable])]

lemma stateTier_ne_empty (h : stateTier codec file = .ok (some tier)) : tier ≠ "" := by
  unfold stateTier at h
  split at h
  · cases h
  · split at h
    · have hfilter := Option.filter_eq_some_iff.1 (Except.ok.inj h)
      simpa using hfilter.2
    · cases h
    · cases h
    · cases h

/-- The default tier is declared, the state file fails with a caught exception at most, and a complaint about an
undeclared tier can be written. -/
structure Answerable (reg : Registry py) (codec : JsonCodec B) (file : Option B) : Prop where
  declared : reg.DefaultDeclared
  decodes : ∃ tier, stateTier codec file = .ok tier
  reports : ∀ tier, stateTier codec file = .ok (some tier) → reg.find (.str tier) = none →
    ∀ e, py.sorted (reg.tiers.map Prod.fst) = .error e → e = .value

lemma exists_error_of_unknown (hne : tier ≠ "") (hfind : reg.find (.str tier) = none) :
    ∃ e, loadPlacement reg (some tier) = .error e ∧ (e.isValueError = true ↔
      ∀ e', py.sorted (reg.tiers.map Prod.fst) = .error e' → e' = .value) := by
  rw [loadPlacement_some hne, hfind]
  cases hsorted : py.sorted (reg.tiers.map Prod.fst) with
  | ok declared => exact ⟨_, rfl, iff_of_true rfl fun e' he' => by cases he'⟩
  | error e =>
    refine ⟨_, rfl, ?_⟩
    rw [LoadError.isValueError, decide_eq_true_eq]
    exact ⟨fun h e' he' => Except.error.inj he' ▸ h, fun h => h e rfl⟩

section Cases
variable (hfloor : loadPlacement reg none = .ok floor)
include hfloor

lemma runtime_of_raised {e} (h : stateTier codec file = .error e) :
    loadRuntimePlacement reg codec file = .error (.raised e) := by
  rw [loadRuntimePlacement, hfloor, h]
  rfl

lemma runtime_of_none (h : stateTier codec file = .ok none) :
    loadRuntimePlacement reg codec file = .ok floor := by
  rw [loadRuntimePlacement, hfloor, h]
  rfl

variable {tier : String} (htier : stateTier codec file = .ok (some tier))
include htier

lemma runtime_of_chosen {chosen} (h : loadPlacement reg (some tier) = .ok chosen) :
    loadRuntimePlacement reg codec file =
      .ok (if floor.durabilityOverhead ≤ chosen.durabilityOverhead then chosen else floor) := by
  rw [loadRuntimePlacement, hfloor, htier]
  show (match loadPlacement reg (some tier) with | .ok _ => _ | .error _ => _) = _
  rw [h]
  rfl

lemma runtime_of_error {e} (h : loadPlacement reg (some tier) = .error e) :
    loadRuntimePlacement reg codec file = if e.isValueError then .ok floor else .error e := by
  rw [loadRuntimePlacement, hfloor, htier]
  show (match loadPlacement reg (some tier) with | .ok _ => _ | .error _ => _) = _
  rw [h]
  rfl

end Cases

/-- What the runtime placement is: the default, or a declared tier of no less overhead that the state file
names. -/
inductive Chosen (reg : Registry py) (codec : JsonCodec B) (file : Option B) (floor : Placement) : Placement → Prop
  | floor : Chosen reg codec file floor floor
  | named {name p} : stateTier codec file = .ok (some name) → loadPlacement reg (some name) = .ok p →
    floor.durabilityOverhead ≤ p.durabilityOverhead → Chosen reg codec file floor p

lemma exists_chosen (h : Answerable reg codec file) (hfloor : loadPlacement reg none = .ok floor) :
    ∃ p, loadRuntimePlacement reg codec file = .ok p ∧ Chosen reg codec file floor p := by
  obtain ⟨tier, htier⟩ := h.decodes
  cases tier with
  | none => exact ⟨floor, runtime_of_none hfloor htier, .floor⟩
  | some tier =>
    cases hfind : reg.find (.str tier) with
    | none =>
      obtain ⟨e, he, hvalue⟩ := exists_error_of_unknown (stateTier_ne_empty htier) hfind
      have hruntime := runtime_of_error hfloor htier he
      rw [if_pos (hvalue.2 (h.reports tier htier hfind))] at hruntime
      exact ⟨floor, hruntime, .floor⟩
    | some m =>
      obtain ⟨chosen, hchosen⟩ := exists_loadTier hfind
      have hload : loadPlacement reg (some tier) = .ok chosen := by
        rw [loadPlacement_some (stateTier_ne_empty htier), hfind]
        exact hchosen
      refine ⟨_, runtime_of_chosen hfloor htier hload, ?_⟩
      split_ifs with hoverhead
      · exact .named htier hload hoverhead
      · exact .floor

lemma answerable_of_ok (hfloor : loadPlacement reg none = .ok floor)
    (hp : loadRuntimePlacement reg codec file = .ok p) : Answerable reg codec file := by
  refine ⟨exists_floor_iff.1 ⟨floor, hfloor⟩, ?_, fun tier htier hfind => ?_⟩
  · cases htier : stateTier codec file with
    | error e =>
      rw [runtime_of_raised hfloor htier] at hp
      cases hp
    | ok tier => exact ⟨tier, rfl⟩
  · obtain ⟨e, he, hvalue⟩ := exists_error_of_unknown (stateTier_ne_empty htier) hfind
    rw [runtime_of_error hfloor htier he] at hp
    refine hvalue.1 ?_
    by_contra hother
    rw [if_neg hother] at hp
    cases hp

end Runtime

def textBuiltins : Builtins where
  int := decimalInts
  str v := v.asStr.getD (.ofList v.json.print)
  same v w := v = w
  sorted vs := .ok (vs.insertionSort fun v w => v.asStr.getD "" ≤ w.asStr.getD "")
  same_str _ _ := decide_eq_true_iff

def declaredTier (rsK rsM shardReplicas : ℤ) : Value :=
  .dict (.ofList [
    ("replicas", .int 3),
    ("rs_k", .int rsK),
    ("rs_m", .int rsM),
    ("shard_replicas", .int shardReplicas),
    ("encrypted_at_rest", .bool true)])

/-- The tiers of `registry/mesh-storage-placement.yaml`. -/
def declaredTiers : List (Value × Value) := [
  (.str "baseline", declaredTier 6 3 1),
  (.str "hardened", declaredTier 9 9 1),
  (.str "hostile", declaredTier 6 3 2)]

lemma declaredTiers_valid : ∀ m ∈ declaredTiers, ∃ p, loadTier textBuiltins m.1 m.2 = .ok p := by
  have hok : ∀ m ∈ declaredTiers, (loadTier textBuiltins m.1 m.2).toOption.isSome = true := by
    decide +kernel
  intro m hm
  cases h : loadTier textBuiltins m.1 m.2 with
  | ok p => exact ⟨p, rfl⟩
  | error e =>
    have hsome := hok m hm
    rw [h] at hsome
    cases hsome

/-- The registry of `registry/mesh-storage-placement.yaml`. -/
def declaredRegistry : Registry textBuiltins := ⟨.str "hardened", declaredTiers, declaredTiers_valid⟩

end SocioWorkspace.Storage
