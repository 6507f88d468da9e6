import SocioWorkspace.Lib.ExactFloat
import SocioWorkspace.Lib.PyData

/-!
# The rotation of the masters

Model of `automation/triad_rotation.py`: `rotate`, `epoch_for_time`, and `load_schedule`, which reads the decoded
`registry/triad-rotation.yaml`. The masters are any values, told apart by Python's `==`. Times and periods are
exact.

`rotate_list` computes `rotate` on three distinct masters and `leaders_perm` says that in three epochs in a row
each of them leads once. `usable_iff` is about every schedule that `load_schedule` accepts.
-/

namespace SocioWorkspace.Triad
open Python List

/-- Python's `int`, `float` and the `==` of set members, on the values of the registry. -/
structure Scalars where
  int : Data → Except PyError ℤ
  float : Data → Except PyError ExactFloat
  same : Data → Data → Bool
  int_int : ∀ n, int (.int n) = .ok n
  float_int : ∀ n, float (.int n) = .ok (.fin n)
  float_zero : float (.other "0.0" false) = .ok (.fin 0)
  same_comm : ∀ a b, same a b = same b a
  same_str : ∀ s t, same (.str s) (.str t) = decide (s = t)

/-- The exceptions of the module: its own, which are `ValueError`s, and those of a look at a value. -/
inductive RotationError where
  | triad
  | step (n : ℤ)
  | period
  | registry
  | python (e : PyError)
deriving DecidableEq

/-- Python `Assignment`. -/
structure Assignment where
  epoch : ℤ
  leader : Data
  attestor : Data
  witness : Data

/-- Python `RotationSchedule`. -/
structure RotationSchedule where
  masters : List Data
  periodS : ExactFloat
  step : ℤ
  phaseS : ExactFloat

section Rotate
variable (py : Scalars)

/-- Python `len(set(xs))`. -/
def setLength (xs : List Data) : ℕ :=
  (xs.foldl (fun seen x => if seen.any (py.same · x) then seen else seen ++ [x]) []).length

/-- Python `len(masters) == 3 and len(set(masters)) == 3`. -/
def isTriad (masters : Data) : Except PyError Bool := do
  let xs ← masters.iterate
  if xs.length ≠ 3 then return false
  else if xs.all Data.hashable then return setLength py xs = 3
  else throw .type

/-- Python `masters[i]`: an element of a list or a text, or the value of a key of a dict. -/
def subscript (masters : Data) (i : ℕ) : Except PyError Data :=
  match masters with
  | .dict members => orRaise .key ((members.find? fun m => py.same m.1 (.int i)).map Prod.snd)
  | masters => do
    let xs ← masters.iterate
    orRaise .key xs[i]?

/-- Python `rotate`. -/
def rotate (masters : Data) (epoch step : ℤ) : Except RotationError Assignment := do
  let ok ← (isTriad py masters).mapError .python
  if !ok then throw .triad
  else if step % 3 = 0 then throw (.step step)
  else
    let shift := ((epoch * step) % 3).toNat
    let leader ← (subscript py masters ((0 + shift) % 3)).mapError .python
    let attestor ← (subscript py masters ((1 + shift) % 3)).mapError .python
    let witness ← (subscript py masters ((2 + shift) % 3)).mapError .python
    return ⟨epoch, leader, attestor, witness⟩

/-- Python `epoch_for_time`. -/
def epochForTime (tEpochS periodS phaseS : ExactFloat) : Except RotationError ℤ :=
  if periodS.nonpos then .error .period
  else (((tEpochS.sub phaseS).div periodS).floor).mapError .python

/-- Python `RotationSchedule.at_epoch`. -/
def RotationSchedule.atEpoch (s : RotationSchedule) (epoch : ℤ) : Except RotationError Assignment :=
  rotate py (.list s.masters) epoch s.step

/-- Python `RotationSchedule.at_time`. -/
def RotationSchedule.atTime (s : RotationSchedule) (tEpochS : ExactFloat) :
    Except RotationError Assignment := do
  let epoch ← epochForTime tEpochS s.periodS s.phaseS
  s.atEpoch py epoch

/-- Python `d or default`. -/
def orElse (d default : Data) : Data := if d.truthy then d else default

/-- Python `load_schedule` of a decoded registry. -/
def loadSchedule (doc : Data) : Except RotationError RotationSchedule := do
  let data := orElse doc (.dict [])
  let masters ← (data.get "masters").mapError .python
  let masters := orElse masters (.list [])
  let ok ← (isTriad py masters).mapError .python
  if !ok then throw .registry
  else
    let step ← (data.get "step" (.int 1)).mapError .python
    let step ← (py.int step).mapError .python
    let periodS ← (data.get "period_s" (.int 0)).mapError .python
    let periodS ← (py.float periodS).mapError .python
    let _ ← rotate py masters 0 step
    let xs ← masters.iterate.mapError .python
    let phaseS ← (data.get "phase_s" (.other "0.0" false)).mapError .python
    let phaseS ← (py.float phaseS).mapError .python
    return ⟨xs, periodS, step, phaseS⟩

end Rotate

@[mk_iff]
structure Distinct (py : Scalars) (a b c : Data) : Prop where
  first : py.same a b = false
  second : py.same b c = false
  third : py.same a c = false

section
variable {py : Scalars} {masters : Data} {xs : List Data} {a b c : Data}

lemma Distinct.rotated (h : Distinct py a b c) : Distinct py b c a :=
  ⟨h.second, (py.same_comm c a).trans h.third, (py.same_comm b a).trans h.first⟩

lemma setLength_three : setLength py [a, b, c] = 3 ↔ Distinct py a b c := by
  rw [distinct_iff]
  cases hab : py.same a b <;> cases hac : py.same a c <;> cases hbc : py.same b c <;>
    simp [setLength, hab, hac, hbc]

lemma isTriad_eq_true : isTriad py masters = .ok true ↔
    ∃ a b c, masters.iterate = .ok [a, b, c] ∧ [a, b, c].all Data.hashable = true ∧
      Distinct py a b c := by
  refine ⟨fun h => ?_, fun h => ?_⟩
  · obtain ⟨xs, hxs, h⟩ := bind_eq_ok.1 h
    split_ifs at h with hlength hhash
    · cases h
    · obtain ⟨a, b, c, rfl⟩ := length_eq_three.1 (not_not.1 hlength)
      exact ⟨a, b, c, hxs, hhash, setLength_three.1 (of_decide_eq_true (Except.ok.inj h))⟩
  · obtain ⟨a, b, c, hxs, hhash, hdistinct⟩ := h
    refine bind_eq_ok.2 ⟨_, hxs, ?_⟩
    rw [if_neg (by simp), if_pos hhash, setLength_three.2 hdistinct]
    rfl

def turned (a b c : Data) (epoch shift : ℤ) : Assignment :=
  if shift = 0 then ⟨epoch, a, b, c⟩ else if shift = 1 then ⟨epoch, b, c, a⟩ else ⟨epoch, c, a, b⟩

lemma distinct_turned (h : Distinct py a b c) (epoch shift : ℤ) :
    Distinct py (turned a b c epoch shift).leader (turned a b c epoch shift).attestor
      (turned a b c epoch shift).witness := by
  rw [turned]
  split_ifs
  · exact h
  · exact h.rotated
  · exact h.rotated.rotated

variable {step : ℤ}

lemma rotate_list (hhash : [a, b, c].all Data.hashable = true) (hdistinct : Distinct py a b c)
    (hstep : step % 3 ≠ 0) (epoch : ℤ) :
    rotate py (.list [a, b, c]) epoch step = .ok (turned a b c epoch ((epoch * step) % 3)) := by
  have htriad : isTriad py (.list [a, b, c]) = .ok true := isTriad_eq_true.2 ⟨a, b, c, rfl, hhash, hdistinct⟩
  rw [rotate, htriad]
  refine (if_neg hstep).trans ?_
  obtain h | h | h : (epoch * step) % 3 = 0 ∨ (epoch * step) % 3 = 1 ∨ (epoch * step) % 3 = 2 := by
    omega
  · rw [h]
    rfl
  · rw [h]
    rfl
  · rw [h]
    rfl

lemma shifts_perm (hstep : step % 3 ≠ 0) (n : ℤ) :
    [n % 3, (n + step) % 3, (n + step + step) % 3].Perm [0, 1, 2] := by
  refine (subperm_of_subset ?_ fun r hr => ?_).perm_of_length_le le_rfl
  · simp only [nodup_cons, mem_cons, not_mem_nil, or_false, not_or]
    refine ⟨⟨?_, ?_⟩, ?_, not_false, nodup_nil⟩
    · omega
    · omega
    · omega
  · simp only [mem_cons, not_mem_nil, or_false] at hr ⊢
    omega

lemma leaders_perm (hstep : step % 3 ≠ 0) (e : ℤ) :
    [(turned a b c e ((e * step) % 3)).leader,
      (turned a b c (e + 1) (((e + 1) * step) % 3)).leader,
      (turned a b c (e + 1 + 1) (((e + 1 + 1) * step) % 3)).leader].Perm [a, b, c] := by
  have hleader (epoch shift : ℤ) :
      (turned a b c epoch shift).leader = (turned a b c 0 shift).leader := by
    unfold turned
    split_ifs
    · rfl
    · rfl
    · rfl
  have hone : (e + 1) * step = e * step + step := by ring
  have htwo : (e + 1 + 1) * step = e * step + step + step := by ring
  rw [hleader e, hleader (e + 1), hleader (e + 1 + 1), hone, htwo]
  exact (shifts_perm hstep (e * step)).map fun shift => (turned a b c 0 shift).leader

lemma loadSchedule_checked {doc s} (h : loadSchedule py doc = .ok s) :
    ∃ a b c, s.masters = [a, b, c] ∧ [a, b, c].all Data.hashable = true ∧ Distinct py a b c ∧
      s.step % 3 ≠ 0 := by
  obtain ⟨masters, -, h⟩ := bind_eq_ok.1 h
  obtain ⟨ok, hok, h⟩ := bind_eq_ok.1 h
  split_ifs at h with htriad
  rw [Bool.not_eq_true', Bool.not_eq_false] at htriad
  obtain ⟨a, b, c, hxs, hhash, hdistinct⟩ := isTriad_eq_true.1 (htriad ▸ mapError_eq_ok.1 hok)
  obtain ⟨stepField, -, h⟩ := bind_eq_ok.1 h
  obtain ⟨step, -, h⟩ := bind_eq_ok.1 h
  obtain ⟨periodField, -, h⟩ := bind_eq_ok.1 h
  obtain ⟨periodS, -, h⟩ := bind_eq_ok.1 h
  obtain ⟨first, hrotate, h⟩ := bind_eq_ok.1 h
  obtain ⟨xs, hxs', h⟩ := bind_eq_ok.1 h
  obtain ⟨phaseField, -, h⟩ := bind_eq_ok.1 h
  obtain ⟨phaseS, -, h⟩ := bind_eq_ok.1 h
  cases h
  have hsame := hxs.symm.trans (mapError_eq_ok.1 hxs')
  cases hsame
  refine ⟨a, b, c, rfl, hhash, hdistinct, fun hstep => ?_⟩
  obtain ⟨ok', -, hrotate⟩ := bind_eq_ok.1 hrotate
  split_ifs at hrotate

variable {t p q : ℚ}

lemma epochForTime_fin (hp : 0 < p) : epochForTime (.fin t) (.fin p) (.fin q) = .ok ⌊(t - q) / p⌋ := by
  have hpos : (ExactFloat.fin p).nonpos = false := decide_eq_false (not_le.2 hp)
  rw [epochForTime, hpos]
  show (ExactFloat.fin ((t + -q) / p)).floor.mapError .python = _
  rw [← sub_eq_add_neg]
  rfl

lemma floor_period (hp : 0 < p) : ⌊(t + p - q) / p⌋ = ⌊(t - q) / p⌋ + 1 := by
  have hshift : (t + p - q) / p = (t - q) / p + 1 := by
    field_simp
    ring
  rw [hshift, Int.floor_add_one]

/-- A time has an epoch only where the period is positive and neither it nor the phase is without a
number. -/
lemma epochForTime_returns {period phase e e'} (h : epochForTime (.fin t) period phase = .ok e)
    (h' : epochForTime ((ExactFloat.fin t).add period) period phase = .ok e') :
    (∃ p, period = .fin p ∧ 0 < p) ∧ ∃ q, phase = .fin q := by
  unfold epochForTime at h h'
  split_ifs at h h' with hpos
  obtain ⟨x, hx, -⟩ := ExactFloat.floor_eq_ok.1 (mapError_eq_ok.1 h)
  obtain ⟨x', hx', -⟩ := ExactFloat.floor_eq_ok.1 (mapError_eq_ok.1 h')
  cases period with
  | fin p =>
    refine ⟨⟨p, rfl, not_le.1 fun hle => hpos (decide_eq_true hle)⟩, ?_⟩
    cases phase with
    | fin q => exact ⟨q, rfl⟩
    | inf negative | nan => cases hx
  | inf negative =>
    -- the time of the next epoch is not finite
    cases phase with
    | fin q => cases hx'
    | inf negative | nan => cases hx
  | nan =>
    cases phase with
    | fin q | inf negative | nan => cases hx

end

/-- At every time there is an assignment of the masters, and those of three times a period apart have the
three masters as leaders. -/
def RotationSchedule.Usable (py : Scalars) (s : RotationSchedule) : Prop :=
  ∀ t : ℚ, ∃ a₀ a₁ a₂, s.atTime py (.fin t) = .ok a₀ ∧
    s.atTime py ((ExactFloat.fin t).add s.periodS) = .ok a₁ ∧
    s.atTime py (((ExactFloat.fin t).add s.periodS).add s.periodS) = .ok a₂ ∧
    Distinct py a₀.leader a₀.attestor a₀.witness ∧
    [a₀.leader, a₁.leader, a₂.leader].Perm s.masters

/-- A loaded schedule is usable exactly if its period is a positive number and its phase a number. -/
theorem usable_iff (py : Scalars) (doc : Data) (s : RotationSchedule)
    (h : loadSchedule py doc = .ok s) :
    s.Usable py ↔ (∃ p, s.periodS = .fin p ∧ 0 < p) ∧ ∃ q, s.phaseS = .fin q := by
  refine ⟨fun husable => ?_, fun hnumbers t => ?_⟩
  · obtain ⟨a₀, a₁, a₂, h₀, h₁, -⟩ := husable 0
    obtain ⟨e, he, -⟩ := bind_eq_ok.1 h₀
    obtain ⟨e', he', -⟩ := bind_eq_ok.1 h₁
    exact epochForTime_returns he he'
  · obtain ⟨⟨p, hperiod, hp⟩, q, hphase⟩ := hnumbers
    obtain ⟨a, b, c, hmasters, hhash, hdistinct, hstep⟩ := loadSchedule_checked h
    have hat (t : ℚ) : s.atTime py (.fin t) =
        .ok (turned a b c ⌊(t - q) / p⌋ ((⌊(t - q) / p⌋ * s.step) % 3)) := by
      refine bind_eq_ok.2 ⟨⌊(t - q) / p⌋, ?_, ?_⟩
      · rw [hperiod, hphase, epochForTime_fin hp]
      · rw [RotationSchedule.atEpoch, hmasters, rotate_list hhash hdistinct hstep]
    rw [hperiod]
    refine ⟨_, _, _, hat t, hat (t + p), hat (t + p + p), distinct_turned hdistinct _ _, ?_⟩
    rw [hmasters, floor_period (t := t + p) hp, floor_period (t := t) hp]
    exact leaders_perm hstep _

def plainScalars : Scalars where
  int d := orRaise .value d.asInt
  float
    | .int n => .ok (.fin n)
    | .other "0.0" _ => .ok (.fin 0)
    | _ => .error .type
  same
    | .str s, .str t => s = t
    | _, _ => false
  int_int _ := rfl
  float_int _ := rfl
  float_zero := rfl
  same_comm a b := by
    cases a with
    | str s =>
      cases b with
      | str t => exact decide_eq_decide.2 eq_comm
      | none | bool | int | other | list | dict => rfl
    | none | bool | int | other | list | dict => cases b <;> rfl
  same_str _ _ := rfl

def threeMasters : Data := .list [.str "did:web:a", .str "did:web:b", .str "did:web:c"]

def hourly : Data := .dict [(.str "masters", threeMasters), (.str "period_s", .int 3600)]

def hourlySchedule : RotationSchedule :=
  ⟨[.str "did:web:a", .str "did:web:b", .str "did:web:c"], .fin (3600 : ℤ), 1, .fin 0⟩

/-- A rotation every hour is usable. -/
theorem hourly_usable :
    loadSchedule plainScalars hourly = .ok hourlySchedule ∧ hourlySchedule.Usable plainScalars :=
  ⟨rfl, (usable_iff plainScalars hourly hourlySchedule rfl).2
    ⟨⟨3600, rfl, by norm_num⟩, 0, rfl⟩⟩

/-- A registry without a period is loaded, and at no time there is an assignment. -/
theorem noPeriod_not_usable :
    ∃ s, loadSchedule plainScalars (.dict [(.str "masters", threeMasters)]) = .ok s ∧
      s.atTime plainScalars (.fin 0) = .error .period :=
  ⟨_, rfl, rfl⟩

end SocioWorkspace.Triad
