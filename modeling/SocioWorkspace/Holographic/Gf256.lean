import SocioWorkspace.Lib.CyclicField

/-!
# The field of the dispersal code

Model of the arithmetic of `automation/holographic_ida.py`: GF(2^8) with the AES modulus, through
tables of the powers and logarithms of the generator 3.
-/

namespace SocioWorkspace.Holographic
open List

/-- A byte as an element of GF(2^8); addition is xor. -/
structure Gf256 where
  bits : BitVec 8
deriving DecidableEq

namespace Gf256

instance : Zero Gf256 := ⟨⟨0⟩⟩

instance : Add Gf256 := ⟨fun a b => ⟨a.bits ^^^ b.bits⟩⟩

instance : Neg Gf256 := ⟨id⟩

lemma ext_bits {a b : Gf256} (h : a.bits = b.bits) : a = b := by
  cases a
  cases b
  exact congrArg mk h

@[simp] lemma bits_add (a b : Gf256) : (a + b).bits = a.bits ^^^ b.bits := rfl

instance : AddCommGroup Gf256 where
  add_assoc a b c := ext_bits (BitVec.xor_assoc _ _ _)
  zero_add a := ext_bits (BitVec.zero_xor)
  add_zero a := ext_bits (BitVec.xor_zero)
  add_comm a b := ext_bits (BitVec.xor_comm _ _)
  neg_add_cancel a := ext_bits (BitVec.xor_self)
  nsmul := nsmulRec
  zsmul := zsmulRec

instance : Fintype Gf256 := Fintype.ofEquiv (Fin 256) {
  toFun := fun i => ⟨BitVec.ofFin i⟩
  invFun := fun a => a.bits.toFin
  left_inv := fun _ => rfl
  right_inv := fun _ => rfl }

lemma card_eq : Fintype.card Gf256 = 256 := (Fintype.ofEquiv_card _).trans (Fintype.card_fin 256)

end Gf256

/-- Three times a byte: the byte and its double with the reduction of the field. -/
def triple (x : Gf256) : Gf256 :=
  let x2 := (x.bits <<< 1) ^^^ (if x.bits.getLsbD 7 then 0x11B#8 else 0)
  ⟨x.bits ^^^ x2⟩

structure Tables where
  x : Gf256
  exp : List Gf256
  log : List ℕ

def Tables.fill (t : Tables) (i : ℕ) : Tables where
  x := triple t.x
  exp := t.exp.set i t.x
  log := t.log.set t.x.bits.toNat i

def fillTables : Tables := (List.range 255).foldl .fill ⟨⟨1⟩, List.replicate 512 0, List.replicate 256 0⟩

/-- Python `_EXP`: the second loop of `_init_tables` writes the powers once more. -/
def EXP : List Gf256 := (List.range 257).foldl (fun exp j => exp.set (255 + j) (exp.getD j 0)) fillTables.exp

/-- Python `_LOG`. -/
def LOG : List ℕ := fillTables.log

def log (a : Gf256) : ℕ := LOG.getD a.bits.toNat 0

/-- Python `_mul`. -/
def mul (a b : Gf256) : Gf256 := if a = 0 ∨ b = 0 then 0 else EXP.getD (log a + log b) 0

inductive IdaError where
  | zeroDivision
  | value (text : String)
  | index
deriving DecidableEq

/-- Python `_inv`. -/
def inv (a : Gf256) : Except IdaError Gf256 :=
  if a = 0 then .error .zeroDivision else .ok (EXP.getD (255 - log a) 0)

lemma reduction_xor (p q : Bool) : (if (p ^^ q) then 0x11B#8 else 0) =
    (if p then 0x11B#8 else 0) ^^^ (if q then 0x11B#8 else 0) := by
  cases p <;> cases q <;> rfl

lemma triple_add (a b : Gf256) : triple (a + b) = triple a + triple b := by
  apply Gf256.ext_bits
  simp only [triple, Gf256.bits_add, BitVec.shiftLeft_xor_distrib, BitVec.getLsbD_xor, reduction_xor]
  ac_rfl

def tripleHom : Gf256 →+ Gf256 := AddMonoidHom.mk' triple triple_add

open Function

/-- 3 has order 255: its powers do not return to 1 after 85, 51 or 15 steps. -/
lemma minimalPeriod_triple : minimalPeriod triple ⟨1⟩ = 255 := by
  have hp : IsPeriodicPt triple 255 ⟨1⟩ := by
    show triple^[255] ⟨1⟩ = ⟨1⟩
    decide +kernel
  have h85 : ¬IsPeriodicPt triple 85 ⟨1⟩ := by
    show ¬triple^[85] ⟨1⟩ = ⟨1⟩
    decide +kernel
  have h51 : ¬IsPeriodicPt triple 51 ⟨1⟩ := by
    show ¬triple^[51] ⟨1⟩ = ⟨1⟩
    decide +kernel
  have h15 : ¬IsPeriodicPt triple 15 ⟨1⟩ := by
    show ¬triple^[15] ⟨1⟩ = ⟨1⟩
    decide +kernel
  rw [isPeriodicPt_iff_minimalPeriod_dvd] at hp h85 h51 h15
  have hdiv : ∀ d ∈ Nat.divisors 255, ¬d ∣ 85 → ¬d ∣ 51 → ¬d ∣ 15 → d = 255 := by
    decide
  exact hdiv _ (Nat.mem_divisors.2 ⟨hp, by decide⟩) h85 h51 h15

def generator : Generator Gf256 where
  step := tripleHom
  one := ⟨1⟩
  order := 255
  one_ne_zero := by decide
  period := minimalPeriod_triple
  card := Gf256.card_eq

section
variable {α : Type*}

lemma getD_set_self {l : List α} {i} (hi : i < l.length) (a d : α) : (l.set i a).getD i d = a := by
  simp [hi]

lemma getD_set_ne {l : List α} {i j} (h : i ≠ j) (a d : α) : (l.set i a).getD j d = l.getD j d := by
  simp [getElem?_set_ne h]

end

structure Filled (n : ℕ) (t : Tables) : Prop where
  power : t.x = generator.exp n
  expLength : t.exp.length = 512
  logLength : t.log.length = 256
  exp : ∀ i < n, t.exp.getD i 0 = generator.exp i
  log : ∀ i < n, t.log.getD (generator.exp i).bits.toNat 0 = i

lemma Filled.fill {n : ℕ} {t} (h : Filled n t) (hn : n < 255) : Filled (n + 1) (t.fill n) where
  power := by rw [generator.exp_succ, ← h.power]; rfl
  expLength := (length_set).trans h.expLength
  logLength := (length_set).trans h.logLength
  exp i hi := by
    by_cases hin : i = n
    · subst hin
      rw [← h.power]
      exact getD_set_self (by rw [h.expLength]; omega) _ _
    · exact (getD_set_ne (Ne.symm hin) _ _).trans (h.exp i (by omega))
  log i hi := by
    by_cases hin : i = n
    · subst hin
      rw [← h.power]
      exact getD_set_self (by rw [h.logLength]; exact t.x.bits.isLt) _ _
    · have hne : t.x.bits.toNat ≠ (generator.exp i).bits.toNat := by
        rw [h.power]
        intro he
        refine hin (generator.exp_inj (by exact Nat.lt_of_lt_of_le hi hn) hn ?_)
        exact (Gf256.ext_bits (BitVec.eq_of_toNat_eq he)).symm
      exact (getD_set_ne hne _ _).trans (h.log i (by omega))

lemma filled_foldl (n : ℕ) (hn : n ≤ 255) {t} (h : Filled 0 t) : Filled n ((List.range n).foldl .fill t) := by
  induction n with
  | zero => exact h
  | succ n ih =>
    rw [range_succ, foldl_append]
    exact (ih (by omega)).fill hn

lemma filled_fillTables : Filled 255 fillTables := by
  apply filled_foldl 255 le_rfl
  exact ⟨rfl, length_replicate, length_replicate, by omega, by omega⟩

lemma LOG_exp {i} (hi : i < 255) : log (generator.exp i) = i := filled_fillTables.log i hi

lemma getD_repeat (n : ℕ) (hn : n ≤ 257) {exp : List Gf256} (hlen : exp.length = 512)
    (h : ∀ i < 255, exp.getD i 0 = generator.exp i) :
    ((List.range n).foldl (fun exp j => exp.set (255 + j) (exp.getD j 0)) exp).length = 512 ∧
    ∀ i < 255 + n, ((List.range n).foldl
      (fun exp j => exp.set (255 + j) (exp.getD j 0)) exp).getD i 0 = generator.exp i := by
  induction n with
  | zero => exact ⟨hlen, h⟩
  | succ n ih =>
    obtain ⟨hl, hp⟩ := ih (by omega)
    rw [range_succ, foldl_append, foldl_cons, foldl_nil]
    refine ⟨(length_set).trans hl, ?_⟩
    intro i hi
    by_cases hin : i = 255 + n
    · subst hin
      rw [getD_set_self (by rw [hl]; omega), hp n (by omega), Nat.add_comm]
      exact (generator.exp_add_order n).symm
    · rw [getD_set_ne (Ne.symm hin)]
      exact hp i (by omega)

lemma EXP_eq {i : ℕ} (hi : i < 512) : EXP.getD i 0 = generator.exp i :=
  (getD_repeat 257 le_rfl filled_fillTables.expLength filled_fillTables.exp).2 i hi

/-- The table multiplication iterates the multiplication by 3. -/
lemma isMul_mul : generator.IsMul mul where
  zero_mul b := if_pos (.inl rfl)
  exp_mul i b := by
    by_cases hb : b = 0
    · rw [hb, generator.iterate_zero_eq]
      exact if_pos (.inr rfl)
    · obtain ⟨j, hj, rfl⟩ := generator.exists_exp hb
      obtain ⟨i', hi', he⟩ := generator.exists_exp (generator.exp_ne_zero i)
      rw [mul, if_neg (not_or.2 ⟨generator.exp_ne_zero i, hb⟩), LOG_exp hj, ← he, LOG_exp hi',
        EXP_eq (by have : generator.order = 255 := rfl; omega), generator.iterate_exp,
        Nat.add_comm i' j, Nat.add_comm i j, ← generator.iterate_exp, ← generator.iterate_exp, he]

namespace Gf256

instance : One Gf256 := ⟨⟨1⟩⟩

instance : Mul Gf256 := ⟨mul⟩

instance : Inv Gf256 := ⟨fun a => if a = 0 then 0 else EXP.getD (255 - log a) 0⟩

lemma mul_inv_cancel_of_ne {a : Gf256} (ha : a ≠ 0) : a * a⁻¹ = 1 := by
  show mul a (if a = 0 then 0 else EXP.getD (255 - log a) 0) = 1
  rw [if_neg ha]
  obtain ⟨i, hi, rfl⟩ := generator.exists_exp ha
  rw [LOG_exp hi, EXP_eq (by omega)]
  exact isMul_mul.exp_mul_exp_sub (Nat.le_of_lt hi)

/-- The bytes are a field with xor and the table multiplication. -/
instance : Field Gf256 :=
  Field.ofMinimalAxioms Gf256 add_assoc zero_add neg_add_cancel isMul_mul.assoc isMul_mul.comm
    isMul_mul.one_mul (fun _ => mul_inv_cancel_of_ne) (if_pos rfl) isMul_mul.mul_add
    ⟨0, 1, by decide⟩

lemma inv_eq {a} (ha : a ≠ 0) : inv a = .ok a⁻¹ := by
  show (if a = 0 then _ else _) = Except.ok (if a = 0 then _ else _)
  rw [if_neg ha, if_neg ha]

lemma sub_eq_add (a b : Gf256) : a - b = a + b := sub_eq_add_neg a b

end Gf256

end SocioWorkspace.Holographic
