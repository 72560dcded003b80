import BankedLinker.Expr.Machine
import Mathlib.Algebra.Order.Floor.Ring
import Mathlib.Data.Rat.Floor

/-!
# Exact arithmetic

The operators compute with 32 bits all the way. Their results are nevertheless those of exact
arithmetic on integers, wrapped around once at the end.

* `toInt_eq_bmod` and `toInt_emod`: words as signed and as unsigned numbers;
* `Expr.power_ofInt`: repeated squaring gives the exact power;
* `Expr.shiftLeft_eq` and its relatives: shifts multiply by a power of two, with a positive or
  negative exponent, and round down;
* `Expr.exact_arithmetic` collects the results of all operators and the warnings that they raise.
-/

namespace BankedLinker

/-! ## Words as numbers -/

/-- A signed word is its unsigned number, moved into the signed range. -/
theorem toInt_eq_bmod (number : Int32) :
    number.toInt = (number.toUInt32.toNat : ℤ).bmod (2 ^ 32) :=
  BitVec.toInt_eq_toNat_bmod number.toBitVec

theorem toInt_emod (number : Int32) : number.toInt % 2 ^ 32 = number.toUInt32.toNat := by
  have hlt : (number.toUInt32.toNat : ℤ) < 2 ^ 32 := mod_cast number.toUInt32.toNat_lt
  rw [toInt_eq_bmod]
  exact Int.bmod_emod.trans (Int.emod_eq_of_lt (Int.natCast_nonneg _) hlt)

namespace Expr

/-! ## Powers -/

/-- Repeated squaring, which wraps around at every step, gives the exact power wrapped around. -/
theorem power_ofInt (x : ℤ) (n : ℕ) : power (.ofInt x) n = .ofInt (x ^ n) := by
  induction n using Nat.strongRecOn generalizing x with
  | ind n ih =>
    rw [power]
    split
    · next hzero =>
      rw [hzero, pow_zero]
      rfl
    · next hzero =>
      rw [← Int32.ofInt_mul, ih (n / 2) (by omega)]
      dsimp only
      split
      · next hodd =>
        rw [← Int32.ofInt_mul, ← pow_two, ← pow_mul, ← pow_succ']
        congr 2
        omega
      · next heven =>
        rw [← pow_two, ← pow_mul]
        congr 2
        omega

/-! ## Shifts by a number of bits -/

variable (v : Int32)

theorem toBitVec_smod {n : ℕ} (hn : n < 32) :
    (Int32.ofNat n).toBitVec.smod 32 = BitVec.ofNat 32 n := by
  revert n
  decide

theorem shiftUp_eq (n : ℕ) : shiftUp v n = .ofInt (v.toInt * 2 ^ n) := by
  unfold shiftUp
  split
  · next hn =>
    have hdvd : (2 ^ 32 : ℤ) ∣ v.toInt * 2 ^ n := Dvd.dvd.mul_left (pow_dvd_pow 2 hn) _
    symm
    rw [Int32.ofInt_eq_iff_bmod_eq_toInt]
    exact Int.bmod_eq_zero_of_dvd hdvd
  · next hn =>
    have hbits : (v <<< Int32.ofNat n).toBitVec = v.toBitVec <<< n := by
      rw [Int32.toBitVec_shiftLeft, toBitVec_smod (by omega), BitVec.shiftLeft_eq',
        BitVec.toNat_ofNat, Nat.mod_eq_of_lt (by omega)]
    apply Int32.toInt_inj.mp
    rw [Int32.toInt_ofInt, ← Int32.toInt_toBitVec, hbits, BitVec.toInt_shiftLeft,
      Nat.shiftLeft_eq, ← Int32.toInt_toBitVec, BitVec.toInt_eq_toNat_bmod]
    push_cast
    exact (Int.bmod_mul_bmod).symm

theorem toInt_shiftRight {n : ℕ} (hn : n < 32) :
    (v >>> Int32.ofNat n).toInt = v.toInt / 2 ^ n := by
  rw [← Int32.toInt_toBitVec, Int32.toBitVec_shiftRight, toBitVec_smod hn, BitVec.sshiftRight_eq',
    BitVec.toNat_ofNat, Nat.mod_eq_of_lt (by omega), BitVec.toInt_sshiftRight,
    Int.shiftRight_eq_div_pow, Int32.toInt_toBitVec]
  push_cast
  rfl

/-- From 31 bits on nothing but the sign is left. -/
theorem toInt_div_two_pow {n : ℕ} (hn : 31 ≤ n) :
    v.toInt / 2 ^ n = if v.toInt < 0 then -1 else 0 := by
  have hpow : (2 ^ 31 : ℤ) ≤ 2 ^ n := pow_le_pow_right₀ (by decide) hn
  have hlower : -2 ^ 31 ≤ v.toInt := v.le_toInt
  have hupper : v.toInt < 2 ^ 31 := v.toInt_lt
  split
  · next hneg => exact Int.ediv_eq_neg_one_of_neg_of_le hneg (by omega)
  · next hneg => exact Int.ediv_eq_zero_of_lt (by omega) (by omega)

theorem shiftDown_eq (n : ℕ) : shiftDown v n = .ofInt (v.toInt / 2 ^ n) := by
  have hdown : (shiftDown v n).toInt = v.toInt / 2 ^ n := by
    unfold shiftDown
    split
    · next hn =>
      have hsign := toInt_shiftRight v (show 31 < 32 by decide)
      rw [toInt_div_two_pow v (Nat.le_refl 31)] at hsign
      rw [toInt_div_two_pow v (by omega), ← hsign]
      rfl
    · next hn => exact toInt_shiftRight v (by omega)
  rw [← hdown, Int32.ofInt_toInt]

theorem shiftDownUnsigned_eq (n : ℕ) :
    shiftDownUnsigned v n = .ofInt (v.toUInt32.toNat / 2 ^ n : ℕ) := by
  unfold shiftDownUnsigned
  split
  · next hn =>
    have hpow : 2 ^ 32 ≤ 2 ^ n := Nat.pow_le_pow_right (by decide) hn
    have hlt : v.toUInt32.toNat < 2 ^ 32 := v.toUInt32.toNat_lt
    rw [Nat.div_eq_of_lt (by omega)]
    rfl
  · next hn =>
    have hshift : (v.toUInt32 >>> n.toUInt32).toNat = v.toUInt32.toNat / 2 ^ n := by
      have hamount : n.toUInt32.toNat % 32 = n := by
        rw [UInt32.toNat_ofNat']
        omega
      rw [UInt32.toNat_shiftRight, hamount, Nat.shiftRight_eq_div_pow]
    rw [← hshift, Int32.ofInt_eq_ofNat, ← UInt32.toInt32_ofNat', UInt32.ofNat_toNat]

/-! ## Shifts by signed amounts -/

variable {amount : ℤ}

theorem floor_mul_two_zpow_of_nonneg (x : ℤ) (h : 0 ≤ amount) :
    ⌊(x : ℚ) * 2 ^ amount⌋ = x * 2 ^ amount.natAbs := by
  obtain ⟨n, rfl⟩ := Int.eq_ofNat_of_zero_le h
  rw [zpow_natCast, Int.natAbs_natCast]
  exact_mod_cast Int.floor_intCast (x * 2 ^ n)

theorem floor_mul_two_zpow_of_nonpos (x : ℤ) (h : amount ≤ 0) :
    ⌊(x : ℚ) * 2 ^ amount⌋ = x / 2 ^ amount.natAbs := by
  obtain ⟨n, rfl⟩ := Int.exists_eq_neg_ofNat h
  rw [zpow_neg, zpow_natCast, ← div_eq_mul_inv, Int.natAbs_neg, Int.natAbs_natCast]
  exact_mod_cast Rat.floor_intCast_div_natCast x (2 ^ n)

/-- A shift to the left multiplies by a power of two and rounds down. -/
theorem shiftLeft_eq (amount : Int32) :
    shiftLeft v amount = .ofInt ⌊(v.toInt : ℚ) * 2 ^ amount.toInt⌋ := by
  unfold shiftLeft
  split
  · next hneg =>
    have hnonpos : amount.toInt ≤ 0 := (Int32.lt_iff_toInt_lt.mp hneg).le
    rw [shiftDown_eq, floor_mul_two_zpow_of_nonpos v.toInt hnonpos]
  · next hneg =>
    have hnonneg : 0 ≤ amount.toInt := Int32.le_iff_toInt_le.mp (Int32.not_lt.mp hneg)
    rw [shiftUp_eq, floor_mul_two_zpow_of_nonneg v.toInt hnonneg]

/-- A shift to the right divides by a power of two and rounds down. -/
theorem shiftRight_eq (amount : Int32) :
    shiftRight v amount = .ofInt ⌊(v.toInt : ℚ) * 2 ^ (-amount.toInt)⌋ := by
  unfold shiftRight
  split
  · next hneg =>
    have hnonneg : 0 ≤ -amount.toInt := by
      have hlt : amount.toInt < 0 := Int32.lt_iff_toInt_lt.mp hneg
      omega
    rw [shiftUp_eq, floor_mul_two_zpow_of_nonneg v.toInt hnonneg, Int.natAbs_neg]
  · next hneg =>
    have hnonpos : -amount.toInt ≤ 0 := by
      have hle : 0 ≤ amount.toInt := Int32.le_iff_toInt_le.mp (Int32.not_lt.mp hneg)
      omega
    rw [shiftDown_eq, floor_mul_two_zpow_of_nonpos v.toInt hnonpos, Int.natAbs_neg]

/-- A shift to the right with zeros divides the value without its sign. -/
theorem shiftRightUnsigned_eq (amount : Int32) :
    shiftRightUnsigned v amount = if 0 ≤ amount
      then .ofInt ⌊(v.toUInt32.toNat : ℚ) / 2 ^ amount.toInt⌋
      else .ofInt (v.toInt * 2 ^ (-amount.toInt).toNat) := by
  unfold shiftRightUnsigned
  split
  · next hneg =>
    have hlt : amount.toInt < 0 := Int32.lt_iff_toInt_lt.mp hneg
    have hbits : (-amount.toInt).toNat = amount.toInt.natAbs := by omega
    rw [if_neg (Int32.not_le.mpr hneg), hbits, shiftUp_eq]
  · next hneg =>
    have hle : 0 ≤ amount.toInt := Int32.le_iff_toInt_le.mp (Int32.not_lt.mp hneg)
    have hfloor : ⌊(v.toUInt32.toNat : ℚ) / 2 ^ amount.toInt⌋
        = (v.toUInt32.toNat : ℤ) / 2 ^ amount.toInt.natAbs := by
      have hnonpos : -amount.toInt ≤ 0 := by omega
      have h := floor_mul_two_zpow_of_nonpos v.toUInt32.toNat hnonpos
      rwa [zpow_neg, ← div_eq_mul_inv, Int.natAbs_neg, Int.cast_natCast] at h
    rw [if_pos (Int32.not_lt.mp hneg), hfloor, shiftDownUnsigned_eq]
    push_cast
    rfl

/-! ## Operators -/

/-- The names of the warnings that an operation raises. -/
def raised (outcome : Except EvalError (Int32 × List Caution)) : List Bytes :=
  match outcome with
  | .ok (_, cautions) => cautions.map Caution.switchName
  | .error _ => []

namespace BinaryOp

/-- The result of an operator without the warnings. -/
def value (op : BinaryOp) (a b : Int32) : Except EvalError Int32 :=
  (op.apply a b).map Prod.fst

variable (a b : Int32)

/-! ### Sums and products -/

theorem value_add : add.value a b = .ok (.ofInt (a.toInt + b.toInt)) := by
  rw [Int32.ofInt_add, Int32.ofInt_toInt, Int32.ofInt_toInt]
  rfl

theorem value_sub : sub.value a b = .ok (.ofInt (a.toInt - b.toInt)) := by
  rw [Int32.ofInt_sub, Int32.ofInt_toInt, Int32.ofInt_toInt]
  rfl

theorem value_mul : mul.value a b = .ok (.ofInt (a.toInt * b.toInt)) := by
  rw [Int32.ofInt_mul, Int32.ofInt_toInt, Int32.ofInt_toInt]
  rfl

/-! ### Divisions -/

/-- The quotient is rounded toward zero. -/
theorem value_div : div.value a b = if b = 0 then .error (.divisionByZero a .quotient)
    else .ok (.ofInt (a.toInt.tdiv b.toInt)) := by
  have hquotient : Int32.ofInt (a.toInt.tdiv b.toInt) = a / b := by
    rw [Int32.ofInt_tdiv a.minValue_le_toInt a.toInt_le b.minValue_le_toInt b.toInt_le,
      Int32.ofInt_toInt, Int32.ofInt_toInt]
  have hvalue : div.value a b = (divide .quotient a b).map Prod.fst := rfl
  rw [hvalue, hquotient, divide]
  split <;> rfl

/-- The remainder is that of the quotient rounded toward zero. -/
theorem value_mod : mod.value a b = if b = 0 then .error (.divisionByZero a .remainder)
    else .ok (.ofInt (a.toInt.tmod b.toInt)) := by
  have hremainder : Int32.ofInt (a.toInt.tmod b.toInt) = a % b := by
    rw [Int32.ofInt_tmod a.minValue_le_toInt a.toInt_le b.minValue_le_toInt b.toInt_le,
      Int32.ofInt_toInt, Int32.ofInt_toInt]
  have hvalue : mod.value a b = (divide .remainder a b).map Prod.fst := rfl
  rw [hvalue, hremainder, divide]
  split <;> rfl

/-! ### Powers -/

theorem value_exp : exp.value a b = if b < 0 then .error (.negativeExponent a b)
    else .ok (.ofInt (a.toInt ^ b.toInt.toNat)) := by
  have hvalue : exp.value a b = Except.map Prod.fst (if b < 0 then .error (.negativeExponent a b)
    else .ok (power a b.toInt.natAbs, [])) := rfl
  rw [hvalue]
  split
  · rfl
  · next hneg =>
    have hle : 0 ≤ b.toInt := Int32.le_iff_toInt_le.mp (Int32.not_lt.mp hneg)
    have hexponent : b.toInt.natAbs = b.toInt.toNat := by omega
    rw [hexponent, ← power_ofInt, Int32.ofInt_toInt]
    rfl

/-! ### Warnings -/

theorem raised_divide (op : Division) :
    raised (divide op a b) = if a = Int32.minValue ∧ b = -1 then [("div" : Bytes)] else [] := by
  unfold divide
  split
  · next hzero =>
    have hdivisor : b ≠ -1 := by
      rw [hzero]
      decide
    rw [if_neg fun h => hdivisor h.2]
    rfl
  · dsimp only [raised]
    split <;> rfl

/-- Amounts of 0 to 31 raise no warning. -/
theorem switchName_shiftCautions (direction : Direction) :
    (shiftCautions direction b).map Caution.switchName
      = if 0 ≤ b ∧ b ≤ 31 then [] else [("shift-amount" : Bytes)] := by
  have hlong : 32 ≤ b ↔ ¬b ≤ 31 := by
    have h31 : (31 : Int32).toInt = 31 := rfl
    have h32 : (32 : Int32).toInt = 32 := rfl
    rw [Int32.le_iff_toInt_le, Int32.le_iff_toInt_le, h31, h32]
    omega
  unfold shiftCautions
  by_cases hneg : b < 0
  · rw [if_pos hneg, if_neg fun h => Int32.not_le.mpr hneg h.1]
    rfl
  · rw [if_neg hneg]
    by_cases h : b ≤ 31
    · rw [if_neg fun hlt => hlong.mp hlt h, if_pos ⟨Int32.not_lt.mp hneg, h⟩]
      rfl
    · rw [if_pos (hlong.mpr h), if_neg fun hle => h hle.2]
      rfl

/-- Warnings are about the quotient that is out of range and about amounts of shifts that are. -/
theorem raised_apply (op : BinaryOp) : raised (op.apply a b) =
    if op ∈ [div, mod] ∧ a = Int32.minValue ∧ b = -1 then [("div" : Bytes)]
    else if op ∈ [shiftLeft, shiftRight, shiftRightUnsigned] ∧ ¬(0 ≤ b ∧ b ≤ 31)
      then [("shift-amount" : Bytes)]
    else [] := by
  have hshift : ∀ direction, (shiftCautions direction b).map Caution.switchName
      = if ¬(0 ≤ b ∧ b ≤ 31) then [("shift-amount" : Bytes)] else [] := by
    intro direction
    rw [switchName_shiftCautions, ite_not]
  cases op with
  | div => exact (raised_divide a b .quotient).trans (by simp)
  | mod => exact (raised_divide a b .remainder).trans (by simp)
  | exp =>
    have hpower : raised (exp.apply a b) = [] := by
      dsimp only [apply]
      split <;> rfl
    exact hpower.trans (by simp)
  | shiftLeft => exact (hshift .left).trans (by simp)
  | shiftRight => exact (hshift .right).trans (by simp)
  | shiftRightUnsigned => exact (hshift .right).trans (by simp)
  | _ => rfl

end BinaryOp

theorem UnaryOp.apply_negate (map : MemoryMap) (a : Int32) :
    negate.apply map a = .ofInt (-a.toInt) := by
  rw [Int32.ofInt_neg, Int32.ofInt_toInt]
  rfl

/-- **The operators compute exactly, up to one wrap-around.** On any two numbers, sum, difference,
product, negation, quotient, remainder and power are those of the integers wrapped around; a
division fails exactly for the divisor zero and a power exactly for negative exponents. Shifts by
any signed amount multiply by a power of two, and round down. The only warnings are those about
the quotient that is out of range and about amounts of shifts other than 0 to 31. -/
theorem exact_arithmetic (map : MemoryMap) (a b : Int32) :
    BinaryOp.add.value a b = .ok (.ofInt (a.toInt + b.toInt))
    ∧ BinaryOp.sub.value a b = .ok (.ofInt (a.toInt - b.toInt))
    ∧ BinaryOp.mul.value a b = .ok (.ofInt (a.toInt * b.toInt))
    ∧ UnaryOp.negate.apply map a = .ofInt (-a.toInt)
    ∧ BinaryOp.div.value a b = (if b = 0 then .error (.divisionByZero a .quotient)
      else .ok (.ofInt (a.toInt.tdiv b.toInt)))
    ∧ BinaryOp.mod.value a b = (if b = 0 then .error (.divisionByZero a .remainder)
      else .ok (.ofInt (a.toInt.tmod b.toInt)))
    ∧ BinaryOp.exp.value a b = (if b < 0 then .error (.negativeExponent a b)
      else .ok (.ofInt (a.toInt ^ b.toInt.toNat)))
    ∧ BinaryOp.shiftLeft.value a b = .ok (.ofInt ⌊(a.toInt : ℚ) * 2 ^ b.toInt⌋)
    ∧ BinaryOp.shiftRight.value a b = .ok (.ofInt ⌊(a.toInt : ℚ) * 2 ^ (-b.toInt)⌋)
    ∧ BinaryOp.shiftRightUnsigned.value a b = .ok (if 0 ≤ b
      then .ofInt ⌊(a.toUInt32.toNat : ℚ) / 2 ^ b.toInt⌋
      else .ofInt (a.toInt * 2 ^ (-b.toInt).toNat))
    ∧ ∀ op : BinaryOp, raised (op.apply a b) =
      if op ∈ [.div, .mod] ∧ a = Int32.minValue ∧ b = -1 then [("div" : Bytes)]
      else if op ∈ [.shiftLeft, .shiftRight, .shiftRightUnsigned] ∧ ¬(0 ≤ b ∧ b ≤ 31)
        then [("shift-amount" : Bytes)]
      else [] := by
  refine ⟨BinaryOp.value_add a b, BinaryOp.value_sub a b, BinaryOp.value_mul a b,
    UnaryOp.apply_negate map a, BinaryOp.value_div a b, BinaryOp.value_mod a b,
    BinaryOp.value_exp a b, ?_, ?_, ?_, BinaryOp.raised_apply a b⟩
  · rw [← shiftLeft_eq]
    rfl
  · rw [← shiftRight_eq]
    rfl
  · rw [← shiftRightUnsigned_eq]
    rfl

end Expr

end BankedLinker
