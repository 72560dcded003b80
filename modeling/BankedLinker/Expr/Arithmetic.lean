import BankedLinker.Expr.Opcode

/-!
# Arithmetic of expressions

Values are signed 32-bit numbers and every operation wraps around. Division goes toward zero.
Shifts take any amount: from 32 on nothing of the value is left but its sign, and a negative
amount shifts the other way.
-/

namespace BankedLinker.Expr

/-- A truth value as a number. -/
def ofBool (b : Bool) : Int32 :=
  if b then 1 else 0

/-- `base` to the power of `n`, by repeated squaring. -/
def power (base : Int32) (n : Nat) : Int32 :=
  if n = 0 then 1
  else
    let rest := power (base * base) (n / 2)
    if n % 2 = 1 then base * rest else rest
termination_by n
decreasing_by omega

/-- Shifts up by `n` bits. -/
def shiftUp (v : Int32) (n : Nat) : Int32 :=
  if 32 ≤ n then 0 else v <<< Int32.ofNat n

/-- Shifts down by `n` bits and keeps the sign. -/
def shiftDown (v : Int32) (n : Nat) : Int32 :=
  if 32 ≤ n then v >>> 31 else v >>> Int32.ofNat n

/-- Shifts down by `n` bits and fills up with zeros. -/
def shiftDownUnsigned (v : Int32) (n : Nat) : Int32 :=
  if 32 ≤ n then 0 else (v.toUInt32 >>> n.toUInt32).toInt32

/-- Shifts left, or right for a negative amount. -/
def shiftLeft (v amount : Int32) : Int32 :=
  if amount < 0 then shiftDown v amount.toInt.natAbs else shiftUp v amount.toInt.natAbs

/-- Shifts right with the sign, or left for a negative amount. -/
def shiftRight (v amount : Int32) : Int32 :=
  if amount < 0 then shiftUp v amount.toInt.natAbs else shiftDown v amount.toInt.natAbs

/-- Shifts right with zeros, or left for a negative amount. -/
def shiftRightUnsigned (v amount : Int32) : Int32 :=
  if amount < 0 then shiftUp v amount.toInt.natAbs else shiftDownUnsigned v amount.toInt.natAbs

end BankedLinker.Expr
