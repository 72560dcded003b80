import BankedLinker.Text.Bytes

/-!
# Numerals

How numbers are written in messages, listings and log records: decimal with a minus sign for
negative numbers, and hexadecimal in either case, filled up with zeros on the left to a least
number of digits.
-/

namespace BankedLinker.Numeral

/-- The digits of `n` in base `base`, letters in lower case. -/
def digits (base n : Nat) : Bytes :=
  (Nat.toDigits base n).map fun c => c.toNat.toUInt8

/-- Fills up with zeros on the left to at least `width` digits. -/
def zeroFill (width : Nat) (ds : Bytes) : Bytes :=
  List.replicate (width - ds.length) 0x30 ++ ds

/-- A natural number in decimal. -/
def decimal (n : Nat) : Bytes :=
  digits 10 n

/-- An integer in decimal, with a minus sign if it is negative. -/
def signed (i : Int) : Bytes :=
  if i < 0 then 0x2D :: decimal i.natAbs else decimal i.natAbs

/-- A natural number in hexadecimal, lower case, of at least `width` digits. -/
def hexLower (width n : Nat) : Bytes :=
  zeroFill width (digits 16 n)

/-- The capital of a hexadecimal digit; any other byte is kept. -/
def capital (b : UInt8) : UInt8 :=
  if 0x61 ≤ b ∧ b ≤ 0x66 then b - 0x20 else b

/-- A natural number in hexadecimal, upper case, of at least `width` digits. -/
def hexUpper (width n : Nat) : Bytes :=
  zeroFill width ((digits 16 n).map capital)

theorem length_zeroFill (width : Nat) (ds : Bytes) :
    (zeroFill width ds).length = max width ds.length := by
  simp only [zeroFill, List.length_append, List.length_replicate]
  omega

end BankedLinker.Numeral
