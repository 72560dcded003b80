import BankedLinker.Text.Bytes

/-!
# Reading a byte value

A byte value is written in decimal, or with a base in front of it: `0x` for hexadecimal, `0o` or
`0` for octal, `0b` for binary, in either case of letters. Digits may be grouped by single
underscores, also right behind the base.
-/

namespace BankedLinker.PadByte

/-- The value of a digit or letter, letters of either case counting from ten on. -/
def digit? (b : UInt8) : Option Nat :=
  if 0x30 ≤ b ∧ b ≤ 0x39 then some (b.toNat - 0x30)
  else if 0x61 ≤ b ∧ b ≤ 0x7A then some (b.toNat - 0x61 + 10)
  else if 0x41 ≤ b ∧ b ≤ 0x5A then some (b.toNat - 0x41 + 10)
  else none

/-- Reads digits of a base. `value` is what was read so far, `grouped` tells whether an
underscore may follow. -/
def digits (base : Nat) (value : Nat) (grouped : Bool) : Bytes → Option Nat
  | [] => some value
  | b :: rest =>
    if b = 0x5F then
      if grouped && !rest.isEmpty then digits base value false rest else none
    else
      match digit? b with
      | some d => if d < base then digits base (value * base + d) true rest else none
      | none => none

/-- The base that a letter behind a zero stands for. -/
def baseOf? (letter : UInt8) : Option Nat :=
  if letter = 0x62 ∨ letter = 0x42 then some 2
  else if letter = 0x6F ∨ letter = 0x4F then some 8
  else if letter = 0x78 ∨ letter = 0x58 then some 16
  else none

/-- Reads a number in any of the notations. -/
def number? (s : Bytes) : Option Nat :=
  match s with
  | [] => none
  | 0x30 :: letter :: first :: rest =>
    match baseOf? letter with
    | some base => digits base 0 true (first :: rest)
    | none => digits 8 0 true (letter :: first :: rest)
  | 0x30 :: rest => digits 8 0 true rest
  | _ => digits 10 0 false s

/-- A hexadecimal number may also be marked by a dollar sign. -/
def spelledOut (s : Bytes) : Bytes :=
  match s with
  | 0x24 :: rest => Bytes.concat ["0x", rest]
  | _ => s

/-- Reads a byte value. -/
def read? (s : Bytes) : Option UInt8 :=
  match number? (spelledOut s) with
  | some n => if n < 256 then some n.toUInt8 else none
  | none => none

end BankedLinker.PadByte
