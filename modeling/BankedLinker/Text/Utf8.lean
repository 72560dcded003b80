import BankedLinker.Text.Bytes

/-!
# UTF-8

Splits a byte string into the characters it encodes. A byte that starts no well-formed sequence
stands for itself and is kept apart as a stray byte, so that every byte string can be shown.

* `scalar?` reads the character at the front together with the number of bytes it takes;
* `pieces` reads a whole byte string.
-/

namespace BankedLinker.Utf8

/-- A character, or a byte that belongs to none. -/
inductive Piece where
  /-- A well-formed sequence for the given code point. -/
  | scalar (code : Nat)
  /-- A byte outside of every well-formed sequence. -/
  | stray (byte : UInt8)
deriving DecidableEq, Repr

/-- Whether the byte continues a sequence. -/
def isTail (b : UInt8) : Bool :=
  0x80 ≤ b && b ≤ 0xBF

/-- The six payload bits of a continuation byte. -/
def tailBits (b : UInt8) : Nat :=
  b.toNat % 0x40

/-- The least and greatest second byte of a three-byte sequence: no overlong forms and no
surrogates. -/
def secondOfThree (lead : UInt8) : UInt8 × UInt8 :=
  if lead = 0xE0 then (0xA0, 0xBF) else if lead = 0xED then (0x80, 0x9F) else (0x80, 0xBF)

/-- The least and greatest second byte of a four-byte sequence: no overlong forms and nothing
beyond U+10FFFF. -/
def secondOfFour (lead : UInt8) : UInt8 × UInt8 :=
  if lead = 0xF0 then (0x90, 0xBF) else if lead = 0xF4 then (0x80, 0x8F) else (0x80, 0xBF)

/-- Whether the byte lies in the range. -/
def within (range : UInt8 × UInt8) (b : UInt8) : Bool :=
  range.1 ≤ b && b ≤ range.2

/-- The character at the front and the number of its bytes after the first, if a well-formed
sequence stands there. -/
def scalar? (lead : UInt8) (rest : Bytes) : Option (Nat × Nat) :=
  if lead < 0x80 then some (lead.toNat, 0)
  else if within (0xC2, 0xDF) lead then
    match rest with
    | b :: _ =>
      if isTail b then some (lead.toNat % 0x20 * 0x40 + tailBits b, 1) else none
    | _ => none
  else if within (0xE0, 0xEF) lead then
    match rest with
    | b :: c :: _ =>
      if within (secondOfThree lead) b && isTail c then
        some ((lead.toNat % 0x10 * 0x40 + tailBits b) * 0x40 + tailBits c, 2)
      else none
    | _ => none
  else if within (0xF0, 0xF4) lead then
    match rest with
    | b :: c :: d :: _ =>
      if within (secondOfFour lead) b && isTail c && isTail d then
        some (((lead.toNat % 0x08 * 0x40 + tailBits b) * 0x40 + tailBits c) * 0x40 + tailBits d, 3)
      else none
    | _ => none
  else none

/-- The characters and stray bytes of a byte string, in order. -/
def pieces : Bytes → List Piece
  | [] => []
  | lead :: rest =>
    match scalar? lead rest with
    | some (code, tails) => .scalar code :: pieces (rest.drop tails)
    | none => .stray lead :: pieces rest
termination_by s => s.length
decreasing_by all_goals simp only [List.length_drop, List.length_cons]; omega

/-- The bytes of a code point below U+110000. -/
def encode (code : Nat) : Bytes :=
  if code < 0x80 then [code.toUInt8]
  else if code < 0x800 then [(0xC0 + code / 0x40).toUInt8, (0x80 + code % 0x40).toUInt8]
  else if code < 0x10000 then
    [(0xE0 + code / 0x1000).toUInt8, (0x80 + code / 0x40 % 0x40).toUInt8,
      (0x80 + code % 0x40).toUInt8]
  else
    [(0xF0 + code / 0x40000).toUInt8, (0x80 + code / 0x1000 % 0x40).toUInt8,
      (0x80 + code / 0x40 % 0x40).toUInt8, (0x80 + code % 0x40).toUInt8]

end BankedLinker.Utf8
