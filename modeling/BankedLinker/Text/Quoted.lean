import BankedLinker.Text.Numeral
import BankedLinker.Text.Printable
import BankedLinker.Text.Utf8

/-!
# Quoted text

How a byte string is shown in a message when its extent matters: between double quotes, printable
characters as they are, everything else as an escape that names the byte or the code point.
-/

namespace BankedLinker.Quoted

/-- The one-letter escapes, as pairs of code point and letter. -/
def letters : List (Nat × UInt8) :=
  [(0x07, 0x61), (0x08, 0x62), (0x0C, 0x66), (0x0A, 0x6E), (0x0D, 0x72), (0x09, 0x74),
    (0x0B, 0x76), (0x5C, 0x5C), (0x22, 0x22)]

/-- The escape of a byte that is shown by its value. -/
def byteEscape (n : Nat) : Bytes :=
  Bytes.concat ["\\x", Numeral.hexLower 2 n]

/-- A character between the quotes. -/
def scalar (code : Nat) : Bytes :=
  match letters.lookup code with
  | some letter => [0x5C, letter]
  | none =>
    if Printable.isPrintable code then Utf8.encode code
    else if code < 0x20 ∨ code = 0x7F then byteEscape code
    else if code < 0x10000 then Bytes.concat ["\\u", Numeral.hexLower 4 code]
    else Bytes.concat ["\\U", Numeral.hexLower 8 code]

/-- A piece between the quotes. -/
def piece : Utf8.Piece → Bytes
  | .scalar code => scalar code
  | .stray byte => byteEscape byte.toNat

/-- The byte string between double quotes. -/
def quote (s : Bytes) : Bytes :=
  0x22 :: (Utf8.pieces s).flatMap piece ++ [0x22]

end BankedLinker.Quoted
