/-!
# Byte strings

Names, messages, expressions and section contents are byte strings: nothing in an object file
promises that a name is well-formed text. This file fixes their type, lets literals stand for
their UTF-8 bytes, and gives the little-endian words that the file format is made of.

* `Bytes`, with `Bytes.concat` and `Bytes.joinWith` to put messages together;
* `overwrite`, which stores a byte string in a buffer;
* `Word.toBytes` and `Word.ofBytes`, four-byte words, least significant byte first, inverse to
  each other (`Word.ofBytes_toBytes`).
-/

namespace BankedLinker

/-- A string of bytes. -/
abbrev Bytes := List UInt8

namespace Bytes

/-- The UTF-8 bytes of a text. -/
def ofString (s : String) : Bytes :=
  s.toUTF8.data.toList

instance : Coe String Bytes := ⟨ofString⟩

/-- Puts pieces of a message together. -/
def concat (pieces : List Bytes) : Bytes :=
  pieces.flatten

/-- Puts pieces together with `separator` between two neighbours. -/
def joinWith (separator : Bytes) : List Bytes → Bytes
  | [] => []
  | [last] => last
  | piece :: next :: rest => piece ++ separator ++ joinWith separator (next :: rest)

/-- Whether `start` stands at the beginning of `s`, and what follows it if so. -/
def dropStart? : (start s : Bytes) → Option Bytes
  | [], s => some s
  | _ :: _, [] => none
  | a :: start, b :: s => if a = b then dropStart? start s else none

/-- Whether `part` occurs somewhere in `s`. -/
def occursIn (part : Bytes) : (s : Bytes) → Bool
  | [] => part.isEmpty
  | b :: s => part.isPrefixOf (b :: s) || occursIn part s

end Bytes

/-! ## Buffers -/

/-- Stores bytes in a buffer from a position on; what would stand after its end is dropped. -/
def overwrite (buffer : Array UInt8) (position : Nat) : (new : Bytes) → Array UInt8
  | [] => buffer
  | b :: new => overwrite (buffer.setIfInBounds position b) (position + 1) new

@[simp] theorem size_overwrite (buffer : Array UInt8) (position : Nat) (new : Bytes) :
    (overwrite buffer position new).size = buffer.size := by
  induction new generalizing buffer position with
  | nil => rfl
  | cons b new ih => simp [overwrite, ih]

/-! ## Words of the file format -/

namespace Word

/-- The four bytes of a word, least significant first. -/
def toBytes (w : UInt32) : Bytes :=
  [w.toUInt8, (w >>> 8).toUInt8, (w >>> 16).toUInt8, (w >>> 24).toUInt8]

/-- The word of four bytes, least significant first. -/
def ofBytes (b₀ b₁ b₂ b₃ : UInt8) : UInt32 :=
  b₀.toUInt32 ||| (b₁.toUInt32 <<< 8) ||| (b₂.toUInt32 <<< 16) ||| (b₃.toUInt32 <<< 24)

@[simp] theorem length_toBytes (w : UInt32) : (toBytes w).length = 4 := rfl

end Word

/-- The word that stands for "no index" in the file format: no parent node, no section, no fixed
address and no fixed bank. -/
def noIndex : UInt32 := 0xFFFFFFFF

end BankedLinker
