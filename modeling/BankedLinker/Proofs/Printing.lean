import BankedLinker.Output.Listing
import BankedLinker.Text.Numeral
import Mathlib.Data.List.Forall2
import Mathlib.Data.Nat.Digits.Defs

/-!
# What printed lines show

Says what a line of a text file shows without saying how it is printed: a numeral shows the number
that it is read back as, and a line shows texts and numbers one after the other.

* `Numeral.Shows`: a text is the numeral of a number in the digits of an alphabet;
* `Numeral.shows_decimal`, `Numeral.shows_hexLower` and `Numeral.shows_hexUpper`: printed numbers
  are such numerals;
* `Prints`: a text shows some pieces in a row, and `Line.Prints`: a part of a text file shows a line.
-/

namespace BankedLinker

namespace Numeral

/-! ## Numerals -/

/-- The digits of decimal numbers. -/
def decimalDigits : Bytes := "0123456789"

/-- The digits of hexadecimal numbers in lower case. -/
def lowerDigits : Bytes := "0123456789abcdef"

/-- The digits of hexadecimal numbers in upper case. -/
def upperDigits : Bytes := "0123456789ABCDEF"

/-- The number that a text stands for in the digits of an alphabet, the most significant one
first. -/
def read (alphabet text : Bytes) : ℕ :=
  Nat.ofDigits alphabet.length (text.reverse.map alphabet.idxOf)

/-- A text is the numeral of a number in the digits of an alphabet, with at least `width` of them.
Only to have as many it may begin with zeros. -/
structure Shows (alphabet : Bytes) (width n : ℕ) (text : Bytes) : Prop where
  mem_alphabet : ∀ c ∈ text, c ∈ alphabet
  read_eq : read alphabet text = n
  width_le : width ≤ text.length
  head_ne : width < text.length → text.head? ≠ alphabet.head?

theorem read_concat (alphabet text : Bytes) (c : UInt8) :
    read alphabet (text ++ [c]) = alphabet.idxOf c + alphabet.length * read alphabet text := by
  unfold read
  rw [List.reverse_append, List.reverse_singleton, List.singleton_append, List.map_cons,
    Nat.ofDigits_cons]

/-! ### Digits one by one -/

/-- The characters of printed numbers are made into the digits of the alphabet. -/
structure Spelling (alphabet : Bytes) (digit : Char → UInt8) : Prop where
  one_lt : 1 < alphabet.length
  getElem?_eq : ∀ d < alphabet.length, alphabet[d]? = some (digit (Nat.digitChar d))
  nodup : alphabet.Nodup

namespace Spelling

variable {alphabet : Bytes} {digit : Char → UInt8} (h : Spelling alphabet digit) {n d : ℕ}

include h

theorem mem_alphabet (hd : d < alphabet.length) : digit (Nat.digitChar d) ∈ alphabet :=
  List.mem_of_getElem? (h.getElem?_eq d hd)

theorem idxOf_eq (hd : d < alphabet.length) : alphabet.idxOf (digit (Nat.digitChar d)) = d := by
  have hget := h.getElem?_eq d hd
  rw [List.getElem?_eq_getElem hd] at hget
  rw [← Option.some.inj hget]
  exact h.nodup.idxOf_getElem d hd

/-- The digits of a number belong to the alphabet. -/
theorem forall_mem_alphabet (n : ℕ) :
    ∀ c ∈ (Nat.toDigits alphabet.length n).map digit, c ∈ alphabet := by
  have hlength := h.one_lt
  induction n using Nat.strong_induction_on with
  | _ n ih =>
    rw [Nat.toDigits_eq_if hlength]
    split
    · next hlt =>
      intro c hc
      rw [List.map_singleton, List.mem_singleton] at hc
      rw [hc]
      exact h.mem_alphabet hlt
    · next hle =>
      intro c hc
      rw [List.map_append, List.map_singleton, List.mem_append, List.mem_singleton] at hc
      rcases hc with hc | rfl
      · exact ih _ (Nat.div_lt_self (by omega) hlength) c hc
      · exact h.mem_alphabet (Nat.mod_lt _ (by omega))

/-- The digits of a number are read back as the number. -/
theorem read_map_toDigits (n : ℕ) :
    read alphabet ((Nat.toDigits alphabet.length n).map digit) = n := by
  have hlength := h.one_lt
  induction n using Nat.strong_induction_on with
  | _ n ih =>
    rw [Nat.toDigits_eq_if hlength]
    split
    · next hlt =>
      have hread := read_concat alphabet [] (digit (Nat.digitChar n))
      rw [h.idxOf_eq hlt] at hread
      exact hread
    · next hle =>
      rw [List.map_append, List.map_singleton, read_concat,
        ih _ (Nat.div_lt_self (by omega) hlength), h.idxOf_eq (Nat.mod_lt _ (by omega))]
      exact Nat.mod_add_div n alphabet.length

/-- The digits of a number that is not zero do not begin with zero. -/
theorem head?_map_toDigits (hn : 0 < n) :
    ((Nat.toDigits alphabet.length n).map digit).head? ≠ alphabet.head? := by
  have hlength := h.one_lt
  induction n using Nat.strong_induction_on with
  | _ n ih =>
    rw [Nat.toDigits_eq_if hlength]
    split
    · next hlt =>
      intro heq
      rw [List.map_singleton, List.head?_cons, ← h.getElem?_eq n hlt, List.head?_eq_getElem?,
        List.getElem?_inj hlt h.nodup] at heq
      omega
    · next hle =>
      have hquotient : 0 < n / alphabet.length := Nat.div_pos (by omega) (by omega)
      have hne : (Nat.toDigits alphabet.length (n / alphabet.length)).map digit ≠ [] := by
        intro hnil
        exact Nat.toDigits_ne_nil (List.map_eq_nil_iff.mp hnil)
      rw [List.map_append, List.head?_append_of_ne_nil _ hne]
      exact ih _ (Nat.div_lt_self (by omega) hlength) hquotient

/-- The digits of a number are its shortest numeral. -/
theorem shows (n : ℕ) : Shows alphabet 1 n ((Nat.toDigits alphabet.length n).map digit) where
  mem_alphabet := h.forall_mem_alphabet n
  read_eq := h.read_map_toDigits n
  width_le := by
    rw [List.length_map]
    exact Nat.length_toDigits_pos
  head_ne hlong := by
    apply h.head?_map_toDigits
    by_contra hzero
    have hlength := h.one_lt
    rw [Nat.toDigits_of_lt_base (by omega)] at hlong
    exact absurd hlong (Nat.lt_irrefl 1)

end Spelling

/-! ### Leading zeros -/

theorem read_replicate_append {alphabet : Bytes} {zero : UInt8} (hzero : alphabet.idxOf zero = 0)
    (count : ℕ) (text : Bytes) : read alphabet (List.replicate count zero ++ text)
      = read alphabet text := by
  unfold read
  rw [List.reverse_append, List.reverse_replicate, List.map_append, List.map_replicate, hzero,
    Nat.ofDigits_append, Nat.ofDigits_replicate_zero, Nat.mul_zero, Nat.add_zero]

/-- Filling up with zeros makes a numeral as wide as it has to be. -/
theorem Shows.zeroFill {alphabet text : Bytes} {width n : ℕ} (h : Shows alphabet 1 n text)
    (hzero : alphabet.head? = some 0x30) (hwidth : 1 ≤ width) :
    Shows alphabet width n (zeroFill width text) where
  mem_alphabet c hc := by
    rcases List.mem_append.mp hc with hc | hc
    · rw [List.eq_of_mem_replicate hc]
      exact List.mem_of_mem_head? hzero
    · exact h.mem_alphabet c hc
  read_eq := by
    have hindex : alphabet.idxOf 0x30 = 0 := by
      cases alphabet with
      | nil => cases hzero
      | cons first rest =>
        rw [← Option.some.inj hzero]
        exact List.idxOf_cons_self
    exact (read_replicate_append hindex _ text).trans h.read_eq
  width_le := by
    rw [length_zeroFill]
    exact Nat.le_max_left _ _
  head_ne hlong := by
    rw [length_zeroFill] at hlong
    have hlt : width < text.length := by omega
    have hfill : Numeral.zeroFill width text = text := by
      unfold Numeral.zeroFill
      rw [Nat.sub_eq_zero_of_le hlt.le]
      rfl
    rw [hfill]
    exact h.head_ne (by omega)

/-! ### Printed numbers -/

theorem spelling_decimal : Spelling decimalDigits fun c => c.toNat.toUInt8 where
  one_lt := by decide
  getElem?_eq := by decide
  nodup := by decide

theorem spelling_lower : Spelling lowerDigits fun c => c.toNat.toUInt8 where
  one_lt := by decide
  getElem?_eq := by decide
  nodup := by decide

theorem spelling_upper : Spelling upperDigits fun c => capital c.toNat.toUInt8 where
  one_lt := by decide
  getElem?_eq := by decide
  nodup := by decide

theorem shows_decimal (n : ℕ) : Shows decimalDigits 1 n (decimal n) :=
  spelling_decimal.shows n

theorem shows_hexLower {width : ℕ} (hwidth : 1 ≤ width) (n : ℕ) :
    Shows lowerDigits width n (hexLower width n) :=
  (spelling_lower.shows n).zeroFill rfl hwidth

theorem shows_hexUpper {width : ℕ} (hwidth : 1 ≤ width) (n : ℕ) :
    Shows upperDigits width n (hexUpper width n) := by
  have hdigits : (digits 16 n).map capital
      = (Nat.toDigits 16 n).map fun c => capital c.toNat.toUInt8 := List.map_map ..
  unfold hexUpper
  rw [hdigits]
  exact (spelling_upper.shows n).zeroFill rfl hwidth

end Numeral

/-! ## Lines -/

/-- A piece of a line: a text, or a number in the digits of an alphabet. -/
inductive Piece where
  | text (t : Bytes)
  | number (alphabet : Bytes) (width n : ℕ)

/-- A text shows the piece. -/
def Piece.Prints : Piece → Bytes → Prop
  | text t, printed => printed = t
  | number alphabet width n, printed => Numeral.Shows alphabet width n printed

@[simp] theorem Piece.prints_text_iff {t printed : Bytes} :
    (Piece.text t).Prints printed ↔ printed = t := Iff.rfl

@[simp] theorem Piece.prints_number_iff {alphabet printed : Bytes} {width n : ℕ} :
    (Piece.number alphabet width n).Prints printed ↔ Numeral.Shows alphabet width n printed :=
  Iff.rfl

/-- A text shows the pieces one after the other. -/
def Prints (pieces : List Piece) (printed : Bytes) : Prop :=
  ∃ parts, List.Forall₂ Piece.Prints pieces parts ∧ printed = parts.flatten

/-- Pieces that are printed one by one are printed in a row. -/
theorem prints_concat {pieces : List Piece} {parts : List Bytes}
    (h : List.Forall₂ Piece.Prints pieces parts) : Prints pieces (Bytes.concat parts) :=
  ⟨parts, h, rfl⟩

theorem prints_text (t : Bytes) : Prints [.text t] t :=
  ⟨[t], List.Forall₂.cons rfl List.Forall₂.nil, List.flatten_singleton.symm⟩

/-- A line of a text file, with what it belongs to. -/
structure Line where
  purpose : Bytes
  pieces : List Piece

/-- A piece of a text file shows the line. -/
def Line.Prints (l : Line) (p : Print) : Prop :=
  p.purpose = l.purpose ∧ BankedLinker.Prints l.pieces p.text

end BankedLinker
