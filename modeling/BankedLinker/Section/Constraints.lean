import BankedLinker.Object.Basic

/-!
# Constraints on a place

A section may ask for a start address, for a bank and for an alignment: a start address that is
congruent to an offset modulo a power of two. When sections are joined, the wishes of a new member
are brought together with those that were accepted before. `Constraints.absorb` does that, seen
from the start of the joined section, or names the wish that cannot be met.
-/

namespace BankedLinker

/-! ## Alignment -/

namespace Alignment

/-- The low bits that an alignment fixes. From 32 on all bits of an address are fixed. -/
def mask (align : UInt8) : UInt32 :=
  if 32 ≤ align then 0xFFFFFFFF else (1 <<< align.toUInt32) - 1

/-- Whether an address is congruent to `offset` modulo two to the power of `align`. -/
def holds (address : UInt32) (align : UInt8) (offset : UInt16) : Bool :=
  (address - offset.toUInt32) &&& mask align = 0

/-- The lowest address from `address` on that is congruent to `offset`. -/
def roundUp (address : UInt32) (align : UInt8) (offset : UInt16) : UInt32 :=
  address + ((offset.toUInt32 - address) &&& mask align)

/-- The offset of an alignment as seen from `distance` bytes earlier. -/
def shiftBack (align : UInt8) (offset : UInt16) (distance : UInt32) : UInt16 :=
  ((offset.toUInt32 - distance) &&& mask align).toUInt16

/-- Whether two offsets agree in the bits that the weaker of two alignments fixes. -/
def agree (align₁ : UInt8) (offset₁ : UInt16) (align₂ : UInt8) (offset₂ : UInt16) : Bool :=
  let common := (mask (min align₁ align₂)).toUInt16
  offset₁ &&& common = offset₂ &&& common

end Alignment

/-! ## Constraints -/

/-- What is known of the place of a joined section. -/
structure Constraints where
  /-- Whether the start address is asked for. -/
  orgFixed : Bool := false
  org : UInt16 := 0
  /-- Whether the bank is asked for. -/
  bankFixed : Bool := false
  bank : UInt32 := 0
  align : UInt8 := 0
  alignOffset : UInt16 := 0
deriving DecidableEq, Repr, Inhabited

/-- The wish of a new member that cannot be met. -/
inductive UnmetWish where
  | bankDiffers (requested present : UInt32)
  | startsTooLow (org : UInt16) (offset : UInt32)
  | orgDiffers (requested present : UInt16)
  | orgNotAligned (requested : UInt16) (align : UInt8) (alignOffset : UInt16)
  | alignMissesOrg (align : UInt8) (org : UInt16)
  | alignDiffers (align : UInt8) (alignOffset : UInt16) (present : UInt8) (presentOffset : UInt16)
deriving DecidableEq, Repr

/-- The text of an unmet wish of the section with the given description. -/
def UnmetWish.message (subject : Bytes) : UnmetWish → Bytes
  | .bankDiffers requested present =>
    Bytes.concat [subject, " requests bank ", num requested.toNat,
      " but the section is already in bank ", num present.toNat]
  | .startsTooLow org offset =>
    Bytes.concat [subject, " at $", addr org, " can not be at offset $",
      Numeral.hexUpper 0 offset.toNat, " of its section"]
  | .orgDiffers requested present =>
    Bytes.concat [subject, " requests address $", addr requested,
      " but the section starts at $", addr present]
  | .orgNotAligned requested align alignOffset =>
    Bytes.concat [subject, " at $", addr requested, " does not match the section alignment ",
      num align.toNat, " (offset ", num alignOffset.toNat, ")"]
  | .alignMissesOrg align org =>
    Bytes.concat [subject, " alignment ", num align.toNat,
      " does not match the section address $", addr org]
  | .alignDiffers align alignOffset present presentOffset =>
    Bytes.concat [subject, " alignment ", num align.toNat, " (offset ", num alignOffset.toNat,
      ") does not match the section alignment ", num present.toNat, " (offset ",
      num presentOffset.toNat, ")"]
where
  num (n : Nat) : Bytes := Numeral.decimal n
  addr (a : UInt16) : Bytes := Numeral.hexUpper 4 a.toNat

namespace Constraints

/-- Takes over the bank that a member asks for. -/
def absorbBank (c : Constraints) (bank : Option UInt32) : Except UnmetWish Constraints :=
  match bank with
  | none => .ok c
  | some bank =>
    if c.bankFixed ∧ c.bank ≠ bank then .error (.bankDiffers bank c.bank)
    else .ok { c with bankFixed := true, bank }

/-- Takes over the start address of a member at `offset`. A stricter alignment of the member is
kept beside it, so that an address that breaks it is found when the section is placed. -/
def absorbOrg (c : Constraints) (s : Section) (org : UInt16) (offset : UInt32) :
    Except UnmetWish Constraints :=
  if org.toNat < offset.toNat then .error (.startsTooLow org offset)
  else
    let start := org - offset.toUInt16
    if c.orgFixed ∧ c.org ≠ start then .error (.orgDiffers start c.org)
    else if 0 < c.align ∧ !Alignment.holds start.toUInt32 c.align c.alignOffset then
      .error (.orgNotAligned start c.align c.alignOffset)
    else
      let fixed := { c with orgFixed := true, org := start }
      if c.align < s.align then
        .ok { fixed with
          align := s.align, alignOffset := Alignment.shiftBack s.align s.alignOffset offset }
      else .ok fixed

/-- Takes over the alignment of a member at `offset`. -/
def absorbAlign (c : Constraints) (s : Section) (offset : UInt32) :
    Except UnmetWish Constraints :=
  let alignOffset := Alignment.shiftBack s.align s.alignOffset offset
  if c.orgFixed then
    if Alignment.holds c.org.toUInt32 s.align alignOffset then .ok c
    else .error (.alignMissesOrg s.align c.org)
  else if 0 < c.align ∧ !Alignment.agree c.align c.alignOffset s.align alignOffset then
    .error (.alignDiffers s.align alignOffset c.align c.alignOffset)
  else if 0 < c.align ∧ s.align ≤ c.align then .ok c
  else .ok { c with align := s.align, alignOffset }

/-- Takes over address and alignment of a member at `offset`. -/
def absorbPlace (c : Constraints) (s : Section) (offset : UInt32) :
    Except UnmetWish Constraints :=
  match s.org with
  | some org => c.absorbOrg s org offset
  | none => if 0 < s.align then c.absorbAlign s offset else .ok c

/-- Takes over all wishes of a member at `offset`. The bank is settled first and stays settled
even if the address or the alignment cannot be met. -/
def absorb (c : Constraints) (s : Section) (offset : UInt32) : Constraints × Option UnmetWish :=
  match c.absorbBank s.bank with
  | .error wish => (c, some wish)
  | .ok banked =>
    match banked.absorbPlace s offset with
    | .error wish => (banked, some wish)
    | .ok placed => (placed, none)

end Constraints

end BankedLinker
