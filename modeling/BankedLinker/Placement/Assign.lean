import BankedLinker.Placement.Ledger

/-!
# Assigning addresses and banks

Every merged section gets an address and a bank of its region. Sections with a fixed address and
a known bank come first, in ascending order. The others follow: those with a fixed address, those
with a fixed bank, and the rest; within each class the larger before the smaller. Each of them
goes to the lowest bank and the lowest address that is free and suits it.

`Placement.assign` returns one outcome for each section, in the order in which they were settled.
-/

namespace BankedLinker

/-- A final address and bank. -/
structure Location where
  org : UInt16
  bank : UInt32
deriving DecidableEq, Repr

/-- Why a section cannot be placed. -/
inductive PlacementError where
  /-- The region has no banks in this memory map. -/
  | unavailable
  | noSuchBank (bank first last : UInt32)
  | tooLarge (size regionSize : UInt32)
  | outsideRegion (first : UInt16) (last : UInt32) (regionFirst : UInt16) (regionLast : UInt32)
  | misaligned (org : UInt16) (align : UInt8) (alignOffset : UInt16)
  /-- The addresses are used by another section. -/
  | overlap (target : Span) (other : Occupant) (bank : UInt32)
  /-- The addresses are not free. -/
  | notFree (target : Span) (bank : UInt32)
  /-- No free span is large enough; the largest that suits otherwise has `largest` addresses. -/
  | noSpace (size : UInt32) (largest : Nat)
deriving Repr

namespace PlacementError

/-- The text of the error for a section. -/
def message (subject : Merged) (e : PlacementError) : Bytes :=
  match e with
  | .unavailable =>
    Fault.outOfRegion.says [subject.describe, ", region ", subject.kind.name,
      " is not available with the current options"]
  | .noSuchBank bank first last =>
    Fault.outOfRegion.says [subject.describe, ", bank ", num bank.toNat,
      " is not in range ", num first.toNat, "-", num last.toNat]
  | .tooLarge size regionSize =>
    Fault.outOfRegion.says [subject.describe, ", size $", Numeral.hexUpper 0 size.toNat,
      " is bigger than the region size $", Numeral.hexUpper 0 regionSize.toNat]
  | .outsideRegion first last regionFirst regionLast =>
    Fault.outOfRegion.says [subject.describe, ", range $", addr first.toNat, "-$",
      addr last.toNat, " is not in region range $", addr regionFirst.toNat, "-$",
      addr regionLast.toNat]
  | .misaligned org align alignOffset =>
    Fault.misaligned.says [subject.describe, ", address $", addr org.toNat,
      " does not satisfy alignment ", num align.toNat, " (offset ", num alignOffset.toNat, ")"]
  | .overlap target other bank =>
    Fault.fixedOverlap.says [subject.describe, " at ", range target, " overlaps ",
      other.user.describe, " at ", range other.span, " in bank ", num bank.toNat]
  | .notFree target bank =>
    Fault.fixedOverlap.says [subject.describe, " at ", range target,
      " is not inside a free range of bank ", num bank.toNat]
  | .noSpace size largest =>
    Fault.outOfSpace.says [subject.describe, " needs $", Numeral.hexUpper 0 size.toNat,
      " bytes, the largest suitable free range has $", Numeral.hexUpper 0 largest, " bytes"]
where
  num (n : Nat) : Bytes := Numeral.decimal n
  addr (n : Nat) : Bytes := Numeral.hexUpper 4 n
  range (s : Span) : Bytes := Bytes.concat ["$", addr s.start, "-$", addr (s.stop - 1)]

def faults : PlacementError → List Fault
  | .unavailable => [.outOfRegion]
  | .noSuchBank _ _ _ => [.outOfRegion]
  | .tooLarge _ _ => [.outOfRegion]
  | .outsideRegion _ _ _ _ => [.outOfRegion]
  | .misaligned _ _ _ => [.misaligned]
  | .overlap _ _ _ => [.fixedOverlap]
  | .notFree _ _ => [.fixedOverlap]
  | .noSpace _ _ => [.outOfSpace]

end PlacementError

namespace Placement

/-- What became of a section. -/
structure Outcome where
  subject : Merged
  result : Except PlacementError Location

/-! ## Checks and classes -/

/-- Checks what a section asks for against its region. -/
def validate (map : MemoryMap) (m : Merged) : Except PlacementError Unit :=
  let r := map.region m.kind
  if r.bankCount = 0 then .error .unavailable
  else if m.bankFixed ∧ !r.containsBank m.bank then
    .error (.noSuchBank m.bank r.firstBank r.lastBank)
  else if r.size < m.size then .error (.tooLarge m.size r.size)
  else if m.orgFixed ∧ !r.containsRange m.org m.size then
    .error (.outsideRegion m.org (m.stop - 1) r.start (r.stop - 1))
  else if m.orgFixed ∧ !Alignment.holds m.org.toUInt32 m.align m.alignOffset then
    .error (.misaligned m.org m.align m.alignOffset)
  else .ok ()

/-- Whether address and bank are both known from the start. A region with a single bank leaves no
choice of bank. -/
def isFixed (map : MemoryMap) (m : Merged) : Bool :=
  m.orgFixed && (m.bankFixed || (map.region m.kind).bankCount = 1)

/-- The class of a section that is not fixed; lower classes are placed first. -/
def constraintClass (m : Merged) : Nat :=
  if m.orgFixed then 0 else if m.bankFixed then 1 else 2

/-- The order of the fixed sections: by address, then as they were found. -/
def compareFixed (a b : Merged) : Ordering :=
  (compare a.org b.org).then (compare a.id b.id)

/-- The order of the other sections: by class, then by descending size, then by name, then as
they were found. -/
def compareFloating (a b : Merged) : Ordering :=
  (compare (constraintClass a) (constraintClass b)).then <|
    (compare b.size a.size).then <| (compare a.name b.name).then (compare a.id b.id)

/-! ## Fixed sections -/

/-- The addresses of a section at `start`. -/
def extent (m : Merged) (start : Nat) : Span :=
  ⟨start, start + m.size.toNat⟩

/-- Places a section whose address and bank are known. -/
def placeFixed (l : Ledger) (m : Merged) : Except PlacementError (Location × Ledger) :=
  let bank := if m.bankFixed then m.bank else (l.map.region m.kind).firstBank
  let key : BankKey := ⟨m.kind, bank⟩
  let target := extent m m.org.toNat
  match (l.space key).overlapping? target with
  | some other => .error (.overlap target other bank)
  | none =>
    match (l.space key).reserve target m with
    | none => .error (.notFree target bank)
    | some space => .ok (⟨m.org, bank⟩, l.update key space)

/-! ## Floating sections -/

/-- The lowest address in a free span that suits the section, whether or not it fits there. -/
def candidate? (m : Merged) (free : Span) : Option Nat :=
  let start :=
    if m.orgFixed then m.org.toNat
    else (Alignment.roundUp free.start.toUInt32 m.align m.alignOffset).toNat
  if (m.orgFixed ∧ start < free.start) ∨ free.stop ≤ start then none else some start

/-- Tries the free spans of a bank in order. If the section fits in none of them, the result is
the size of the largest one that suits it otherwise, or `largest` if that is more. -/
def fitIn (space : BankSpace) (m : Merged) (largest : Nat) :
    List Span → Except Nat (Nat × BankSpace)
  | [] => .error largest
  | free :: rest =>
    match candidate? m free with
    | none => fitIn space m largest rest
    | some start =>
      let fitted :=
        if start + m.size.toNat ≤ free.stop then space.reserve (extent m start) m else none
      match fitted with
      | some space' => .ok (start, space')
      | none => fitIn space m (max largest (free.stop - start)) rest

/-- Tries `count` banks from `bank` on, in ascending order. -/
def searchBanks (l : Ledger) (m : Merged) :
    (count : Nat) → (bank : UInt32) → (largest : Nat) → Except Nat (Location × Ledger)
  | 0, _, largest => .error largest
  | count + 1, bank, largest =>
    let key : BankKey := ⟨m.kind, bank⟩
    let space := l.space key
    match fitIn space m largest space.free with
    | .ok (start, space') => .ok (⟨start.toUInt16, bank⟩, l.update key space')
    | .error largest => searchBanks l m count (bank + 1) largest

/-- Places a section at the first place that suits it. A section without addresses finds a place
even where nothing is free. -/
def placeFloating (l : Ledger) (m : Merged) : Except PlacementError (Location × Ledger) :=
  let r := l.map.region m.kind
  let first := if m.bankFixed then m.bank else r.firstBank
  let count := if m.bankFixed then 1 else r.bankCount.toNat
  match searchBanks l m count first 0 with
  | .ok placed => .ok placed
  | .error largest =>
    if m.size = 0 ∧ !m.orgFixed then .ok (⟨r.start, first⟩, l)
    else .error (.noSpace m.size largest)

/-! ## All sections -/

/-- Places sections one after the other; one that cannot be placed leaves the ledger as it is. -/
def placeAll (placeOne : Ledger → Merged → Except PlacementError (Location × Ledger)) :
    Ledger → List Merged → List Outcome × Ledger
  | l, [] => ([], l)
  | l, m :: rest =>
    match placeOne l m with
    | .error e =>
      let (outcomes, l') := placeAll placeOne l rest
      (⟨m, .error e⟩ :: outcomes, l')
    | .ok (location, placed) =>
      let (outcomes, l') := placeAll placeOne placed rest
      (⟨m, .ok location⟩ :: outcomes, l')

/-- The outcome of a section that asks for something impossible. -/
def rejection? (map : MemoryMap) (m : Merged) : Option Outcome :=
  match validate map m with
  | .error e => some ⟨m, .error e⟩
  | .ok () => none

/-- Places all sections: the impossible ones are rejected first, then the fixed ones are placed,
then the others. -/
def assign (map : MemoryMap) (sections : List Merged) : List Outcome :=
  let rejected := sections.filterMap (rejection? map)
  let valid := sections.filter fun m => (rejection? map m).isNone
  let (fixed, floating) := valid.partition (isFixed map)
  let (fixedOutcomes, l) :=
    placeAll placeFixed { map } (fixed.mergeSort fun a b => (compareFixed a b).isLE)
  let (floatingOutcomes, _) :=
    placeAll placeFloating l (floating.mergeSort fun a b => (compareFloating a b).isLE)
  rejected ++ fixedOutcomes ++ floatingOutcomes

end Placement

end BankedLinker
