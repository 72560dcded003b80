import BankedLinker.Section.Merged
import BankedLinker.Symbol.Table
import Std.Data.HashMap
import Std.Data.HashSet

/-!
# The registry of merged sections

Holds the merged sections in the order in which their names first occurred. `Registry.add` merges
a section of a file, `Registry.org` and its relatives tell where a section of a file is and which
bytes it holds by now.
-/

namespace BankedLinker

/-- The merged sections in the order of their first members. -/
structure Registry where
  sections : Array Merged := #[]
  /-- The position of the section of each name. -/
  positions : Std.HashMap Bytes Nat := ∅
  /-- The keys of the sections that were merged. They tell without a search through the members
  whether a section is merged for the first time. -/
  keys : Std.HashSet SectionKey := ∅
deriving Repr, Inhabited

namespace Registry

/-- The merged section of a name. -/
def find? (r : Registry) (name : Bytes) : Option Merged :=
  r.positions[name]?.bind (r.sections[·]?)

/-- The member that a section of a file became. -/
def member? (r : Registry) (f : ObjectFile) (s : Section) : Option Member :=
  (r.find? s.name).bind (·.member? ⟨f.index, s.id⟩)

/-- The start address of a section of a file as far as it is known. -/
def org (r : Registry) (f : ObjectFile) (s : Section) : UInt16 :=
  match r.member? f s with
  | some x => x.org
  | none => s.declaredOrg

/-- The bank of a section of a file as far as it is known. -/
def bank (r : Registry) (f : ObjectFile) (s : Section) : UInt32 :=
  match r.member? f s with
  | some x => x.bank
  | none => s.declaredBank

/-- The bytes of a section of a file. A member of a ROM section has a window of the merged bytes,
any other section has its own. -/
def bytes (r : Registry) (f : ObjectFile) (s : Section) : Bytes :=
  match r.find? s.name with
  | none => s.data
  | some m =>
    match m.member? ⟨f.index, s.id⟩ with
    | none => s.data
    | some x => if s.kind.hasData then m.window x else s.data

/-- The number of bytes of a section of a file. -/
def byteCount (r : Registry) (f : ObjectFile) (s : Section) : Nat :=
  match r.member? f s with
  | none => s.data.length
  | some x => if s.kind.hasData then x.content.size.toNat else s.data.length

@[simp] theorem length_bytes (r : Registry) (f : ObjectFile) (s : Section) :
    (r.bytes f s).length = r.byteCount f s := by
  unfold bytes byteCount member?
  cases r.find? s.name with
  | none => rfl
  | some m =>
    cases h : m.member? ⟨f.index, s.id⟩ with
    | none => simp [h]
    | some x => by_cases hd : s.kind.hasData = true <;> simp [h, hd]

/-! ## Merging -/

/-- Whether a section may join a merged section of its name. -/
def checkKinship (m : Merged) (s : Section) : Option Conflict :=
  match m.members[0]? with
  | none => none
  | some first =>
    if m.kind ≠ s.kind then some (.kindsDiffer first)
    else if m.modifier ≠ s.modifier then some (.modifiersDiffer first s.modifier m.modifier)
    else if s.modifier = .normal then some (.alreadyDefined first)
    else none

/-- A merged section without members for sections like `s`. -/
def emptyFor (r : Registry) (s : Section) : Merged :=
  { id := r.sections.size, name := s.name, kind := s.kind, modifier := s.modifier }

/-- The registry with an empty section of the name of `s`, and the position of the section of
that name. -/
def entry (r : Registry) (s : Section) : Registry × Nat :=
  match r.positions[s.name]? with
  | some i => (r, i)
  | none =>
    let i := r.sections.size
    ({ r with
        sections := r.sections.push (r.emptyFor s), positions := r.positions.insert s.name i }, i)

/-- Lets a section of a file join the merged section at a position, if its wishes can be met. -/
def join (r : Registry) (i : Nat) (f : ObjectFile) (s : Section) : Registry × Option Conflict :=
  match r.sections[i]? with
  | none => (r, none)
  | some m =>
    let key : SectionKey := ⟨f.index, s.id⟩
    let isFirst := !r.keys.contains key
    let x := if isFirst then m.firstMember f s else m.newMember f s
    match m.toConstraints.absorb x.content x.offset with
    | (c, some wish) =>
      ({ r with sections := r.sections.modify i fun m => { m with toConstraints := c } },
        some (.unmet wish))
    | (c, none) =>
      let grow (m : Merged) : Merged := if isFirst then m.appendFirst x else m.append x
      ({ r with
          sections := r.sections.modify i fun m => { grow m with toConstraints := c }
          keys := r.keys.insert key },
        none)

/-- Merges a section of a file. -/
def add (r : Registry) (f : ObjectFile) (s : Section) : Registry × Option Conflict :=
  if s.modifier = .union ∧ s.kind.hasData then (r, some .unionWithData)
  else
    match (r.find? s.name).bind (checkKinship · s) with
    | some conflict => (r, some conflict)
    | none =>
      let (r, i) := r.entry s
      r.join i f s

/-! ## Placing -/

/-- Makes address and bank of the merged section at a position final. -/
def place (r : Registry) (i : Nat) (org : UInt16) (bank : UInt32) : Registry :=
  { r with sections := r.sections.modify i (·.place org bank) }

/-! ## Values and banks -/

/-- The value of a symbol: a constant, or the address of a label. -/
def address (r : Registry) (d : Definition) : Int32 :=
  match d.ownerSection? with
  | none => d.symbol.value
  | some s => ((r.org d.file s).toUInt32 + d.symbol.value.toUInt32).toInt32

end Registry

end BankedLinker
