import BankedLinker.Fault
import BankedLinker.Section.Constraints

/-!
# Merged sections

Sections of one name from all files are merged into one section, which is then placed as a whole.
Members of a union start at the same address, fragments follow each other. In the ROM regions the
merged section holds the bytes of its members one after the other, and from then on the bytes of a
member are a window of these.
-/

namespace BankedLinker

/-- Identifies a section by the number of its file and its position in it. -/
structure SectionKey where
  file : Int
  id : UInt32
deriving DecidableEq, Hashable, Repr

/-- A section of a file that became part of a merged section. -/
structure Member where
  file : ObjectFile
  /-- The section as it was when it was merged. -/
  content : Section
  /-- The position of the member in the merged section. -/
  offset : UInt32
  org : UInt16
  bank : UInt32
  /-- Whether address and bank are final. -/
  placed : Bool
deriving Repr, Inhabited

namespace Member

def key (m : Member) : SectionKey :=
  ⟨m.file.index, m.content.id⟩

/-- A member as messages describe it. -/
def describe (m : Member) : Bytes :=
  m.file.describe m.content

/-- Moves a member to its place in a merged section that starts at `org`. -/
def place (m : Member) (org : UInt16) (bank : UInt32) : Member :=
  { m with org := org + m.offset.toUInt16, bank, placed := true }

end Member

/-- All sections of one name. -/
structure Merged extends Constraints where
  /-- The position in the registry. -/
  id : Nat
  name : Bytes
  kind : RegionKind
  modifier : Modifier
  size : UInt32 := 0
  /-- The bytes that the members of a ROM section supplied. -/
  data : Array UInt8 := #[]
  /-- What was written after these bytes, where members supplied fewer bytes than their size. -/
  tail : Array UInt8 := #[]
  members : Array Member := #[]
  /-- Whether address and bank are final. -/
  placed : Bool := false
deriving Repr, Inhabited

/-- Why a section cannot be merged. -/
inductive Conflict where
  /-- A union cannot be stored in the image. -/
  | unionWithData
  /-- The name is in use in another region. -/
  | kindsDiffer (first : Member)
  /-- The name is in use with another modifier. -/
  | modifiersDiffer (first : Member) (requested present : Modifier)
  /-- The name is in use and does not allow a second section. -/
  | alreadyDefined (first : Member)
  | unmet (wish : UnmetWish)
deriving Repr

namespace Conflict

/-- The text of a conflict of the section with the given description. -/
def message (subject : Bytes) (c : Conflict) : Bytes :=
  match c with
  | .unionWithData =>
    Fault.sectionConflict.says [subject, " can not be a union, its region stores data"]
  | .kindsDiffer first =>
    Fault.sectionConflict.says [subject, " conflicts with ", first.describe, ", types differ"]
  | .modifiersDiffer first requested present =>
    Fault.sectionConflict.says
      [subject, " conflicts with ", first.describe, ", modifiers ", requested.name, " and ",
        present.name, " differ"]
  | .alreadyDefined first =>
    Fault.sectionConflict.says
      [subject, " is already defined at ", first.file.trace first.content.source]
  | .unmet wish => Fault.sectionConflict.says [wish.message subject]

def faults (_ : Conflict) : List Fault :=
  [.sectionConflict]

end Conflict

namespace Merged

/-- Where the first member was defined. -/
def trace (m : Merged) : Bytes :=
  match m.members[0]? with
  | some first => first.file.trace first.content.source
  | none => []

/-- A merged section as messages describe it: region, name and trace. -/
def describe (m : Merged) : Bytes :=
  Bytes.concat [m.kind.name, " section '", m.name, "' (", m.trace, ")"]

/-- The first address after the section. -/
def stop (m : Merged) : UInt32 :=
  m.org.toUInt32 + m.size

/-- The member of a key. -/
def member? (m : Merged) (key : SectionKey) : Option Member :=
  m.members.find? (·.key = key)

/-- The bytes of a ROM section with those that were written after the supplied ones. -/
def buffer (m : Merged) : Array UInt8 :=
  m.data ++ m.tail

/-- The bytes of a member of a ROM section. Bytes that nobody supplied or wrote are zero. -/
def window (m : Merged) (x : Member) : Bytes :=
  let start := x.offset.toNat
  let stored := (m.buffer.extract start (start + x.content.size.toNat)).toList
  stored ++ List.replicate (x.content.size.toNat - stored.length) 0

/-- A window is as long as the member is large, whatever was supplied. -/
@[simp] theorem length_window (m : Merged) (x : Member) :
    (m.window x).length = x.content.size.toNat := by
  simp only [window, List.length_append, List.length_replicate, Array.length_toList,
    Array.size_extract]
  omega

/-- The position at which the next member starts. -/
def nextOffset (m : Merged) : UInt32 :=
  if m.modifier = .fragment then m.size else 0

/-- The member that a section of a file becomes when it is appended for the first time. -/
def firstMember (m : Merged) (f : ObjectFile) (s : Section) : Member :=
  { file := f, content := s, offset := m.nextOffset, org := s.declaredOrg,
    bank := s.declaredBank, placed := false }

/-- The member that a section of a file becomes when it is appended. A section that is a member
already comes with its present place and bytes. -/
def newMember (m : Merged) (f : ObjectFile) (s : Section) : Member :=
  match m.member? ⟨f.index, s.id⟩ with
  | none => m.firstMember f s
  | some x =>
    let content : Section :=
      { s with
        org := s.org.map fun _ => x.org
        bank := s.bank.map fun _ => x.bank
        data := if s.kind.hasData then m.window x else s.data }
    { file := f, content, offset := m.nextOffset, org := x.org, bank := x.bank,
      placed := x.placed }

/-- The size after a member of size `added` was appended. -/
def grownSize (m : Merged) (added : UInt32) : UInt32 :=
  if m.modifier = .union then max m.size added else m.nextOffset + added

/-- Puts bytes after the supplied ones, over what was written there. -/
def supply (m : Merged) (new : Bytes) : Merged :=
  { m with data := m.data ++ new, tail := m.tail.drop new.length }

/-- Appends a member whose wishes were accepted. A section that is already a member moves to its
new position. -/
def append (m : Merged) (x : Member) : Merged :=
  let moved := m.members.map fun y => if y.key = x.key then { y with offset := x.offset } else y
  let grown := { m with size := m.grownSize x.content.size, members := moved.push x }
  if x.content.kind.hasData then grown.supply x.content.data else grown

/-- Appends a member that was not there before: nothing moves. -/
def appendFirst (m : Merged) (x : Member) : Merged :=
  let grown := { m with size := m.grownSize x.content.size, members := m.members.push x }
  if x.content.kind.hasData then grown.supply x.content.data else grown

/-- Makes address and bank final for the section and all its members. -/
def place (m : Merged) (org : UInt16) (bank : UInt32) : Merged :=
  { m with org, bank, placed := true, members := m.members.map (·.place org bank) }

end Merged

end BankedLinker
