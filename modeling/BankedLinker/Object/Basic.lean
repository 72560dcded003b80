import BankedLinker.Object.Source
import BankedLinker.Region
import BankedLinker.Text.Quoted

/-!
# Object files

An object file holds sections, symbols and link-time assertions. Sections carry the wishes of
their author (a fixed address, a fixed bank, an alignment), the bytes to store if their region
has any, and the patches that fill in those bytes once all addresses are known. An object file is
a value that linking never changes; where its sections end up is recorded elsewhere.

Indices of sections are positions in the section list of the same file.
-/

namespace BankedLinker

/-! ## Sections -/

/-- How sections of one name combine, as a tag. -/
structure Modifier where
  tag : UInt8
deriving DecidableEq, Repr, Inhabited

namespace Modifier

/-- The name may be used once. -/
def normal : Modifier := ⟨0⟩
/-- All members start at the same address. -/
def union : Modifier := ⟨1⟩
/-- The members follow each other. -/
def fragment : Modifier := ⟨2⟩

/-- The keyword of a modifier. -/
def name (m : Modifier) : Bytes :=
  if m = union then "UNION" else if m = fragment then "FRAGMENT" else "normal"

end Modifier

/-- Width and byte order of a patched value, as a tag. -/
structure PatchKind where
  tag : UInt8
deriving DecidableEq, Repr, Inhabited

namespace PatchKind

/-- One byte. -/
def byte : PatchKind := ⟨0⟩
/-- Two bytes, least significant first. -/
def word : PatchKind := ⟨1⟩
/-- Four bytes, least significant first. -/
def long : PatchKind := ⟨2⟩
/-- One byte that holds the distance of a relative jump. -/
def jump : PatchKind := ⟨3⟩
/-- Two bytes, most significant first. -/
def wordBig : PatchKind := ⟨4⟩
/-- Four bytes, most significant first. -/
def longBig : PatchKind := ⟨5⟩

/-- Whether the tag names a patch kind. -/
def isKnown (k : PatchKind) : Bool :=
  k.tag < 6

/-- The number of bytes that a patch writes. -/
def width (k : PatchKind) : Nat :=
  if k = word ∨ k = wordBig then 2 else if k = long ∨ k = longBig then 4 else 1

/-- Whether the most significant byte comes first. -/
def isBigEndian (k : PatchKind) : Bool :=
  k = wordBig || k = longBig

theorem width_pos (k : PatchKind) : 0 < k.width := by
  unfold width
  split
  · decide
  · split <;> decide

end PatchKind

/-- A place in a section whose bytes an expression determines. -/
structure Patch where
  source : Option SourceRef
  /-- The position of the first byte in the section. -/
  offset : UInt32
  /-- The section of the instruction that the patch belongs to. -/
  pcSection : Option UInt32
  /-- The position of that instruction in its section. -/
  pcOffset : UInt32
  kind : PatchKind
  /-- The bytecode of the expression. -/
  expr : Bytes
deriving DecidableEq, Repr, Inhabited

/-- A section of an object file. -/
structure Section where
  /-- The position in the section list of its file. -/
  id : UInt32
  name : Bytes
  source : Option SourceRef
  kind : RegionKind
  modifier : Modifier
  size : UInt32
  /-- The address that the section must start at. -/
  org : Option UInt16
  /-- The bank that the section must be in. -/
  bank : Option UInt32
  /-- The start address is `alignOffset` modulo two to the power of `align`. -/
  align : UInt8
  alignOffset : UInt16
  data : Bytes
  patches : List Patch
deriving DecidableEq, Repr, Inhabited

namespace Section

/-- The address that the section starts at as far as its file knows. -/
def declaredOrg (s : Section) : UInt16 :=
  s.org.getD 0

/-- The bank that the section is in as far as its file knows. -/
def declaredBank (s : Section) : UInt32 :=
  s.bank.getD 0

/-- The first address after the section as far as its file knows. -/
def declaredStop (s : Section) : UInt32 :=
  s.declaredOrg.toUInt32 + s.size

end Section

/-! ## Symbols -/

/-- Who can see a symbol, as a tag. -/
structure SymbolKind where
  tag : UInt8
deriving DecidableEq, Repr, Inhabited

namespace SymbolKind

/-- Visible inside its file. -/
def fileLocal : SymbolKind := ⟨0⟩
/-- Defined in another file. -/
def imported : SymbolKind := ⟨1⟩
/-- Visible everywhere. -/
def exported : SymbolKind := ⟨2⟩

/-- Whether the tag names a symbol kind. -/
def isKnown (k : SymbolKind) : Bool :=
  k.tag ≤ 2

end SymbolKind

/-- A named number, or a named place in a section. -/
structure Symbol where
  name : Bytes
  kind : SymbolKind
  source : Option SourceRef
  /-- The section that a label belongs to; a constant has none. -/
  owner : Option UInt32
  /-- The value of a constant, or the position of a label in its section. -/
  value : Int32
deriving DecidableEq, Repr, Inhabited

/-- Whether the symbol is a place in a section. -/
def Symbol.isLabel (s : Symbol) : Bool :=
  s.owner.isSome

/-! ## Assertions -/

/-- How a failed assertion is reported, as a tag. -/
structure AssertionLevel where
  tag : UInt8
deriving DecidableEq, Repr, Inhabited

namespace AssertionLevel

/-- A warning is raised. -/
def warning : AssertionLevel := ⟨0⟩
/-- An error is recorded. -/
def error : AssertionLevel := ⟨1⟩
/-- Linking stops. -/
def fatal : AssertionLevel := ⟨2⟩

/-- Whether the tag names a level. -/
def isKnown (l : AssertionLevel) : Bool :=
  l.tag ≤ 2

/-- The name of a level. -/
def name (l : AssertionLevel) : Bytes :=
  if l = warning then "warning" else if l = error then "error" else "fatal"

end AssertionLevel

/-- An expression that must not be zero once everything is placed. The patch gives the
expression and its place; its offset and kind have no meaning here. -/
structure Assertion where
  patch : Patch
  level : AssertionLevel
  message : Bytes
deriving DecidableEq, Repr, Inhabited

/-! ## Files -/

/-- An object file. -/
structure ObjectFile where
  name : Bytes
  /-- The number of the file. In a link run it is the position in the list of files. -/
  index : Int
  nodes : Array SourceNode := #[]
  symbols : List Symbol := []
  sections : List Section := []
  assertions : List Assertion := []
deriving DecidableEq, Repr, Inhabited

namespace ObjectFile

/-- The source tree of the file. -/
def tree (f : ObjectFile) : SourceTree :=
  { file := f.name, nodes := f.nodes }

/-- The trace of a reference into the file's sources. -/
def trace (f : ObjectFile) (ref : Option SourceRef) : Bytes :=
  f.tree.show? ref

/-- The section at an index. -/
def sectionAt? (f : ObjectFile) (i : Option UInt32) : Option Section :=
  i.bind fun i => f.sections[i.toNat]?

/-- A section as messages describe it: region, quoted name and trace. -/
def describe (f : ObjectFile) (s : Section) : Bytes :=
  Bytes.concat [s.kind.name, " section ", Quoted.quote s.name, " (", f.trace s.source, ")"]

end ObjectFile

end BankedLinker
