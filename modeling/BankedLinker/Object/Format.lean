import BankedLinker.Fault
import BankedLinker.Object.Basic

/-!
# The object file format

An object file starts with a magic word and a version, followed by the numbers of symbols,
sections and source nodes, the nodes, the symbols, the sections with their data and patches, and
the assertions. Numbers are little-endian words, strings end with a zero byte. This file holds
the constants of the format and everything that can be wrong with a file that claims to follow
it.
-/

namespace BankedLinker.Object

/-- The bytes that an object file starts with. -/
def magic : Bytes := "RLNK"

/-- The version of the format. -/
def version : UInt32 := 1

/-- The greatest size of a section and of an expression. -/
def maxSize : UInt32 := 0x10000

/-- The greatest alignment, as a power of two. -/
def maxAlign : UInt8 := 16

/-- The greatest number of nested repeat blocks of a node. -/
def maxRepeatDepth : UInt32 := 1024

/-- The bits of the type byte that hold the region tag. -/
def kindMask : UInt8 := 0x3F

/-- The bit of the type byte that marks a fragment. -/
def fragmentBit : UInt8 := 0x40

/-- The bit of the type byte that marks a union. -/
def unionBit : UInt8 := 0x80

/-! ## What can be wrong with a file -/

/-- The parts of a file that are read in one go. -/
inductive Part where
  | header
  | counts
  | node
  | nodePayload
  | sourceReference
  | symbol
  | symbolDefinition
  | sectionHeader
  | sectionData
  | patch
  | patchExpression
  | assertionCount
  | assertionMessage
deriving DecidableEq, Repr

/-- The name of a part in messages. -/
def Part.name : Part → Bytes
  | .header => "header"
  | .counts => "counts"
  | .node => "node"
  | .nodePayload => "node payload"
  | .sourceReference => "source reference"
  | .symbol => "symbol"
  | .symbolDefinition => "symbol definition"
  | .sectionHeader => "section header"
  | .sectionData => "section data"
  | .patch => "patch"
  | .patchExpression => "patch expression"
  | .assertionCount => "assertion count"
  | .assertionMessage => "assertion message"

/-- What can be wrong at a place of a file. -/
inductive Defect where
  /-- The file ends inside of a part. -/
  | truncated (part : Part)
  /-- The rest of a part could not be read. -/
  | unreadable (part : Part) (obstacle : Obstacle)
  | badMagic (found : Bytes)
  | badVersion (found : UInt32)
  | lateParent (parent : UInt32)
  | deepRepeat (depth : UInt32)
  | unknownNodeKind (kind : NodeKind)
  | noSuchNode (node : UInt32)
  | unknownSymbolKind (symbol : Bytes) (kind : SymbolKind)
  | noSuchSymbolSection (symbol : Bytes) (index : UInt32)
  | unknownRegion (kind : RegionKind)
  | unionAndFragment
  | sizeTooLarge (size : UInt32)
  | alignTooLarge (align : UInt8)
  | alignOffsetTooLarge (offset : UInt32)
  | orgTooLarge (org : UInt32)
  | exprTooLarge (size : UInt32)
  | noSuchPcSection (index : UInt32)
  | unknownPatchKind (owner : Bytes) (patch : Nat) (kind : PatchKind)
  | patchOutside (owner : Bytes) (patch : Nat) (offset size : UInt32)
  | unknownLevel (assertion : Nat) (level : AssertionLevel)
deriving DecidableEq, Repr

/-- Where in a file something is wrong. -/
inductive Place where
  | node (index : Nat)
  | symbol (index : Nat)
  | sectionAt (index : Nat)
  | namedSection (name : Bytes)
  | patch (sectionName : Bytes) (index : Nat)
  | assertion (index : Nat)
deriving DecidableEq, Repr

/-- A defect with the places that enclose it, outermost first. -/
structure PlacedDefect where
  path : List Place
  defect : Defect
deriving DecidableEq, Repr

/-- Why a file could not be decoded. -/
structure DecodeError where
  file : Bytes
  what : PlacedDefect
deriving DecidableEq, Repr

/-! ## Messages -/

namespace Defect

/-- The text of a defect. -/
def message : Defect → Bytes
  | .truncated part => corrupt ["truncated while reading ", part.name]
  | .unreadable part obstacle => Bytes.concat ["reading ", part.name, ": ", obstacle.message]
  | .badMagic found => corrupt ["invalid magic ", Quoted.quote found]
  | .badVersion found =>
    corrupt ["unsupported version ", num found.toNat, ", expected ", num version.toNat]
  | .lateParent parent => corrupt ["parent ", num parent.toNat, " is not an earlier node"]
  | .deepRepeat depth =>
    corrupt ["repeat depth ", num depth.toNat, " exceeds ", num maxRepeatDepth.toNat]
  | .unknownNodeKind kind => corrupt ["unknown node kind ", num kind.tag.toNat]
  | .noSuchNode node => corrupt ["source node ", num node.toNat, " out of range"]
  | .unknownSymbolKind symbol kind =>
    corrupt ["symbol ", Quoted.quote symbol, " has unknown kind ", num kind.tag.toNat]
  | .noSuchSymbolSection symbol index =>
    corrupt ["symbol ", Quoted.quote symbol, " references section ", num index.toNat]
  | .unknownRegion kind => corrupt ["unknown section type ", num kind.tag.toNat]
  | .unionAndFragment => corrupt ["section is both union and fragment"]
  | .sizeTooLarge size => corrupt ["size ", num size.toNat, " too large"]
  | .alignTooLarge align => corrupt ["alignment ", num align.toNat, " too large"]
  | .alignOffsetTooLarge offset => corrupt ["alignment offset ", num offset.toNat, " too large"]
  | .orgTooLarge org =>
    corrupt ["org $", Numeral.hexUpper 0 org.toNat, " out of address space"]
  | .exprTooLarge size => corrupt ["expression size ", num size.toNat, " too large"]
  | .noSuchPcSection index => corrupt ["PC section ", num index.toNat, " out of range"]
  | .unknownPatchKind name patch kind =>
    corrupt ["section ", Quoted.quote name, " patch ", num patch, " has unknown kind ",
      num kind.tag.toNat]
  | .patchOutside name patch offset size =>
    corrupt ["section ", Quoted.quote name, " patch ", num patch, " at offset ",
      num offset.toNat, " exceeds section size ", num size.toNat]
  | .unknownLevel assertion level =>
    corrupt ["assertion ", num assertion, " has unknown level ", num level.tag.toNat]
where
  corrupt (details : List Bytes) : Bytes := Fault.corruptObject.says details
  num (n : Nat) : Bytes := Numeral.decimal n

/-- The classes of a defect: all but a failing stream are corrupt files. -/
def faults : Defect → List Fault
  | .unreadable _ obstacle => obstacle.faults
  | _ => [.corruptObject]

end Defect

/-- The text of a place. -/
def Place.name : Place → Bytes
  | .node index => Bytes.concat ["node ", Numeral.decimal index]
  | .symbol index => Bytes.concat ["symbol ", Numeral.decimal index]
  | .sectionAt index => Bytes.concat ["section ", Numeral.decimal index]
  | .namedSection name => Bytes.concat ["section ", Quoted.quote name]
  | .patch name index =>
    Bytes.concat ["section ", Quoted.quote name, " patch ", Numeral.decimal index]
  | .assertion index => Bytes.concat ["assertion ", Numeral.decimal index]

namespace DecodeError

/-- The text of a decoding error: the file, the places, the defect. -/
def message (e : DecodeError) : Bytes :=
  Bytes.joinWith ": " (e.file :: e.what.path.map Place.name ++ [e.what.defect.message])

def faults (e : DecodeError) : List Fault :=
  e.what.defect.faults

end DecodeError

end BankedLinker.Object
