import BankedLinker.Object.Format

/-!
# Decoding object files

Reading proceeds in parts. Inside of a part, a `Scan` takes fields off the front of the input and
can only fail by running out of bytes; which part was cut short is known where the part is read.
Between the parts, a `Decoder` checks what was read. `Object.decode` reads a whole file and hands
back the bytes that follow it.
-/

namespace BankedLinker.Object

/-! ## Fields -/

/-- Takes something off the front of the input, or runs out of bytes. -/
abbrev Scan := StateT Bytes Option

namespace Scan

/-- One byte. -/
def byte : Scan UInt8
  | [] => none
  | b :: rest => some (b, rest)

/-- A word. -/
def word : Scan UInt32
  | b₀ :: b₁ :: b₂ :: b₃ :: rest => some (Word.ofBytes b₀ b₁ b₂ b₃, rest)
  | _ => none

/-- A given number of bytes. -/
def bytes : Nat → Scan Bytes
  | 0, s => some ([], s)
  | _ + 1, [] => none
  | n + 1, b :: s => (bytes n s).map fun (taken, rest) => (b :: taken, rest)

/-- The bytes in front of the next zero byte, which is dropped. -/
def string : Scan Bytes
  | [] => none
  | b :: s => if b = 0 then some ([], s) else (string s).map fun (taken, rest) => (b :: taken, rest)

/-- A given number of words. -/
def words : Nat → Scan (List UInt32)
  | 0 => pure []
  | n + 1 => do
    let w ← word
    let rest ← words n
    return w :: rest

end Scan

/-! ## Parts -/

/-- Reads a part of a file, or finds a defect in it. -/
abbrev Decoder := StateT Bytes (Except PlacedDefect)

namespace Decoder

/-- Stops with a defect. -/
def fail {α : Type} (defect : Defect) : Decoder α :=
  fun _ => .error ⟨[], defect⟩

/-- Reads the fields of a part. -/
def part {α : Type} (p : Part) (fields : Scan α) : Decoder α :=
  fun s =>
    match fields s with
    | some result => .ok result
    | none => .error ⟨[], .truncated p⟩

/-- Reads at a place: defects are found inside of it. -/
def inside {α : Type} (place : Place) (d : Decoder α) : Decoder α :=
  fun s =>
    match d s with
    | .ok result => .ok result
    | .error e => .error { e with path := place :: e.path }

/-- Reads `count` items in order; each is told its index, the first one `index`. -/
def many {α : Type} (item : Nat → Decoder α) : (count index : Nat) → Decoder (List α)
  | 0, _ => pure []
  | count + 1, index => do
    let first ← item index
    let rest ← many item count (index + 1)
    return first :: rest

/-! ## Nodes and references -/

/-- The content of a node of the given kind. -/
def nodeContent (kind : NodeKind) : Decoder NodeContent := do
  if kind = .repeated then
    let depth ← part .nodePayload Scan.word
    if depth > maxRepeatDepth then fail (.deepRepeat depth)
    else return .iterations (← part .nodePayload (Scan.words depth.toNat))
  else if kind = .sourceFile ∨ kind = .macroCall then
    return .named (← part .nodePayload Scan.string)
  else fail (.unknownNodeKind kind)

/-- The node at an index. Its parent comes before it. -/
def node (index : Nat) : Decoder SourceNode := do
  let (parent, line, kind) ← part .node do
    return (← Scan.word, ← Scan.word, NodeKind.mk (← Scan.byte))
  if parent ≠ noIndex ∧ index ≤ parent.toNat then fail (.lateParent parent)
  else
    let content ← nodeContent kind
    return { parent := indexOfWord parent, parentLine := line, kind, content }

/-- A reference into a source tree of `nodes` nodes, from its two words. -/
def sourceRef (nodes : Nat) (node line : UInt32) : Decoder (Option SourceRef) :=
  if node ≠ noIndex ∧ nodes ≤ node.toNat then fail (.noSuchNode node)
  else return some { node := indexOfWord node, line }

/-- A reference into a source tree of `nodes` nodes. -/
def source (nodes : Nat) : Decoder (Option SourceRef) := do
  let (node, line) ← part .sourceReference do return (← Scan.word, ← Scan.word)
  sourceRef nodes node line

/-! ## Symbols -/

/-- A symbol of a file with `nodes` source nodes and `sections` sections. An import is only a
name. -/
def symbol (nodes : Nat) (sections : UInt32) : Decoder Symbol := do
  let (name, kind) ← part .symbol do return (← Scan.string, SymbolKind.mk (← Scan.byte))
  if !kind.isKnown then fail (.unknownSymbolKind name kind)
  else if kind = .imported then
    return { name, kind, source := none, owner := none, value := 0 }
  else
    let source ← source nodes
    let (home, value) ← part .symbolDefinition do return (← Scan.word, ← Scan.word)
    if home ≠ noIndex ∧ sections ≤ home then fail (.noSuchSymbolSection name home)
    else return { name, kind, source, owner := indexOfWord home, value := value.toInt32 }

/-! ## Patches -/

/-- A patch of a file with `nodes` source nodes and `sections` sections. -/
def patch (nodes : Nat) (sections : UInt32) : Decoder Patch := do
  let source ← source nodes
  let (offset, pc, pcOffset, kind, size) ← part .patch do
    return (← Scan.word, ← Scan.word, ← Scan.word, PatchKind.mk (← Scan.byte), ← Scan.word)
  if size > maxSize then fail (.exprTooLarge size)
  else
    let expr ← part .patchExpression (Scan.bytes size.toNat)
    if pc ≠ noIndex ∧ sections ≤ pc then fail (.noSuchPcSection pc)
    else return { source, offset, pcSection := indexOfWord pc, pcOffset, kind, expr }

/-- A patch of the section `owner` that holds `size` bytes. The patch writes inside of them. -/
def sectionPatch (nodes : Nat) (sections : UInt32) (owner : Bytes) (size : UInt32) (index : Nat) :
    Decoder Patch := do
  let p ← inside (.patch owner index) (patch nodes sections)
  if !p.kind.isKnown then fail (.unknownPatchKind owner index p.kind)
  else if size.toNat < p.offset.toNat + p.kind.width then
    fail (.patchOutside owner index p.offset size)
  else return p

/-! ## Sections -/

/-- The region and the modifier in a type byte. -/
def kindAndModifier (tag : UInt8) : Decoder (RegionKind × Modifier) :=
  let kind : RegionKind := ⟨tag &&& kindMask⟩
  let flags := tag &&& ~~~kindMask
  if !kind.isKnown then fail (.unknownRegion kind)
  else if flags = 0 then return (kind, .normal)
  else if flags = unionBit then return (kind, .union)
  else if flags = fragmentBit then return (kind, .fragment)
  else fail .unionAndFragment

/-- The numbers in the header of a section, as they stand in the file. -/
structure SectionHeader where
  size : UInt32
  tag : UInt8
  org : UInt32
  bank : UInt32
  align : UInt8
  alignOffset : UInt32
deriving DecidableEq, Repr

/-- The header of a section without name and source reference. -/
def scanSectionHeader : Scan SectionHeader := do
  return ⟨← Scan.word, ← Scan.byte, ← Scan.word, ← Scan.word, ← Scan.byte, ← Scan.word⟩

/-- The section of a header, still without data and patches. -/
def headedSection (id : UInt32) (name : Bytes) (source : Option SourceRef) (h : SectionHeader) :
    Decoder Section := do
  let (kind, modifier) ← kindAndModifier h.tag
  if h.size > maxSize then fail (.sizeTooLarge h.size)
  else if h.align > maxAlign then fail (.alignTooLarge h.align)
  else if h.alignOffset > 0xFFFF then fail (.alignOffsetTooLarge h.alignOffset)
  else if h.org ≠ noIndex ∧ h.org > 0xFFFF then fail (.orgTooLarge h.org)
  else
    return { id, name, source, kind, modifier, size := h.size,
             org := (indexOfWord h.org).map (·.toUInt16), bank := indexOfWord h.bank,
             align := h.align, alignOffset := h.alignOffset.toUInt16, data := [], patches := [] }

/-- The section at an index of a file with `nodes` source nodes and `sections` sections. Data and
patches are stored for ROM sections only. -/
def sectionAt (nodes : Nat) (sections : UInt32) (index : Nat) : Decoder Section := do
  let (name, node, line) ← part .sourceReference do
    return (← Scan.string, ← Scan.word, ← Scan.word)
  let source ← sourceRef nodes node line
  let header ← part .sectionHeader scanSectionHeader
  let s ← inside (.namedSection name) (headedSection index.toUInt32 name source header)
  if s.kind.hasData then
    let (data, count) ← part .sectionData do return (← Scan.bytes s.size.toNat, ← Scan.word)
    let patches ← many (sectionPatch nodes sections name s.size) count.toNat 0
    return { s with data, patches }
  else return s

/-! ## Assertions -/

/-- The assertion at an index of a file with `nodes` source nodes and `sections` sections. Its
level stands where a patch has its kind. -/
def assertion (nodes : Nat) (sections : UInt32) (index : Nat) : Decoder Assertion := do
  let p ← inside (.assertion index) (patch nodes sections)
  let level : AssertionLevel := ⟨p.kind.tag⟩
  if !level.isKnown then fail (.unknownLevel index level)
  else return { patch := p, level, message := ← part .assertionMessage Scan.string }

/-! ## Files -/

/-- Magic word and version. -/
def header : Decoder Unit := do
  let (found, revision) ← part .header do return (← Scan.bytes magic.length, ← Scan.word)
  if found ≠ magic then fail (.badMagic found)
  else if revision ≠ version then fail (.badVersion revision)
  else return ()

/-- A whole file. -/
def file (name : Bytes) (index : Int) : Decoder ObjectFile := do
  header
  let (symbolCount, sectionCount, nodeCount) ← part .counts do
    return (← Scan.word, ← Scan.word, ← Scan.word)
  let nodes := (← many (fun i => inside (.node i) (node i)) nodeCount.toNat 0).toArray
  let symbols ← many (fun i => inside (.symbol i) (symbol nodes.size sectionCount))
    symbolCount.toNat 0
  let sections ← many (fun i => inside (.sectionAt i) (sectionAt nodes.size sectionCount i))
    sectionCount.toNat 0
  let assertionCount ← part .assertionCount Scan.word
  let assertions ← many (assertion nodes.size sectionCount) assertionCount.toNat 0
  return { name, index, nodes, symbols, sections, assertions }

end Decoder

/-- Decodes an object file that stands at the front of the input, and returns it with the bytes
after it. The name is used in messages, the index becomes the number of the file. -/
def decode (name : Bytes) (index : Int) (input : Bytes) :
    Except DecodeError (ObjectFile × Bytes) :=
  match Decoder.file name index input with
  | .ok result => .ok result
  | .error what => .error { file := name, what }

/-- A defect of a stream that was stopped by an obstacle where the input ends: what would have
been truncated could not be read. -/
def Defect.stoppedBy (obstacle : Obstacle) : Defect → Defect
  | .truncated part => .unreadable part obstacle
  | defect => defect

/-- Decodes from a stream that delivers `input` and is then stopped by an obstacle. -/
def decodeStopped (name : Bytes) (index : Int) (input : Bytes) (obstacle : Obstacle) :
    Except DecodeError (ObjectFile × Bytes) :=
  match decode name index input with
  | .ok result => .ok result
  | .error e => .error { e with what.defect := e.what.defect.stoppedBy obstacle }

end BankedLinker.Object
