import BankedLinker.Object.Format

/-!
# Encoding object files

`Object.encode` writes an object file in the format that `Object.decode` reads. It refuses files
that the format cannot express: nodes whose content does not go with their kind, and ROM sections
whose data is not as long as their size.
-/

namespace BankedLinker.Object

/-- Why a file could not be written. -/
inductive EncodeError where
  | iterationsOfKind (kind : NodeKind)
  | namedRepeat (name : Bytes)
  | missingContent (kind : NodeKind)
  | dataSize (owner : Bytes) (length : Nat) (size : UInt32)
  /-- The stream failed while the file was written to it. -/
  | writing (obstacle : Obstacle)
  /-- The stream failed when the last bytes were handed over. -/
  | flushing (obstacle : Obstacle)
deriving DecidableEq, Repr

namespace EncodeError

def message : EncodeError → Bytes
  | .iterationsOfKind kind =>
    Bytes.concat ["node kind ", Numeral.decimal kind.tag.toNat, " with iteration payload"]
  | .namedRepeat name => Bytes.concat ["repeat node with name payload ", Quoted.quote name]
  | .missingContent kind =>
    Bytes.concat ["node kind ", Numeral.decimal kind.tag.toNat, " has no payload"]
  | .dataSize owner length size =>
    Bytes.concat ["section ", Quoted.quote owner, " has ", Numeral.decimal length,
      " data bytes but size ", Numeral.decimal size.toNat]
  | .writing obstacle => Bytes.concat ["writing object file: ", obstacle.message]
  | .flushing obstacle => Bytes.concat ["flushing object file: ", obstacle.message]

def faults : EncodeError → List Fault
  | .writing obstacle => obstacle.faults
  | .flushing obstacle => obstacle.faults
  | _ => []

end EncodeError

namespace Encoder

/-- A string and the zero byte that ends it. -/
def string (s : Bytes) : Bytes :=
  s ++ [0]

/-- The number of items of a list. -/
def count {α : Type} (items : List α) : Bytes :=
  Word.toBytes items.length.toUInt32

/-- A source reference; an unknown one refers to no node. -/
def source : Option SourceRef → Bytes
  | none => Word.toBytes noIndex ++ Word.toBytes 0
  | some ref => Word.toBytes (wordOfIndex ref.node) ++ Word.toBytes ref.line

/-- The content of a node, if it goes with the node's kind. -/
def nodeContent (kind : NodeKind) : NodeContent → Except EncodeError Bytes
  | .iterations counters =>
    if kind = .repeated then .ok (count counters ++ counters.flatMap Word.toBytes)
    else .error (.iterationsOfKind kind)
  | .named name =>
    if kind = .repeated then .error (.namedRepeat name) else .ok (string name)
  | .missing => .error (.missingContent kind)

/-- A source node. -/
def node (n : SourceNode) : Except EncodeError Bytes := do
  let content ← nodeContent n.kind n.content
  return Bytes.concat
    [Word.toBytes (wordOfIndex n.parent), Word.toBytes n.parentLine, [n.kind.tag], content]

/-- A symbol; of an import only name and kind are written. -/
def symbol (s : Symbol) : Bytes :=
  let definition :=
    if s.kind = .imported then []
    else Bytes.concat
      [source s.source, Word.toBytes (wordOfIndex s.owner), Word.toBytes s.value.toUInt32]
  Bytes.concat [string s.name, [s.kind.tag], definition]

/-- A patch whose kind byte is `tag`. -/
def patch (p : Patch) (tag : UInt8) : Bytes :=
  Bytes.concat [source p.source, Word.toBytes p.offset, Word.toBytes (wordOfIndex p.pcSection),
    Word.toBytes p.pcOffset, [tag], count p.expr, p.expr]

/-- The type byte of a section: its region and its modifier. -/
def typeByte (s : Section) : UInt8 :=
  if s.modifier = .union then s.kind.tag ||| unionBit
  else if s.modifier = .fragment then s.kind.tag ||| fragmentBit
  else s.kind.tag

/-- A section up to its data. -/
def sectionHeader (s : Section) : Bytes :=
  Bytes.concat [string s.name, source s.source, Word.toBytes s.size, [typeByte s],
    Word.toBytes (wordOfIndex (s.org.map (·.toUInt32))), Word.toBytes (wordOfIndex s.bank),
    [s.align], Word.toBytes s.alignOffset.toUInt32]

/-- A section; data and patches are written for ROM sections only. -/
def sectionOf (s : Section) : Except EncodeError Bytes :=
  if s.kind.hasData then
    if s.data.length.toUInt32 ≠ s.size then .error (.dataSize s.name s.data.length s.size)
    else
      let patches := s.patches.flatMap fun p => patch p p.kind.tag
      .ok (Bytes.concat [sectionHeader s, s.data, count s.patches, patches])
  else .ok (sectionHeader s)

/-- An assertion; its level is written where a patch has its kind. -/
def assertion (a : Assertion) : Bytes :=
  patch a.patch a.level.tag ++ string a.message

end Encoder

/-- The bytes of an object file. -/
def encode (f : ObjectFile) : Except EncodeError Bytes := do
  let nodes ← f.nodes.toList.mapM Encoder.node
  let sections ← f.sections.mapM Encoder.sectionOf
  return Bytes.concat
    [magic, Word.toBytes version, Encoder.count f.symbols, Encoder.count f.sections,
      Encoder.count f.nodes.toList, nodes.flatten, f.symbols.flatMap Encoder.symbol, sections.flatten,
      Encoder.count f.assertions, f.assertions.flatMap Encoder.assertion]

/-- The number of bytes that are collected before they are handed to a stream. -/
def bufferSize : Nat := 4096

/-- What writing a file to a stream that accepts nothing comes to: the failure shows when the
first full buffer is handed over, and at the end if the buffer is never full. -/
def encodeStopped (f : ObjectFile) (obstacle : Obstacle) : EncodeError :=
  match encode f with
  | .error e => e
  | .ok bytes => if bytes.length > bufferSize then .writing obstacle else .flushing obstacle

end BankedLinker.Object
