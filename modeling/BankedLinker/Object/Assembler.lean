import BankedLinker.Object.Basic

/-!
# Assembling object files

An `Assembler` builds an object file part by part. Every part that has a source reference gets the
next line of the file's only source node.
-/

namespace BankedLinker

/-- An object file under construction and the number of lines used so far. -/
structure Assembler where
  file : ObjectFile
  line : UInt32 := 0
deriving Repr, Inhabited

namespace Assembler

/-- Starts a file: it has a root node of its own name. -/
def start (name : Bytes) (index : Int) : Assembler :=
  let root : SourceNode :=
    { parent := none, parentLine := 0, kind := .sourceFile, content := .named name }
  { file := { name, index, nodes := #[root] } }

/-- The line of the root node that the next part refers to. -/
def nextLine (a : Assembler) : UInt32 :=
  a.line + 1

/-- The reference of the next part. -/
def nextSource (a : Assembler) : Option SourceRef :=
  some { node := some 0, line := a.nextLine }

/-- Adds a section. A ROM section for which no data is given is filled with zeros. Its index and
its reference are set here. -/
def addSection (a : Assembler) (s : Section) (data : Option Bytes) : Assembler × Section :=
  let zeros : Bytes := if s.kind.hasData then List.replicate s.size.toNat 0 else []
  let added := { s with
    id := a.file.sections.length.toUInt32
    source := a.nextSource
    data := data.getD zeros }
  ({ file := { a.file with sections := a.file.sections ++ [added] }, line := a.nextLine }, added)

/-- Adds a symbol and returns its index. An import has no reference. -/
def addSymbol (a : Assembler) (name : Bytes) (kind : SymbolKind) (owner : Option UInt32)
    (value : Int32) : Assembler × UInt32 :=
  let isImport := kind = .imported
  let added : Symbol :=
    { name, kind, source := if isImport then none else a.nextSource, owner, value }
  ({ file := { a.file with symbols := a.file.symbols ++ [added] },
     line := if isImport then a.line else a.nextLine },
    a.file.symbols.length.toUInt32)

/-- Adds a constant and returns its index. -/
def addConstant (a : Assembler) (name : Bytes) (kind : SymbolKind) (value : Int32) :
    Assembler × UInt32 :=
  a.addSymbol name kind none value

/-- Adds an import and returns its index. -/
def addImport (a : Assembler) (name : Bytes) : Assembler × UInt32 :=
  a.addSymbol name .imported none 0

/-- Adds a patch to the section at an index. The patched place is also the place of the
instruction. -/
def addPatch (a : Assembler) (owner : UInt32) (offset : UInt32) (kind : PatchKind)
    (expr : Bytes) : Assembler × Patch :=
  let added : Patch :=
    { source := a.nextSource, offset, pcSection := some owner, pcOffset := offset, kind, expr }
  let sections := a.file.sections.modify owner.toNat fun s =>
    { s with patches := s.patches ++ [added] }
  ({ file := { a.file with sections }, line := a.nextLine }, added)

/-- Adds an assertion that is evaluated at the start of a section, or outside of all sections. -/
def addAssertion (a : Assembler) (owner : Option UInt32) (level : AssertionLevel) (expr : Bytes)
    (message : Bytes) : Assembler × Assertion :=
  let added : Assertion :=
    { patch := { source := a.nextSource, offset := 0, pcSection := owner, pcOffset := 0,
                 kind := .byte, expr }
      level, message }
  ({ file := { a.file with assertions := a.file.assertions ++ [added] }, line := a.nextLine },
    added)

end Assembler

end BankedLinker
