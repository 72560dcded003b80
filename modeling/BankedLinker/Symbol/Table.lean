import BankedLinker.Object.Basic
import BankedLinker.Symbol.Lookup
import Std.Data.HashMap
import Std.Data.HashSet

/-!
# The symbol table

Collects the symbols of all files. Exported names are visible everywhere, and the first export of
a name stands. Labels of every kind are kept for the symbol file, imported names are remembered in
the order in which they first occur.
-/

namespace BankedLinker

/-- A symbol together with the file that defines it. -/
structure Definition where
  file : ObjectFile
  symbol : Symbol
deriving Repr, Inhabited

namespace Definition

/-- Where the symbol was defined. -/
def trace (d : Definition) : Bytes :=
  d.file.trace d.symbol.source

/-- The section of a label. -/
def ownerSection? (d : Definition) : Option Section :=
  d.file.sectionAt? d.symbol.owner

end Definition

/-- Two files export one name. -/
structure DuplicateExport where
  first : Definition
  second : Definition
deriving Repr

namespace DuplicateExport

def message (e : DuplicateExport) : Bytes :=
  Fault.duplicateExport.says
    ["'", e.second.symbol.name, "' defined at ", e.first.trace, " in ", e.first.file.name,
      " and at ", e.second.trace, " in ", e.second.file.name]

def faults (_ : DuplicateExport) : List Fault :=
  [.duplicateExport]

end DuplicateExport

/-- The symbols of all files. -/
structure SymbolTable where
  /-- The exported symbols by name. -/
  exports : Std.HashMap Bytes Definition := ∅
  /-- All labels in the order in which they were added. -/
  labels : Array Definition := #[]
  /-- The imported names, each once, in the order in which they were first imported. -/
  imports : Array Bytes := #[]
  /-- The same names as a set. -/
  imported : Std.HashSet Bytes := ∅
deriving Repr, Inhabited

namespace SymbolTable

/-- The export of a name. -/
def find? (t : SymbolTable) (name : Bytes) : Option Definition :=
  t.exports[name]?

/-- The number of exported names. -/
def size (t : SymbolTable) : Nat :=
  t.exports.size

/-- Notes an imported name. -/
def noteImport (t : SymbolTable) (name : Bytes) : SymbolTable :=
  if t.imported.contains name then t
  else { t with imports := t.imports.push name, imported := t.imported.insert name }

/-- Keeps a symbol for the symbol file if it is a label. -/
def noteLabel (t : SymbolTable) (d : Definition) : SymbolTable :=
  if d.symbol.isLabel then { t with labels := t.labels.push d } else t

/-- Adds a symbol. An export of a name that is already exported is refused and changes nothing. -/
def add (t : SymbolTable) (d : Definition) : SymbolTable × Option DuplicateExport :=
  if d.symbol.kind = .imported then (t.noteImport d.symbol.name, none)
  else if d.symbol.kind = .exported then
    match t.find? d.symbol.name with
    | some first => (t, some { first, second := d })
    | none => ({ t with exports := t.exports.insert d.symbol.name d }.noteLabel d, none)
  else (t.noteLabel d, none)

/-- The definition of an exported name. -/
def resolve (t : SymbolTable) (name : Bytes) : Except LookupError Definition :=
  match t.find? name with
  | some d => .ok d
  | none => .error (.undefinedSymbol name)

/-- The definition of the symbol at an index of a file. An import is defined by the export of its
name. -/
def definition (t : SymbolTable) (f : ObjectFile) (index : UInt32) :
    Except LookupError Definition :=
  match f.symbols[index.toNat]? with
  | none => .error (.noSuchIndex index f.name)
  | some symbol =>
    if symbol.kind = .imported then t.resolve symbol.name else .ok { file := f, symbol }

/-- The imported names that nobody exports, in the order in which they were first imported. -/
def unresolved (t : SymbolTable) : List Bytes :=
  t.imports.toList.filter fun name => (t.find? name).isNone

end SymbolTable

end BankedLinker
