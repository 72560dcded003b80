import BankedLinker.Diagnostics
import BankedLinker.Symbol.Label

/-!
# The linker

The state of a link run: the object files, the symbol table, the registry of merged sections and
the diagnostics. Each operation takes the state a step further; what goes wrong is recorded and
the operation goes on.

* `Linker.addSymbols` and `Linker.addSections` collect the parts of a file;
* `Linker.assign` places the merged sections.
-/

namespace BankedLinker

/-- The state of a link run. -/
structure Linker where
  map : MemoryMap
  /-- The linked files. Their numbers are distinct. -/
  files : List ObjectFile
  table : SymbolTable := {}
  registry : Registry := {}
  diagnostics : Diagnostics := {}
deriving Inhabited

namespace Linker

/-- The state at the beginning of a run. -/
def start (map : MemoryMap) (warnings : WarningOptions) (files : List ObjectFile) : Linker :=
  { map, files, diagnostics := { options := warnings } }

/-- Records a problem. -/
def report (lk : Linker) (p : Problem) : Linker :=
  { lk with diagnostics := lk.diagnostics.report p }

/-- Adds a debug record to the log. -/
def debug (lk : Linker) (message : Bytes) (attributes : List Attribute) : Linker :=
  { lk with diagnostics := lk.diagnostics.note .debug message attributes }

/-! ## Collecting symbols and sections -/

/-- Adds a symbol of a file, or records why it cannot be added. -/
def addSymbol (lk : Linker) (f : ObjectFile) (symbol : Symbol) : Linker :=
  match lk.table.add { file := f, symbol } with
  | (table, none) => { lk with table }
  | (table, some e) => { lk with table }.report (.duplicateExport e)

/-- Adds all symbols of a file. -/
def addSymbols (lk : Linker) (f : ObjectFile) : Linker :=
  f.symbols.foldl (fun lk symbol => lk.addSymbol f symbol) lk

/-- Merges a section of a file, or records why it cannot be merged. -/
def addSection (lk : Linker) (f : ObjectFile) (s : Section) : Linker :=
  match lk.registry.add f s with
  | (registry, none) => { lk with registry }
  | (registry, some conflict) => { lk with registry }.report (.conflict f s conflict)

/-- Merges all sections of a file. -/
def addSections (lk : Linker) (f : ObjectFile) : Linker :=
  f.sections.foldl (fun lk s => lk.addSection f s) lk

/-- Collects symbols and sections of a file. -/
def addFile (lk : Linker) (f : ObjectFile) : Linker :=
  (lk.addSymbols f).addSections f

/-! ## Placing sections -/

/-- The merged sections in the order in which they were found. -/
def sections (lk : Linker) : List Merged :=
  lk.registry.sections.toList

/-- Carries out what became of a section. -/
def settle (lk : Linker) (o : Placement.Outcome) : Linker :=
  match o.result with
  | .error e => lk.report (.placement o.subject e)
  | .ok location =>
    { lk with registry := lk.registry.place o.subject.id location.org location.bank }.debug
      "Placed section"
      [.text "section" o.subject.name, .text "region" o.subject.kind.name,
        .hex "address" 4 location.org.toNat, .number "bank" location.bank.toNat,
        .hex "size" 8 o.subject.size.toNat]

/-- Places all merged sections. -/
def assign (lk : Linker) : Linker :=
  (Placement.assign lk.map lk.sections).foldl settle lk

/-! ## Labels -/

/-- All labels in the order of listings. -/
def labels (lk : Linker) : List PlacedLabel :=
  PlacedLabel.sorted lk.table lk.registry

end Linker

end BankedLinker
