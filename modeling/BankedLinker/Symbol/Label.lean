import BankedLinker.Section.Registry

/-!
# Placed labels

The labels of a program with their banks and addresses, in the order in which listings show them:
by bank, then by address, then by name.
-/

namespace BankedLinker

/-- A label with its place. -/
structure PlacedLabel where
  name : Bytes
  /-- The section that the label belongs to. -/
  owner : SectionKey
  bank : UInt32
  /-- The value of the label. -/
  value : Int32
deriving DecidableEq, Repr

namespace PlacedLabel

/-- The address of a label: the low 16 bits of its value. -/
def address (l : PlacedLabel) : UInt16 :=
  l.value.toUInt32.toUInt16

/-- The label of a definition, if the definition belongs to a section. -/
def ofDefinition? (r : Registry) (d : Definition) : Option PlacedLabel :=
  d.ownerSection?.map fun s =>
    { name := d.symbol.name, owner := ⟨d.file.index, s.id⟩, bank := r.bank d.file s,
      value := r.address d }

/-- The order of listings. -/
def compare (a b : PlacedLabel) : Ordering :=
  (Ord.compare a.bank b.bank).then <|
    (Ord.compare a.address b.address).then (Ord.compare a.name b.name)

/-- The labels of a symbol table in the order of listings; equal ones keep their order. -/
def sorted (t : SymbolTable) (r : Registry) : List PlacedLabel :=
  (t.labels.toList.filterMap (ofDefinition? r)).mergeSort fun a b => (compare a b).isLE

end PlacedLabel

end BankedLinker
