import BankedLinker.Output.Listing
import BankedLinker.Symbol.Label

/-!
# The map file

Shows how the memory is used: a summary with one line for each available region, and a block for
every bank that holds a section. A block lists the sections of the bank by address, each with its
labels, and the number of bytes that are left.
-/

namespace BankedLinker.MapFile

/-- The regions in the order of the map file. -/
def regionOrder : List RegionKind :=
  [.rom0, .romx, .vram, .sram, .wram0, .wramx, .oam, .hram]

/-- The placed sections of a region. -/
def placedIn (sections : List Merged) (k : RegionKind) : List Merged :=
  sections.filter fun m => m.placed && m.kind = k

/-- The banks of a region that hold a section, in ascending order. -/
def usedBanks (sections : List Merged) (k : RegionKind) : List UInt32 :=
  ((placedIn sections k).map (·.bank)).eraseDups.mergeSort fun a b => a ≤ b

/-- The sections of a bank by address; sections at one address keep their order. -/
def inBank (sections : List Merged) (k : RegionKind) (bank : UInt32) : List Merged :=
  ((placedIn sections k).filter (·.bank = bank)).mergeSort fun a b =>
    ((compare a.org b.org).then (compare a.id b.id)).isLE

/-- The number of bytes that sections use. -/
def usedBytes (sections : List Merged) : UInt32 :=
  (sections.map (·.size)).foldl (· + ·) 0

/-- Hexadecimal with at least four digits. -/
def hex (n : UInt32) : Bytes :=
  Numeral.hexUpper 4 n.toNat

/-! ## Summary -/

/-- The line of a region in the summary. A region without sections counts as one bank. -/
def summaryLine (map : MemoryMap) (sections : List Merged) (k : RegionKind) : Print :=
  let banks := usedBanks sections k
  let used := (banks.map fun b => usedBytes (inBank sections k b)).foldl (· + ·) 0
  let count := max banks.length 1
  let total := (map.region k).size * count.toUInt32
  { purpose := "writing map summary"
    text := Bytes.concat ["\t", k.name, ": $", hex used, " bytes used / $", hex (total - used),
      " free in ", Numeral.decimal count, " bank(s)\n"] }

/-- The summary of all available regions. -/
def summary (map : MemoryMap) (sections : List Merged) : Listing :=
  let available := regionOrder.filter fun k => (map.region k).bankCount ≠ 0
  { purpose := "writing map summary", text := "SUMMARY:\n" } ::
    available.map (summaryLine map sections) ++
    [{ purpose := "writing map summary", text := "\n" }]

/-! ## Banks -/

/-- The line of a section. -/
def sectionLine (m : Merged) : Print where
  purpose := "writing map section"
  text :=
    if m.size = 0 then
      Bytes.concat ["\tSECTION: $", hex m.org.toUInt32, " ($0000 bytes) [\"", m.name, "\"]\n"]
    else
      Bytes.concat ["\tSECTION: $", hex m.org.toUInt32, "-$", hex (m.stop - 1), " ($", hex m.size,
        " bytes) [\"", m.name, "\"]\n"]

/-- The line of a label. -/
def labelLine (l : PlacedLabel) : Print where
  purpose := "writing map label"
  text := Bytes.concat ["\t         $", hex l.address.toUInt32, " = ", l.name, "\n"]

/-- A section and the labels of its members. -/
def sectionBlock (labels : List PlacedLabel) (m : Merged) : Listing :=
  sectionLine m :: m.members.toList.flatMap fun x =>
    (labels.filter (·.owner = x.key)).map labelLine

/-- The block of a bank. -/
def bankBlock (map : MemoryMap) (sections : List Merged) (labels : List PlacedLabel)
    (k : RegionKind) (bank : UInt32) : Listing :=
  let content := inBank sections k bank
  let free := (map.region k).size - usedBytes content
  { purpose := "writing map bank header"
    text := Bytes.concat [k.name, " bank #", Numeral.decimal bank.toNat, ":\n"] } ::
    content.flatMap (sectionBlock labels) ++
    [{ purpose := "writing map bank footer"
       text := Bytes.concat ["\tTOTAL EMPTY: $", hex free, " bytes\n\n"] }]

/-- The map file of placed sections and labels. -/
def listing (map : MemoryMap) (sections : List Merged) (labels : List PlacedLabel) : Listing :=
  summary map sections ++ regionOrder.flatMap fun k =>
    (usedBanks sections k).flatMap (bankBlock map sections labels k)

end BankedLinker.MapFile
