import BankedLinker.Text.Numeral

/-!
# Memory regions

The address space of the target is divided into eight regions. Each spans one range of addresses
and exists in one or more banks, of which a bank register selects one at a time. Only the two ROM
regions are stored in the output image.

* `RegionKind` is the tag of a region in an object file;
* `MemoryMap` holds the switches that select a variant of the map, and `MemoryMap.region` is the
  map itself;
* `MemoryMap.romOffset` is the position of a ROM address in the image.
-/

namespace BankedLinker

/-- The tag of a region. Tags from 8 on name no region; they can be held and written, but no
object file that is read contains one. -/
structure RegionKind where
  tag : UInt8
deriving DecidableEq, Repr, Inhabited, Hashable

namespace RegionKind

def wram0 : RegionKind := ⟨0⟩
def vram : RegionKind := ⟨1⟩
def romx : RegionKind := ⟨2⟩
def rom0 : RegionKind := ⟨3⟩
def hram : RegionKind := ⟨4⟩
def wramx : RegionKind := ⟨5⟩
def sram : RegionKind := ⟨6⟩
def oam : RegionKind := ⟨7⟩

/-- The eight kinds in the order of their tags. -/
def all : List RegionKind :=
  [wram0, vram, romx, rom0, hram, wramx, sram, oam]

/-- Whether the tag names a region. -/
def isKnown (k : RegionKind) : Bool :=
  k.tag < 8

/-- Whether sections of this kind are stored in the output image. -/
def hasData (k : RegionKind) : Bool :=
  k = rom0 || k = romx

/-- The name of a kind, or its number if it names no region. -/
def name (k : RegionKind) : Bytes :=
  match k.tag.toNat with
  | 0 => "WRAM0"
  | 1 => "VRAM"
  | 2 => "ROMX"
  | 3 => "ROM0"
  | 4 => "HRAM"
  | 5 => "WRAMX"
  | 6 => "SRAM"
  | 7 => "OAM"
  | n => Bytes.concat ["type(", Numeral.decimal n, ")"]

end RegionKind

/-- The addresses and banks of a region. -/
structure Region where
  /-- The first address. -/
  start : UInt16
  /-- The number of addresses. -/
  size : UInt32
  /-- The lowest bank. -/
  firstBank : UInt32
  /-- The number of banks; a region without banks is not available. -/
  bankCount : UInt32
deriving DecidableEq, Repr, Inhabited

namespace Region

/-- The first address after the region. -/
def stop (r : Region) : UInt32 :=
  r.start.toUInt32 + r.size

/-- The highest bank. -/
def lastBank (r : Region) : UInt32 :=
  if r.bankCount = 0 then r.firstBank else r.firstBank + r.bankCount - 1

/-- Whether there is a choice of bank. Only then does it make sense to ask for one. -/
def isBanked (r : Region) : Bool :=
  1 < r.bankCount

/-- Whether the region has this bank. -/
def containsBank (r : Region) (bank : UInt32) : Bool :=
  0 < r.bankCount && r.firstBank ≤ bank && bank ≤ r.lastBank

/-- Whether the `size` addresses from `address` on lie inside the region. -/
def containsRange (r : Region) (address : UInt16) (size : UInt32) : Bool :=
  r.start ≤ address && address.toUInt32 + size ≤ r.stop

end Region

/-- The switches that select a variant of the memory map. -/
structure MemoryMap where
  /-- ROM0 spans 32 KiB and ROMX is not available. -/
  tiny : Bool := false
  /-- WRAM0 spans 8 KiB and WRAMX is not available. -/
  wram0 : Bool := false
  /-- VRAM has a single bank, and WRAM0 spans 8 KiB as with `wram0`. -/
  dmg : Bool := false
deriving DecidableEq, Repr, Inhabited

namespace MemoryMap

/-- Whether WRAM0 spans 8 KiB. -/
def wideWram0 (m : MemoryMap) : Bool :=
  m.wram0 || m.dmg

/-- The region of a kind. A tag that names no region has neither addresses nor banks. -/
def region (m : MemoryMap) (k : RegionKind) : Region :=
  match k.tag.toNat with
  | 0 => ⟨0xC000, if m.wideWram0 then 0x2000 else 0x1000, 0, 1⟩
  | 1 => ⟨0x8000, 0x2000, 0, if m.dmg then 1 else 2⟩
  | 2 => ⟨0x4000, 0x4000, 1, if m.tiny then 0 else 511⟩
  | 3 => ⟨0x0000, if m.tiny then 0x8000 else 0x4000, 0, 1⟩
  | 4 => ⟨0xFF80, 0x007F, 0, 1⟩
  | 5 => ⟨0xD000, 0x1000, 1, if m.wideWram0 then 0 else 7⟩
  | 6 => ⟨0xA000, 0x2000, 0, 256⟩
  | 7 => ⟨0xFE00, 0x00A0, 0, 1⟩
  | _ => ⟨0, 0, 0, 0⟩

/-- Whether a value lies in the page that holds HRAM, which short load instructions reach. -/
def inHighPage (m : MemoryMap) (value : Int32) : Bool :=
  let page := (m.region .hram).start.toUInt32.toInt32 &&& 0xFF00
  page ≤ value && value ≤ (page ||| 0xFF)

/-- Whether a value is the target of a restart instruction: a multiple of eight in the first 64
bytes of ROM0. -/
def isRestartTarget (m : MemoryMap) (value : Int32) : Bool :=
  value &&& ~~~0x38 == (m.region .rom0).start.toUInt32.toInt32

/-- The position of a ROM address in the image: ROM0 comes first, then the ROMX banks in
ascending order. -/
def romOffset (m : MemoryMap) (k : RegionKind) (bank : UInt32) (address : UInt16) : UInt32 :=
  let rom0 := m.region .rom0
  if k = .rom0 then (address - rom0.start).toUInt32
  else
    let romx := m.region .romx
    rom0.size + (bank - romx.firstBank) * romx.size + (address - romx.start).toUInt32

/-- A short description of the variant. -/
def variantName (m : MemoryMap) : Bytes :=
  let memory : List Bytes :=
    if m.dmg then ["dmg", "wram0"] else if m.wram0 then ["wram0"] else []
  let rom : List Bytes := if m.tiny then ["tiny"] else []
  let parts := rom ++ memory
  if parts.isEmpty then "default" else Bytes.joinWith "," parts

end MemoryMap

end BankedLinker
