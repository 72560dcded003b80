import BankedLinker.Section.Merged

/-!
# The ROM image

The image starts with ROM0, followed by the ROMX banks up to the highest one in use, at least one.
Placed ROM sections stand at their positions; everything else is filled with the pad byte.
-/

namespace BankedLinker.Rom

/-- The number of ROMX banks in the image. -/
def bankCount (map : MemoryMap) (sections : List Merged) : UInt32 :=
  let romx := map.region .romx
  if romx.bankCount = 0 then 0
  else
    let used := sections.filter fun m => m.kind = .romx && m.placed
    (used.map fun m => m.bank - romx.firstBank + 1).foldl max 1

/-- The number of bytes in the image. -/
def size (map : MemoryMap) (sections : List Merged) : UInt32 :=
  (map.region .rom0).size + bankCount map sections * (map.region .romx).size

/-- Whether a section is stored in the image. -/
def isStored (m : Merged) : Bool :=
  m.kind.hasData && m.placed

/-- The position of a section in the image. -/
def position (map : MemoryMap) (m : Merged) : Nat :=
  (map.romOffset m.kind m.bank m.org).toNat

/-- Copies a section into the image if it is stored there. -/
def store (map : MemoryMap) (image : Array UInt8) (m : Merged) : Array UInt8 :=
  if isStored m then overwrite image (position map m) m.data.toList else image

/-- The image of the placed sections. -/
def image (map : MemoryMap) (pad : UInt8) (sections : List Merged) : Array UInt8 :=
  sections.foldl (store map) (Array.replicate (size map sections).toNat pad)

end BankedLinker.Rom
