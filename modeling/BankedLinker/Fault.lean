import BankedLinker.Text.Bytes

/-!
# Faults

Every failure of the linker is a value that says what went wrong; its text is computed from the
value in one place. A `Fault` is the class that a failure belongs to. A failure that wraps others
belongs to all of their classes.
-/

namespace BankedLinker

/-- The classes of failures. -/
inductive Fault where
  | linkFailed
  | corruptObject
  | duplicateExport
  | undefinedSymbol
  | notBanked
  | sectionConflict
  | fixedOverlap
  | outOfRegion
  | outOfSpace
  | misaligned
  | divisionByZero
  | valueOutOfRange
  | negativeExponent
  | undefinedSection
  | corruptPatch
  | assertion
  /-- The run was cancelled from outside. -/
  | canceled
  /-- A stream that the caller supplied failed. -/
  | stream
deriving DecidableEq, Repr

/-- The text that introduces failures of a class. -/
def Fault.text : Fault → Bytes
  | .linkFailed => "linking failed"
  | .corruptObject => "corrupt object file"
  | .duplicateExport => "duplicate export"
  | .undefinedSymbol => "undefined symbol"
  | .notBanked => "not banked"
  | .sectionConflict => "section conflict"
  | .fixedOverlap => "fixed sections overlap"
  | .outOfRegion => "section outside of region"
  | .outOfSpace => "no space for section"
  | .misaligned => "misaligned section"
  | .divisionByZero => "division by zero"
  | .valueOutOfRange => "value out of range"
  | .negativeExponent => "negative exponent"
  | .undefinedSection => "undefined section"
  | .corruptPatch => "corrupt patch"
  | .assertion => "assertion failed"
  | .canceled => "context canceled"
  | .stream => "stream failure"

/-- A message that starts with the text of a fault. -/
def Fault.says (fault : Fault) (details : List Bytes) : Bytes :=
  Bytes.concat (fault.text :: ": " :: details)

/-- What stopped a stream from outside of the linker. -/
inductive Obstacle where
  /-- The stream that the caller supplied failed with the given text. -/
  | stream (text : Bytes)
  /-- The operating system refused with the given text. -/
  | system (text : Bytes)
deriving DecidableEq, Repr

namespace Obstacle

def message : Obstacle → Bytes
  | .stream text => text
  | .system text => text

def faults : Obstacle → List Fault
  | .stream _ => [.stream]
  | .system _ => []

end Obstacle

end BankedLinker
