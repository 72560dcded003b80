import BankedLinker.Expr.Error
import BankedLinker.Object.Basic

/-!
# Patched values

How the value of an expression becomes the bytes of a patch: which values fit, how a relative
jump measures its distance, and in which order the bytes stand.
-/

namespace BankedLinker

/-- Why a patch cannot be applied. -/
inductive PatchError where
  /-- The expression has no value. -/
  | eval (error : Expr.EvalError)
  /-- A relative jump belongs to no section. -/
  | jumpOutside
  | jumpTooFar (distance : Int32)
  | doesNotFit (value : Int32) (width : Nat) (low high : Int32)
  /-- The patched bytes do not lie inside of the section. -/
  | outsideData (offset : UInt32)
deriving DecidableEq, Repr

namespace PatchError

def message : PatchError → Bytes
  | .eval error => error.message
  | .jumpOutside => Fault.corruptPatch.says ["relative jump outside of a section"]
  | .jumpTooFar distance =>
    Fault.valueOutOfRange.says ["jump target is ", Numeral.signed distance.toInt,
      " bytes away, must be in range [-128, 127]"]
  | .doesNotFit value width low high =>
    Fault.valueOutOfRange.says ["value ", Numeral.signed value.toInt, " does not fit into ",
      Numeral.decimal width, " byte(s), must be in range [", Numeral.signed low.toInt, ", ",
      Numeral.signed high.toInt, "]"]
  | .outsideData offset =>
    Fault.corruptPatch.says
      ["offset $", Numeral.hexUpper 0 offset.toNat, " exceeds the section data"]

def faults : PatchError → List Fault
  | .eval error => error.faults
  | .jumpOutside => [.corruptPatch]
  | .jumpTooFar _ => [.valueOutOfRange]
  | .doesNotFit _ _ _ _ => [.valueOutOfRange]
  | .outsideData _ => [.corruptPatch]

/-- Whether the error means that the object file is damaged. Linking stops at such an error. -/
def isCorrupt (e : PatchError) : Bool :=
  e.faults.contains .corruptPatch

end PatchError

namespace PatchKind

/-- The least and the greatest value that fits, be it read with or without a sign. Four bytes
hold every value. -/
def limits? (k : PatchKind) : Option (Int32 × Int32) :=
  match k.width with
  | 1 => some (-128, 255)
  | 2 => some (-32768, 65535)
  | _ => none

/-- Refuses a value that does not fit. -/
def checkWidth (k : PatchKind) (value : Int32) : Except PatchError Unit :=
  match k.limits? with
  | none => .ok ()
  | some (low, high) =>
    if value < low ∨ high < value then .error (.doesNotFit value k.width low high) else .ok ()

/-- The bytes of a value. -/
def encode (k : PatchKind) (value : Int32) : Bytes :=
  let littleEndian := (Word.toBytes value.toUInt32).take k.width
  if k.isBigEndian then littleEndian.reverse else littleEndian

@[simp] theorem length_encode (k : PatchKind) (value : Int32) :
    (k.encode value).length = k.width := by
  have h : k.width ≤ 4 := by
    unfold width
    split
    · decide
    · split <;> decide
  unfold encode
  split <;> simp [Nat.min_eq_left h]

end PatchKind

/-- The distance of a relative jump from the instruction after it. -/
def jumpDistance (value : Int32) (org : UInt16) (pcOffset : UInt32) : Except PatchError Int32 :=
  let distance := value - (org.toUInt32 + pcOffset + 2).toInt32
  if distance < -128 ∨ 127 < distance then .error (.jumpTooFar distance) else .ok distance

end BankedLinker
