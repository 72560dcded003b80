import BankedLinker.Log
import BankedLinker.Output.Rom

/-!
# Verifying an image

Compares an image with the sections that should be stored in it. Bytes between the sections are
not looked at.
-/

namespace BankedLinker.Rom

/-- A byte of the image that differs from its section. -/
structure Mismatch where
  offset : Nat
  expected : UInt8
  found : UInt8
deriving DecidableEq, Repr

/-- The positions at which two byte strings differ, as far as the shorter one goes. -/
def mismatches (expected found : Bytes) : List Mismatch :=
  (expected.zip found).zipIdx.filterMap fun ((e, f), offset) =>
    if e = f then none else some ⟨offset, e, f⟩

/-- How a section differs from its place in the image. -/
inductive Difference where
  | length (expected found : Nat)
  | content (mismatches : List Mismatch)
deriving DecidableEq, Repr

def Difference.message : Difference → Bytes
  | .length expected found =>
    Bytes.concat ["mismatched lengths, ", Numeral.decimal expected, " != ", Numeral.decimal found]
  | .content mismatches =>
    Bytes.concat [Numeral.decimal mismatches.length, " offset mismatches"]

/-- The difference between the bytes of a section and those of the image, if there is one. -/
def difference? (expected found : Bytes) : Option Difference :=
  if expected.length ≠ found.length then some (.length expected.length found.length)
  else
    match mismatches expected found with
    | [] => none
    | list => some (.content list)

/-- Why an image was not accepted. -/
inductive VerifyError where
  /-- A section ends after the end of the image. -/
  | tooShort (subject : Merged) (stop size : Nat)
  | sectionsDiffer (count : Nat)
deriving Repr

def VerifyError.message : VerifyError → Bytes
  | .tooShort subject stop size =>
    Bytes.concat [subject.describe, " ends at ROM offset $", Numeral.hexUpper 0 stop,
      " beyond the ROM size $", Numeral.hexUpper 0 size]
  | .sectionsDiffer count => Bytes.concat [Numeral.decimal count, " section(s) mismatch"]

/-- The number of mismatches that are shown for a section. -/
def shownMismatches : Nat := 9

/-- The record of a mismatch. -/
def Mismatch.record (m : Mismatch) : LogRecord where
  level := .error
  message := "Offset mismatch"
  attributes :=
    [.hex "offset" 0 m.offset, .hex "expected" 2 m.expected.toNat, .hex "got" 2 m.found.toNat]

/-- The records of a section that differs. -/
def Difference.records (subject : Merged) (d : Difference) : List LogRecord :=
  let details := match d with
    | .length _ _ => []
    | .content list => (list.take shownMismatches).map Mismatch.record
  details ++ [{ level := .error, message := "Section mismatch",
                attributes := [.text "section" subject.name, .failure d.message] }]

/-- The bytes of an image from a position up to another. -/
def slice (image : Array UInt8) (start stop : Nat) : Bytes :=
  (image.extract start stop).toList

/-- Compares sections with an image. `failed` sections differed before. The result is what is
reported on the way and the verdict. -/
def verifyFrom (map : MemoryMap) (image : Array UInt8) (failed : Nat) :
    List Merged → List LogRecord × Except VerifyError Unit
  | [] => ([], if failed = 0 then .ok () else .error (.sectionsDiffer failed))
  | m :: rest =>
    if isStored m then
      let start := position map m
      let stop := start + m.size.toNat
      if image.size < stop then ([], .error (.tooShort m stop image.size))
      else
        match difference? m.data.toList (slice image start stop) with
        | none => verifyFrom map image failed rest
        | some d =>
          let (records, verdict) := verifyFrom map image (failed + 1) rest
          (d.records m ++ records, verdict)
    else verifyFrom map image failed rest

/-- Compares all sections with an image. -/
def verify (map : MemoryMap) (image : Array UInt8) (sections : List Merged) :
    List LogRecord × Except VerifyError Unit :=
  verifyFrom map image 0 sections

end BankedLinker.Rom
