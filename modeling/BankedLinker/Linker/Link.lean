import BankedLinker.Linker.Patch
import BankedLinker.Output.MapFile
import BankedLinker.Output.Rom
import BankedLinker.Output.SymbolFile

/-!
# A link run

Links object files in three stages: symbols and sections are collected, sections are placed, and
patches and assertions are worked off. A stage that left a problem ends the run, and so does a
cancellation, which is looked for after each stage. What comes out of a run without problems is a
`Program`.
-/

namespace BankedLinker

/-- When a run is cancelled: after how many looks at the cancellation it shows, if it ever
does. -/
structure Cancellation where
  after : Option Nat := none
deriving DecidableEq, Repr, Inhabited

/-- Whether the look number `look`, counted from zero, finds the run cancelled. -/
def Cancellation.showsAt (c : Cancellation) (look : Nat) : Bool :=
  c.after.any (· ≤ look)

/-- The stages of a run. -/
inductive Stage where
  | merging
  | assigning
  | patching
deriving DecidableEq, Repr

namespace Stage

def name : Stage → Bytes
  | .merging => "merging symbols and sections"
  | .assigning => "assigning sections"
  | .patching => "applying patches"

/-- The number of stages before this one. -/
def index : Stage → Nat
  | .merging => 0
  | .assigning => 1
  | .patching => 2

end Stage

/-- Why a run ended early. -/
inductive LinkError where
  /-- A stage left problems. -/
  | problems (stage : Stage) (problems : List Problem)
  /-- The run was cancelled. -/
  | canceled (stage : Stage)
  /-- A patch is damaged. -/
  | damagedPatch (problem : Problem)
  /-- An assertion is damaged, or one of the highest level does not hold. -/
  | failedAssertion (problem : Problem)
deriving Repr

namespace LinkError

def message : LinkError → Bytes
  | .problems stage list =>
    Fault.linkFailed.says
      [stage.name, ": ", Numeral.decimal list.length, " error(s): ", joinedMessage list]
  | .canceled stage => Bytes.concat [stage.name, ": ", Fault.canceled.text]
  | .damagedPatch p => Bytes.concat ["applying patches: ", p.message]
  | .failedAssertion p => Bytes.concat ["checking assertions: ", p.message]

def faults : LinkError → List Fault
  | .problems _ list => .linkFailed :: list.flatMap Problem.faults
  | .canceled _ => [.canceled]
  | .damagedPatch p => p.faults
  | .failedAssertion p => p.faults

end LinkError

/-- A linked program. -/
structure Program where
  map : MemoryMap
  sections : List Merged
  labels : List PlacedLabel
  image : Array UInt8
  /-- The number of warnings that were shown. -/
  warnings : Nat

namespace Program

/-- The symbol file. -/
def symbolFile (p : Program) : Listing :=
  SymbolFile.listing p.labels

/-- The map file. -/
def mapFile (p : Program) : Listing :=
  MapFile.listing p.map p.sections p.labels

end Program

namespace Linker

/-- Ends the run if the stage left problems or if the run was cancelled. `looks` is the number of
looks at the cancellation before the first stage. -/
def finishStage (lk : Linker) (cancellation : Cancellation) (looks : Nat) (stage : Stage) :
    Except LinkError Linker :=
  if lk.diagnostics.problemCount ≠ 0 then .error (.problems stage lk.diagnostics.problems.toList)
  else if cancellation.showsAt (looks + stage.index) then .error (.canceled stage)
  else .ok (lk.debug "Stage completed" [.text "stage" stage.name])

/-- Notes the imports that nobody exports. -/
def noteUnresolved (lk : Linker) : Linker :=
  lk.table.unresolved.foldl
    (fun lk name => lk.debug "Imported symbol without export" [.text "symbol" name]) lk

/-- Works through files until one of them ends the work. -/
def forFiles (work : Linker → ObjectFile → Linker × Except Problem Unit) (lk : Linker) :
    List ObjectFile → Linker × Except Problem Unit
  | [] => (lk, .ok ())
  | f :: rest =>
    match work lk f with
    | (lk, .ok ()) => lk.forFiles work rest
    | (lk, .error p) => (lk, .error p)

/-- Builds the image of the placed sections. -/
def buildImage (lk : Linker) (pad : UInt8) : Linker × Array UInt8 :=
  (lk.debug "Built ROM image"
    [.hex "size" 8 (Rom.size lk.map lk.sections).toNat,
      .number "romx_banks" (Rom.bankCount lk.map lk.sections).toNat],
    Rom.image lk.map pad lk.sections)

/-- Makes a program of a linker that has gone through all stages. -/
def finish (lk : Linker) (pad : UInt8) : Linker × Program :=
  let (lk, image) := lk.buildImage pad
  let warnings := lk.diagnostics.warnings
  (lk.debug "Link completed"
    [.number "files" lk.files.length, .number "sections" lk.sections.length,
      .number "exports" lk.table.size, .number "warnings" warnings],
    { map := lk.map, sections := lk.sections, labels := lk.labels, image, warnings })

/-- Works off patches and assertions and makes the program. -/
def patchStage (lk : Linker) (pad : UInt8) (cancellation : Cancellation) (looks : Nat) :
    Linker × Except LinkError Program :=
  let files := lk.files
  match lk.forFiles applyFile files with
  | (lk, .error p) => (lk, .error (.damagedPatch p))
  | (lk, .ok ()) =>
    match lk.forFiles checkAssertions files with
    | (lk, .error p) => (lk, .error (.failedAssertion p))
    | (lk, .ok ()) =>
      match lk.finishStage cancellation looks .patching with
      | .error e => (lk, .error e)
      | .ok lk =>
        let (lk, program) := lk.finish pad
        (lk, .ok program)

/-- Places the sections and goes on to the patches. -/
def assignStage (lk : Linker) (pad : UInt8) (cancellation : Cancellation) (looks : Nat) :
    Linker × Except LinkError Program :=
  let lk := lk.noteUnresolved.assign
  match lk.finishStage cancellation looks .assigning with
  | .error e => (lk, .error e)
  | .ok lk => lk.patchStage pad cancellation looks

/-- Links the files of a fresh linker. -/
def link (lk : Linker) (pad : UInt8) (cancellation : Cancellation) (looks : Nat) :
    Linker × Except LinkError Program :=
  let lk := lk.files.foldl addFile lk
  match lk.finishStage cancellation looks .merging with
  | .error e => (lk, .error e)
  | .ok lk => lk.assignStage pad cancellation looks

end Linker

end BankedLinker
