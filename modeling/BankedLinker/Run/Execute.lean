import BankedLinker.Linker.Link
import BankedLinker.Object.Decode
import BankedLinker.Output.Verify
import BankedLinker.Run.FileSystem
import BankedLinker.Run.Options

/-!
# Executing a run

Loads the object files, links them, writes the files that the options ask for, and compares the
image with the sections if that is asked for. The first failure ends the run; in particular
nothing is written unless linking succeeded.
-/

namespace BankedLinker

/-- Why an object file could not be loaded. -/
inductive LoadError where
  | refused (path : Bytes) (error : PathError)
  | decode (path : Bytes) (error : Object.DecodeError)
deriving DecidableEq, Repr

namespace LoadError

def message : LoadError → Bytes
  | .refused path e => Bytes.concat ["opening file ", path, ": ", openMessage path e]
  | .decode path e => Bytes.concat ["reading object file ", path, ": ", e.message]

def faults : LoadError → List Fault
  | .refused _ _ => []
  | .decode _ e => e.faults

end LoadError

/-- The files that a run can write. -/
inductive OutputKind where
  | image
  | symbols
  | map
deriving DecidableEq, Repr

def OutputKind.name : OutputKind → Bytes
  | .image => "ROM"
  | .symbols => "symbol"
  | .map => "map"

/-- Why a run failed. -/
inductive RunError where
  | settings (error : SettingsError)
  | load (error : LoadError)
  /-- The run was cancelled after loading. -/
  | canceled
  | link (error : LinkError)
  /-- A file could not be created. -/
  | save (kind : OutputKind) (path : Bytes) (error : PathError)
  /-- There is no image to compare with. -/
  | nothingToVerify
  /-- The image could not be read back. -/
  | readBack (text : Bytes)
  | verify (error : Rom.VerifyError)
deriving Repr

namespace RunError

def message : RunError → Bytes
  | .settings e => Bytes.concat ["linking: creating link settings: ", e.message]
  | .load e => Bytes.concat ["linking: loading object files: ", e.message]
  | .canceled => Bytes.concat ["linking: loading object files: ", Fault.canceled.text]
  | .link e => Bytes.concat ["linking: ", e.message]
  | .save kind path e =>
    Bytes.concat ["linking: writing ", kind.name, " file: creating file '", path, "': ",
      openMessage path e]
  | .nothingToVerify => "linking: verification failed: can not verify without output file"
  | .readBack text =>
    Bytes.concat ["linking: verification failed: reading ROM file for comparison: ", text]
  | .verify e => Bytes.concat ["linking: verification failed: ", e.message]

def faults : RunError → List Fault
  | .load e => e.faults
  | .canceled => [.canceled]
  | .link e => e.faults
  | _ => []

end RunError

/-- A run in progress: it can fail, it keeps a log, and it works on files. -/
abbrev Run (m : Type → Type) := ExceptT RunError (StateT Log m)

namespace Run

variable {m : Type → Type} [Monad m]

/-- Adds records to the log. -/
def say (records : List LogRecord) : Run m Unit :=
  modify (· ++ records.toArray)

/-- Adds an information to the log. -/
def inform (message : Bytes) (attributes : List Attribute) : Run m Unit :=
  say [{ level := .info, message, attributes }]

/-- Works on files. -/
def onFiles {α : Type} (action : m α) : Run m α :=
  ExceptT.lift (StateT.lift action)

/-! ## Loading -/

/-- Decodes what stands at a path. -/
def decodeEntry (path : Bytes) (index : Int) : Entry → Except Object.DecodeError ObjectFile
  | .file content => (Object.decode path index content).map (·.1)
  | .directory =>
    (Object.decodeStopped path index [] (.system (readMessage path .isADirectory))).map (·.1)

/-- Loads the object file at a path. -/
def loadFile (fs : FileSystem m) (path : Bytes) (index : Int) : Run m ObjectFile := do
  match ← onFiles (fs.load path) with
  | .error e => throw (.load (.refused path e))
  | .ok entry =>
    match decodeEntry path index entry with
    | .error e => throw (.load (.decode path e))
    | .ok f =>
      say [{ level := .debug, message := "Loaded object file"
             attributes := [.text "file" path, .number "symbols" f.symbols.length,
               .number "sections" f.sections.length,
               .number "assertions" f.assertions.length] }]
      return f

/-- Loads object files in order; the first one gets the given index. -/
def loadFiles (fs : FileSystem m) (index : Int) : List Bytes → Run m (List ObjectFile)
  | [] => return []
  | path :: rest => do
    let f ← loadFile fs path index
    let others ← loadFiles fs (index + 1) rest
    return f :: others

/-! ## Linking -/

/-- Links object files. Loading has looked at the cancellation once. -/
def linkFiles (settings : Settings) (files : List ObjectFile) (cancellation : Cancellation) :
    Run m Program := do
  let linker := Linker.start settings.map settings.warnings files
  let (linker, result) := linker.link settings.pad cancellation 1
  say linker.diagnostics.log.toList
  match result with
  | .error e => throw (.link e)
  | .ok program => return program

/-! ## Writing -/

/-- Writes a file if its path is not empty. -/
def saveFile (fs : FileSystem m) (kind : OutputKind) (path content : Bytes) : Run m Unit := do
  match ← onFiles (fs.save path content) with
  | .error e => throw (.save kind path e)
  | .ok () => return ()

/-- Writes the files that the options ask for. -/
def saveOutput (fs : FileSystem m) (o : Options) (p : Program) : Run m Unit := do
  if !o.output.isEmpty then
    saveFile fs .image o.output p.image.toList
    inform "ROM written" [.text "file" o.output, .hex "size" 0 p.image.size]
  if !o.symbolFile.isEmpty then saveFile fs .symbols o.symbolFile p.symbolFile.text
  if !o.mapFile.isEmpty then saveFile fs .map o.mapFile p.mapFile.text

/-! ## Verifying -/

/-- Reads the image back and compares it with the sections. -/
def verifyOutput (fs : FileSystem m) (o : Options) (p : Program) : Run m Unit := do
  if o.output.isEmpty then throw .nothingToVerify
  match ← onFiles (fs.load o.output) with
  | .error e => throw (.readBack (openMessage o.output e))
  | .ok .directory => throw (.readBack (readMessage o.output .isADirectory))
  | .ok (.file content) =>
    let (records, verdict) := Rom.verify p.map content.toArray p.sections
    say records
    match verdict with
    | .error e => throw (.verify e)
    | .ok () => inform "Verification successful" []

/-! ## The whole run -/

/-- Executes a run. -/
def execute (fs : FileSystem m) (o : Options) (cancellation : Cancellation) : Run m Unit := do
  match o.settings with
  | .error e => throw (.settings e)
  | .ok settings =>
    say o.introduction
    let files ← loadFiles fs 0 o.inputs
    if cancellation.showsAt 0 then throw .canceled
    let program ← linkFiles settings files cancellation
    saveOutput fs o program
    if o.verify then verifyOutput fs o program
    inform "Linking completed"
      [.number "sections" program.sections.length, .number "warnings" program.warnings]

/-- Executes a run and returns its log with its result. -/
def start (fs : FileSystem m) (o : Options) (cancellation : Cancellation) :
    m (Except RunError Unit × Log) :=
  StateT.run (ExceptT.run (execute fs o cancellation)) #[]

end Run

end BankedLinker
