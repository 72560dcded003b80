import BankedLinker.Run.CommandLine
import BankedLinker.Run.Console
import BankedLinker.Run.Execute

/-!
# The program

From the arguments of the command line to what is printed and to the exit code.
-/

namespace BankedLinker.Shell

/-- What identifies a build of the program. -/
structure Build where
  version : Bytes := "dev"
  commit : Bytes := []
  date : Bytes := []
deriving DecidableEq, Repr, Inhabited

/-- What a run of the program leaves behind, files apart. -/
structure Result where
  exitCode : Nat
  standardOutput : Bytes
  standardError : Bytes
deriving DecidableEq, Repr

/-- What is printed of records under options. -/
def shown (o : Options) (records : List LogRecord) : Bytes :=
  Console.render (Log.atLeast records.toArray o.leastLevel)

/-- The banner of a build. -/
def banner (build : Build) (o : Options) : List LogRecord :=
  o.banner build.version build.commit build.date

/-- An error record. -/
def errorRecord (message : Bytes) (attributes : List Attribute) : LogRecord :=
  { level := .error, message, attributes }

/-- The answer to a command line that is not used as it should be. -/
def refuse (build : Build) (o : Options) (text : Bytes) (listFlags : Bool) : Result :=
  let complaint := if text.isEmpty then [] else [errorRecord text []]
  { exitCode := 1
    standardOutput := Bytes.concat [shown o (banner build o ++ complaint),
      "usage: retrolink [options] <object files...>\n\n", "\n"]
    standardError := if listFlags then CommandLine.flagList else [] }

/-- The last records of a run and its exit code. -/
def conclude : Except RunError Unit → List LogRecord × Nat
  | .ok () => ([], 0)
  | .error e =>
    if e.faults.contains .canceled then ([{ level := .info, message := "Operation cancelled" }], 0)
    else ([errorRecord "Linking failed" [.failure e.message]], 1)

/-- Runs the program on a file system. -/
def run {m : Type → Type} [Monad m] (fs : FileSystem m) (build : Build) (arguments : List Bytes) :
    m Result := do
  match CommandLine.read arguments with
  | (_, .stopped e) =>
    return { exitCode := e.exitCode, standardOutput := [], standardError := e.output }
  | (o, .misused text listFlags) => return refuse build o text listFlags
  | (o, .invalid e) =>
    return { exitCode := 1
             standardOutput := shown o [errorRecord "Invalid options" [.failure e.message]]
             standardError := [] }
  | (o, .accepted) =>
    let (result, log) ← Run.start fs o {}
    let (last, exitCode) := conclude result
    return { exitCode
             standardOutput := shown o (banner build o ++ log.toList ++ last)
             standardError := [] }

end BankedLinker.Shell
