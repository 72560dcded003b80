import BankedLinker.Run.Shell

/-!
# The executable

Hands the arguments and the file system of the machine to `Shell.run`, and prints what comes back.
-/

namespace BankedLinker.Executable

/-- The text of bytes; what is no text is dropped. -/
def textOf (s : Bytes) : String :=
  (String.fromUTF8? (ByteArray.mk s.toArray)).getD ""

/-- The number of the error that a name on the way is no directory. -/
def notADirectoryCode : UInt32 := 20

/-- The number of the error that a name or a path is too long. -/
def nameTooLongCode : UInt32 := 36

/-- What the operating system says about a path. -/
def pathError : IO.Error → PathError
  | .noFileOrDirectory .. => .notFound
  | .inappropriateType _ code _ =>
    if code = notADirectoryCode then .notADirectory else .isADirectory
  | .invalidArgument _ code _ => if code = nameTooLongCode then .nameTooLong else .invalid
  | e => .other (Bytes.ofString (toString e))

/-- Opens a file of the machine for reading. -/
def load (path : Bytes) : IO (Except PathError Entry) := do
  try
    let content ← IO.FS.readBinFile (textOf path)
    return .ok (.file content.data.toList)
  catch e =>
    match pathError e with
    | .isADirectory => return .ok .directory
    | refusal => return .error refusal

/-- Creates or replaces a file of the machine. -/
def save (path content : Bytes) : IO (Except PathError Unit) := do
  try
    IO.FS.writeBinFile (textOf path) (ByteArray.mk content.toArray)
    return .ok ()
  catch e => return .error (pathError e)

/-- The file system of the machine. -/
def fileSystem : FileSystem IO where
  load := load
  save := save

end BankedLinker.Executable

open BankedLinker in
/-- Links object files as the command line asks. -/
def main (arguments : List String) : IO UInt32 := do
  let result ← Shell.run Executable.fileSystem {} (arguments.map Bytes.ofString)
  let out ← IO.getStdout
  out.write (ByteArray.mk result.standardOutput.toArray)
  let err ← IO.getStderr
  err.write (ByteArray.mk result.standardError.toArray)
  return result.exitCode.toUInt32
