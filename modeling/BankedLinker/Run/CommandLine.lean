import BankedLinker.Run.Options
import BankedLinker.Run.PadByte

/-!
# The command line

Flags come first, object files after them. A flag is written with one or two dashes; its value
follows behind an equals sign or as the next argument. Switches need no value. The flags end at
the first argument that is none, or behind `--`.
-/

namespace BankedLinker.CommandLine

/-! ## Flags -/

/-- The flags. -/
inductive Flag where
  | output
  | symbolFile
  | mapFile
  | pad
  | tiny
  | wram0
  | dmg
  | warning
  | verify
  | debug
  | quiet
deriving DecidableEq, Repr

namespace Flag

/-- The flag of a name. -/
def ofName? (name : Bytes) : Option Flag :=
  let names : List (Bytes × Flag) :=
    [("o", output), ("n", symbolFile), ("m", mapFile), ("p", pad), ("t", tiny), ("w", wram0),
      ("d", dmg), ("W", warning), ("verify", verify), ("debug", debug), ("q", quiet)]
  names.lookup name

/-- Whether the flag is a switch. -/
def isSwitch : Flag → Bool
  | output | symbolFile | mapFile | pad | warning => false
  | tiny | wram0 | dmg | verify | debug | quiet => true

end Flag

/-- Why the flags could not be read. -/
inductive FlagError where
  /-- Help was asked for. -/
  | help
  | badSyntax (argument : Bytes)
  | undefined (name : Bytes)
  | badSwitch (name value : Bytes)
  | missingValue (name : Bytes)
  | badPad (name value : Bytes)
deriving DecidableEq, Repr

/-- The line that an error prints; a request for help is no error. -/
def FlagError.message? : FlagError → Option Bytes
  | .help => none
  | .badSyntax argument => some (Bytes.concat ["bad flag syntax: ", argument])
  | .undefined name => some (Bytes.concat ["flag provided but not defined: -", name])
  | .badSwitch name value =>
    some (Bytes.concat
      ["invalid boolean value ", Quoted.quote value, " for -", name, ": parse error"])
  | .missingValue name => some (Bytes.concat ["flag needs an argument: -", name])
  | .badPad name value =>
    some (Bytes.concat ["invalid value ", Quoted.quote value, " for flag -", name,
      ": invalid pad byte '", PadByte.spelledOut value,
      "', expected a value between 0 and 255"])

/-- The value of a switch. -/
def switchValue? (value : Bytes) : Option Bool :=
  let yes : List Bytes := ["1", "t", "T", "TRUE", "true", "True"]
  let no : List Bytes := ["0", "f", "F", "FALSE", "false", "False"]
  if yes.contains value then some true else if no.contains value then some false else none

/-- Sets a switch. -/
def setSwitch (o : Options) (flag : Flag) (value : Bool) : Options :=
  match flag with
  | .tiny => { o with tiny := value }
  | .wram0 => { o with wram0 := value }
  | .dmg => { o with dmg := value }
  | .verify => { o with verify := value }
  | .debug => { o with debug := value }
  | .quiet => { o with quiet := value }
  | _ => o

/-- Sets a flag that has a value. -/
def setValue (o : Options) (flag : Flag) (name value : Bytes) : Except FlagError Options :=
  match flag with
  | .output => .ok { o with output := value }
  | .symbolFile => .ok { o with symbolFile := value }
  | .mapFile => .ok { o with mapFile := value }
  | .warning => .ok { o with warnings := o.warnings ++ [value] }
  | .pad =>
    match PadByte.read? value with
    | some pad => .ok { o with pad }
    | none => .error (.badPad name value)
  | _ => .ok o

/-- Splits a flag at the first equals sign that is not its first character. -/
def splitValue : Bytes → Bytes × Option Bytes
  | [] => ([], none)
  | first :: rest =>
    let name := first :: rest.takeWhile (· ≠ 0x3D)
    match rest.dropWhile (· ≠ 0x3D) with
    | [] => (name, none)
    | _ :: value => (name, some value)

/-- What an argument is. -/
inductive Argument where
  /-- Not a flag. -/
  | operand
  /-- The end of the flags. -/
  | separator
  /-- A flag, with what stands behind its dashes. -/
  | flag (body : Bytes)
deriving DecidableEq, Repr

/-- Tells what an argument is. -/
def classify : Bytes → Argument
  | [0x2D, 0x2D] => .separator
  | 0x2D :: 0x2D :: body => .flag body
  | 0x2D :: b :: body => .flag (b :: body)
  | _ => .operand

/-- Whether what stands behind the dashes cannot be a flag. -/
def isBadBody (body : Bytes) : Bool :=
  match body with
  | [] => true
  | b :: _ => b = 0x2D || b = 0x3D

/-- Reads flags until they end. The result is the options and the arguments that follow. -/
def readFlags (o : Options) : List Bytes → Except FlagError (Options × List Bytes)
  | [] => .ok (o, [])
  | argument :: rest =>
    match classify argument with
    | .operand => .ok (o, argument :: rest)
    | .separator => .ok (o, rest)
    | .flag body =>
      if isBadBody body then .error (.badSyntax argument)
      else
        let (name, value?) := splitValue body
        match Flag.ofName? name with
        | none =>
          if name = "help" ∨ name = "h" then .error .help else .error (.undefined name)
        | some flag =>
          if flag.isSwitch then
            match value? with
            | none => readFlags (setSwitch o flag true) rest
            | some value =>
              match switchValue? value with
              | some on => readFlags (setSwitch o flag on) rest
              | none => .error (.badSwitch name value)
          else
            match value?, rest with
            | some value, rest =>
              match setValue o flag name value with
              | .ok o => readFlags o rest
              | .error e => .error e
            | none, value :: rest =>
              match setValue o flag name value with
              | .ok o => readFlags o rest
              | .error e => .error e
            | none, [] => .error (.missingValue name)

/-! ## Arguments -/

/-- What came of reading a command line. -/
inductive Reading where
  /-- The run can start. -/
  | accepted
  /-- The command line is not used as it should be. The text says why, if there is more to say,
  and `listFlags` tells whether a list of the flags helps. -/
  | misused (text : Bytes) (listFlags : Bool)
  /-- The options contradict each other. -/
  | invalid (error : SettingsError)
  /-- The flags could not be read. -/
  | stopped (error : FlagError)
deriving DecidableEq, Repr

/-- The first argument behind an object file that looks like a flag. -/
def lateFlag? (arguments : List Bytes) : Option Bytes :=
  (arguments.drop 1).find? fun a => a.head? = some 0x2D

/-- Judges the arguments that follow the flags. -/
def judge (o : Options) (arguments : List Bytes) : Options × Reading :=
  if arguments.isEmpty then (o, .misused [] true)
  else
    match lateFlag? arguments with
    | some late =>
      (o, .misused (Bytes.concat ["Potential argument ", late,
        " found after object files, please pass the object files as last arguments"]) false)
    | none =>
      match o.settings with
      | .error e => (o, .invalid e)
      | .ok _ =>
        if o.verify && o.output.isEmpty then
          (o, .misused "-verify requires an output ROM file set with -o" true)
        else ({ o with inputs := arguments }, .accepted)

/-- Reads a command line. -/
def read (arguments : List Bytes) : Options × Reading :=
  match readFlags {} arguments with
  | .error e => ({}, .stopped e)
  | .ok (o, rest) => judge o rest

/-! ## Help -/

/-- The list of the flags. -/
def flagList : Bytes := Bytes.concat
  ["  -W value\n    \twarning switch, repeatable: <name>, no-<name>, error=<name> or error. ",
    "Warnings: ", Bytes.joinWith ", " warningNames, "\n",
    "  -d\tDMG mode: only one VRAM bank, implies -w\n",
    "  -debug\n    \tenable debugging options for extended logging\n",
    "  -m string\n    \tname of the map file to write\n",
    "  -n string\n    \tname of the symbol file to write\n",
    "  -o string\n    \tname of the output ROM file, no file is written if no name given\n",
    "  -p value\n    \tpad byte for unused ROM space (default 0xFF)\n",
    "  -q\tperform operations quietly\n",
    "  -t\ttiny ROM: ROM0 spans 32 KiB and no ROMX banks are available\n",
    "  -verify\n    \tverify the written ROM file by reading it back and comparing all sections\n",
    "  -w\tWRAM0 spans 8 KiB and no WRAMX banks are available\n"]

namespace FlagError

/-- What is printed when the flags could not be read. -/
def output (e : FlagError) : Bytes :=
  let line : Bytes := match e.message? with
    | none => []
    | some message => Bytes.concat [message, "\n"]
  Bytes.concat [line, "Usage of retrolink:\n", flagList]

/-- The exit code when the flags could not be read. -/
def exitCode : FlagError → Nat
  | .help => 0
  | _ => 2

end FlagError

end BankedLinker.CommandLine
