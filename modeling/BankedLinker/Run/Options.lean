import BankedLinker.Diagnostics

/-!
# Options of a run

What the user asks for: which files to link, which files to write, and how. `Options.settings`
derives what the linker needs to know from it.
-/

namespace BankedLinker

/-- The byte that fills unused ROM space unless another one is asked for. -/
def defaultPad : UInt8 := 0xFF

/-- The options of a run. A path that is empty asks for no file. -/
structure Options where
  /-- The object files in the order in which they are linked. -/
  inputs : List Bytes := []
  /-- The image. -/
  output : Bytes := []
  symbolFile : Bytes := []
  mapFile : Bytes := []
  pad : UInt8 := defaultPad
  tiny : Bool := false
  wram0 : Bool := false
  dmg : Bool := false
  /-- The warning switches in the order in which they apply. -/
  warnings : List Bytes := []
  /-- Whether the image is read back and compared. -/
  verify : Bool := false
  /-- Whether everything is logged. -/
  debug : Bool := false
  /-- Whether only errors are logged. -/
  quiet : Bool := false
deriving DecidableEq, Repr, Inhabited

/-- What the linker needs to know. -/
structure Settings where
  map : MemoryMap
  warnings : WarningOptions
  pad : UInt8
deriving DecidableEq, Repr, Inhabited

/-- A warning switch is wrong. -/
structure SettingsError where
  cause : UnknownWarning
deriving DecidableEq, Repr

def SettingsError.message (e : SettingsError) : Bytes :=
  Bytes.concat ["parsing warning switch: ", e.cause.message]

/-- Applies warning switches in order; later ones override earlier ones. -/
def WarningOptions.applyAll (o : WarningOptions) :
    List Bytes → Except UnknownWarning WarningOptions
  | [] => .ok o
  | switch :: rest =>
    match o.apply switch with
    | .error e => .error e
    | .ok o => o.applyAll rest

namespace Options

/-- The memory map that the options select. -/
def map (o : Options) : MemoryMap :=
  { tiny := o.tiny, wram0 := o.wram0, dmg := o.dmg }

/-- The settings of the linker. -/
def settings (o : Options) : Except SettingsError Settings :=
  match WarningOptions.applyAll {} o.warnings with
  | .error e => .error ⟨e⟩
  | .ok warnings => .ok { map := o.map, warnings, pad := o.pad }

/-- The least level of the records that are shown. -/
def leastLevel (o : Options) : Level :=
  if o.debug then .debug else if o.quiet then .error else .info

/-! ## Introductory records -/

/-- The record of a region of a memory map. -/
def regionRecord (m : MemoryMap) (k : RegionKind) : LogRecord :=
  let r := m.region k
  if r.bankCount = 0 then
    { level := .debug, message := "Region disabled", attributes := [.text "region" k.name] }
  else
    { level := .debug, message := "Region"
      attributes := [.text "region" k.name, .hex "start" 4 r.start.toNat,
        .hex "size" 8 r.size.toNat, .number "first_bank" r.firstBank.toNat,
        .number "banks" r.bankCount.toNat] }

/-- What is said about a run before it starts. A quiet run says nothing. -/
def introduction (o : Options) : List LogRecord :=
  if o.quiet then []
  else
    let output : Bytes := if o.output.isEmpty then "none" else o.output
    { level := .info, message := "Linking object files"
      attributes := [.number "files" o.inputs.length, .text "output" output,
        .text "variant" o.map.variantName] } ::
      RegionKind.all.map (regionRecord o.map)

/-- What is said about the program itself. A quiet run says nothing. -/
def banner (o : Options) (version commit date : Bytes) : List LogRecord :=
  if o.quiet then []
  else
    let text := if commit.isEmpty then version else Bytes.concat [version, " commit: ", commit]
    let build : List LogRecord :=
      if date.isEmpty || Bytes.occursIn "unknown" date then []
      else [{ level := .info, message := "Build", attributes := [.text "date" date] }]
    { level := .info, message := "retrolink", attributes := [.text "version" text] } :: build

end Options

end BankedLinker
