import BankedLinker.Log
import BankedLinker.Problem

/-!
# Diagnostics

Collects the problems and warnings of a run together with its log. Switches decide for each kind
of warning whether it is shown, dropped or counted as a problem.
-/

namespace BankedLinker

/-! ## Switches -/

/-- How a warning is treated. -/
inductive WarningMode where
  | on
  | off
  | error
deriving DecidableEq, Repr

/-- The settings for warnings. A warning without a mode is on. -/
structure WarningOptions where
  modes : List (Bytes × WarningMode) := []
  /-- Every warning that is not off counts as a problem. -/
  allAsErrors : Bool := false
deriving DecidableEq, Repr, Inhabited

/-- The names of the warnings in alphabetical order. -/
def warningNames : List Bytes :=
  ["assert", "div", "shift-amount"]

/-- A switch names no warning. -/
structure UnknownWarning where
  name : Bytes
deriving DecidableEq, Repr

def UnknownWarning.message (e : UnknownWarning) : Bytes :=
  Bytes.concat
    ["unknown warning '", e.name, "', valid warnings: ", Bytes.joinWith ", " warningNames]

namespace WarningOptions

/-- The mode of a warning. -/
def mode (o : WarningOptions) (name : Bytes) : WarningMode :=
  (o.modes.lookup name).getD .on

/-- Sets the mode of a warning. -/
def setMode (o : WarningOptions) (name : Bytes) (mode : WarningMode) : WarningOptions :=
  { o with modes := o.modes.filter (·.1 ≠ name) ++ [(name, mode)] }

/-- The mode that a switch sets and the warning that it names. -/
def readSwitch (switch : Bytes) : WarningMode × Bytes :=
  match Bytes.dropStart? "no-" switch, Bytes.dropStart? "error=" switch with
  | some name, _ => (.off, name)
  | none, some name => (.error, name)
  | none, none => (.on, switch)

/-- Applies a switch: a name turns a warning on, `no-` in front of it turns it off, `error=` in
front of it makes it a problem, and `error` alone makes all warnings problems. -/
def apply (o : WarningOptions) (switch : Bytes) : Except UnknownWarning WarningOptions :=
  if switch = "error" then .ok { o with allAsErrors := true }
  else
    let (mode, name) := readSwitch switch
    if warningNames.contains name then .ok (o.setMode name mode) else .error ⟨name⟩

end WarningOptions

/-! ## Collected problems -/

/-- The problems, warnings and log records of a run. -/
structure Diagnostics where
  options : WarningOptions := {}
  problems : Array Problem := #[]
  /-- The number of warnings that were shown. -/
  warnings : Nat := 0
  log : Log := #[]
deriving Repr, Inhabited

namespace Diagnostics

/-- Adds a record to the log. -/
def note (d : Diagnostics) (level : Level) (message : Bytes) (attributes : List Attribute) :
    Diagnostics :=
  { d with log := d.log.push { level, message, attributes } }

/-- Records a problem. -/
def report (d : Diagnostics) (p : Problem) : Diagnostics :=
  { d with problems := d.problems.push p }.note .error "Link error" [.failure p.message]

/-- Raises a warning. -/
def warn (d : Diagnostics) (w : Warning) : Diagnostics :=
  let mode := d.options.mode w.switchName
  if mode = .off then d
  else if mode = .error ∨ d.options.allAsErrors then d.report (.promoted w)
  else
    { d with warnings := d.warnings + 1 }.note .warning "Link warning"
      [.text "warning" w.switchName, .failure w.message]

/-- Raises warnings in order. -/
def warnAll (d : Diagnostics) (ws : List Warning) : Diagnostics :=
  ws.foldl warn d

/-- The number of problems. -/
def problemCount (d : Diagnostics) : Nat :=
  d.problems.size

end Diagnostics

end BankedLinker
