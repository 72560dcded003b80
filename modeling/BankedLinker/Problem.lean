import BankedLinker.Patch.Value
import BankedLinker.Placement.Assign
import BankedLinker.Symbol.Table

/-!
# Problems and warnings

What a link run can find wrong with a program. A problem makes the run fail; a warning does not,
unless it is promoted to a problem.
-/

namespace BankedLinker

/-- Something suspicious, with the name of the switch that controls it. -/
inductive Warning where
  /-- Evaluation raised a warning at a place of the sources. -/
  | caution (trace : Bytes) (caution : Expr.Caution)
  /-- An assertion of the weakest level does not hold. -/
  | assertion (trace message : Bytes)
  /-- A remark of the caller under a switch name of its own. -/
  | remark (switchName message : Bytes)
deriving DecidableEq, Repr

/-- The text of an assertion that does not hold. -/
def failedAssertionMessage (trace message : Bytes) : Bytes :=
  Fault.assertion.says [trace, ": ", message]

namespace Warning

def switchName : Warning → Bytes
  | .caution _ c => c.switchName
  | .assertion _ _ => "assert"
  | .remark name _ => name

def message : Warning → Bytes
  | .caution trace c => Bytes.concat [trace, ": ", c.message]
  | .assertion trace message => failedAssertionMessage trace message
  | .remark _ message => message

def faults : Warning → List Fault
  | .assertion _ _ => [.assertion]
  | _ => []

end Warning

/-- Something wrong. -/
inductive Problem where
  | duplicateExport (error : DuplicateExport)
  /-- A section of a file cannot be merged. -/
  | conflict (file : ObjectFile) (subject : Section) (conflict : Conflict)
  /-- A merged section cannot be placed. -/
  | placement (subject : Merged) (error : PlacementError)
  /-- A patch of a section of a file cannot be applied. -/
  | patch (file : ObjectFile) (owner : Section) (patch : Patch) (error : PatchError)
  /-- The expression of an assertion has no value. -/
  | assertionExpr (trace : Bytes) (error : Expr.EvalError)
  /-- An assertion does not hold. -/
  | assertion (trace message : Bytes)
  /-- A warning that counts as a problem. -/
  | promoted (warning : Warning)
  /-- A remark of the caller. -/
  | remark (message : Bytes)
deriving Repr

namespace Problem

def message : Problem → Bytes
  | .duplicateExport e => e.message
  | .conflict file subject c => c.message (file.describe subject)
  | .placement subject e => e.message subject
  | .patch file owner p e =>
    Bytes.concat [file.trace p.source, ": patch at offset $", Numeral.hexUpper 0 p.offset.toNat,
      " of ", file.describe owner, ": ", e.message]
  | .assertionExpr trace e => Bytes.concat [trace, ": assertion: ", e.message]
  | .assertion trace message => failedAssertionMessage trace message
  | .promoted w => Bytes.concat [w.message, " [-Werror=", w.switchName, "]"]
  | .remark message => message

def faults : Problem → List Fault
  | .duplicateExport e => e.faults
  | .conflict _ _ c => c.faults
  | .placement _ e => e.faults
  | .patch _ _ _ e => e.faults
  | .assertionExpr _ e => e.faults
  | .assertion _ _ => [.assertion]
  | .promoted w => w.faults
  | .remark _ => []

end Problem

/-- Problems one below the other. -/
def joinedMessage (problems : List Problem) : Bytes :=
  Bytes.joinWith "\n" (problems.map Problem.message)

end BankedLinker
