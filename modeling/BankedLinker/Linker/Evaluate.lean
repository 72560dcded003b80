import BankedLinker.Expr.Machine
import BankedLinker.Linker.Basic

/-!
# Evaluating expressions

Answers the questions of the stack machine from the state of the linker: values and banks of
symbols, and what is known of sections.
-/

namespace BankedLinker.Linker

/-- A number as a value of the machine. -/
def ofWord (w : UInt32) : Int32 :=
  w.toInt32

/-- The bank of a section of a file, if its region offers a choice of banks. -/
def bankOfSection (lk : Linker) (f : ObjectFile) (s : Section) : Except LookupError UInt32 :=
  if (lk.map.region s.kind).isBanked then .ok (lk.registry.bank f s)
  else .error (.sectionNotBanked (f.describe s))

/-- The bank of a label. -/
def bankOfDefinition (lk : Linker) (d : Definition) : Except LookupError UInt32 :=
  match d.ownerSection? with
  | none => .error (.constantHasNoBank d.symbol.name)
  | some s => lk.bankOfSection d.file s

/-- The value of an exported name. -/
def resolve (lk : Linker) (name : Bytes) : Except LookupError Int32 :=
  (lk.table.resolve name).map lk.registry.address

/-- The bank of an exported name. -/
def bankOf (lk : Linker) (name : Bytes) : Except LookupError UInt32 := do
  lk.bankOfDefinition (← lk.table.resolve name)

/-- What a query about a merged section answers. Its bank is that of the first member. -/
def querySection (lk : Linker) (q : Expr.SectionQuery) (name : Bytes) :
    Except Expr.EvalError Int32 :=
  match lk.registry.find? name with
  | none => .error (.undefinedSection name)
  | some m =>
    match q with
    | .size => .ok (ofWord m.size)
    | .start => .ok (ofWord m.org.toUInt32)
    | .bank =>
      match m.members[0]? with
      | none => .error (.undefinedSection name)
      | some first =>
        match lk.bankOfSection first.file first.content with
        | .ok bank => .ok (ofWord bank)
        | .error e => .error (.lookup e)

/-- The address of the instruction that a patch of a file belongs to. -/
def hereOf (lk : Linker) (f : ObjectFile) (p : Patch) : Except Expr.EvalError Int32 :=
  match f.sectionAt? p.pcSection with
  | none => .error .hereOutside
  | some s => .ok (ofWord ((lk.registry.org f s).toUInt32 + p.pcOffset))

/-- The bank of the instruction that a patch of a file belongs to. -/
def bankHereOf (lk : Linker) (f : ObjectFile) (p : Patch) : Except Expr.EvalError Int32 :=
  match f.sectionAt? p.pcSection with
  | none => .error .bankHereOutside
  | some s =>
    match lk.bankOfSection f s with
    | .ok bank => .ok (ofWord bank)
    | .error e => .error (.lookup e)

/-- The answers for the expression of a patch of a file. -/
def environment (lk : Linker) (f : ObjectFile) (p : Patch) : Expr.Environment where
  map := lk.map
  symbolCount := f.symbols.length
  here := lk.hereOf f p
  bankHere := lk.bankHereOf f p
  symbol index := (lk.table.definition f index).map lk.registry.address
  symbolBank index := do
    return ofWord (← lk.bankOfDefinition (← lk.table.definition f index))
  query := lk.querySection

/-- Evaluates the expression of a patch of a file. Warnings are raised on the way. -/
def evaluate (lk : Linker) (f : ObjectFile) (p : Patch) : Linker × Except Expr.EvalError Int32 :=
  let evaluation := (lk.environment f p).run p.expr
  let warnings := evaluation.cautions.map (Warning.caution (f.trace p.source))
  ({ lk with diagnostics := lk.diagnostics.warnAll warnings }, evaluation.result)

end BankedLinker.Linker
