import BankedLinker.Expr.Opcode
import BankedLinker.Symbol.Lookup

/-!
# What evaluation reports

Why an expression has no value, and the warnings that evaluation raises on its way.
-/

namespace BankedLinker.Expr

/-- The two operators that divide. -/
inductive Division where
  | quotient
  | remainder
deriving DecidableEq, Repr

/-- The operator as messages show it. -/
def Division.symbol : Division → Bytes
  | .quotient => "/"
  | .remainder => "%"

/-- Why an expression has no value. -/
inductive EvalError where
  /-- An instruction needs more values than there are. -/
  | underflow (position : Nat)
  | truncatedOperand (position : Nat)
  | unterminatedString (position : Nat)
  | unknownOpcode (code : UInt8) (position : Nat)
  | noSuchSymbol (index : UInt32)
  /-- The number of values at the end is not one. -/
  | leftover (count : Nat)
  | divisionByZero (dividend : Int32) (op : Division)
  | negativeExponent (base exponent : Int32)
  | outOfRange (value low high : Int32)
  | undefinedSection (name : Bytes)
  /-- The current address is asked for outside of a section. -/
  | hereOutside
  /-- The current bank is asked for outside of a section. -/
  | bankHereOutside
  | lookup (error : LookupError)
deriving DecidableEq, Repr

namespace EvalError

def message : EvalError → Bytes
  | .underflow position => Fault.corruptPatch.says ["stack underflow at byte ", num position]
  | .truncatedOperand position =>
    Fault.corruptPatch.says ["truncated operand at byte ", num position]
  | .unterminatedString position =>
    Fault.corruptPatch.says ["unterminated string at byte ", num position]
  | .unknownOpcode code position =>
    Fault.corruptPatch.says
      ["unknown opcode $", Numeral.hexUpper 2 code.toNat, " at byte ", num position]
  | .noSuchSymbol index =>
    Fault.corruptPatch.says ["symbol index ", num index.toNat, " out of range"]
  | .leftover count => Fault.corruptPatch.says [num count, " values left on the stack"]
  | .divisionByZero dividend op =>
    Fault.divisionByZero.says [int dividend, " ", op.symbol, " 0"]
  | .negativeExponent base exponent =>
    Fault.negativeExponent.says [int base, " ** ", int exponent]
  | .outOfRange value low high =>
    Fault.valueOutOfRange.says
      ["value ", int value, " is not in range [", int low, ", ", int high, "]"]
  | .undefinedSection name => Bytes.concat [Fault.undefinedSection.text, " '", name, "'"]
  | .hereOutside => Fault.undefinedSection.says ["'@' used outside of a section"]
  | .bankHereOutside => Fault.undefinedSection.says ["BANK(@) used outside of a section"]
  | .lookup error => error.message
where
  num (n : Nat) : Bytes := Numeral.decimal n
  int (v : Int32) : Bytes := Numeral.signed v.toInt

def faults : EvalError → List Fault
  | .underflow _ => [.corruptPatch]
  | .truncatedOperand _ => [.corruptPatch]
  | .unterminatedString _ => [.corruptPatch]
  | .unknownOpcode _ _ => [.corruptPatch]
  | .noSuchSymbol _ => [.corruptPatch]
  | .leftover _ => [.corruptPatch]
  | .divisionByZero _ _ => [.divisionByZero]
  | .negativeExponent _ _ => [.negativeExponent]
  | .outOfRange _ _ _ => [.valueOutOfRange]
  | .undefinedSection _ => [.undefinedSection]
  | .hereOutside => [.undefinedSection]
  | .bankHereOutside => [.undefinedSection]
  | .lookup error => error.faults

end EvalError

/-- The direction that a shift operator is named after. -/
inductive Direction where
  | left
  | right
deriving DecidableEq, Repr

def Direction.name : Direction → Bytes
  | .left => "left"
  | .right => "right"

/-- What evaluation warns of. -/
inductive Caution where
  /-- The smallest number is divided by minus one. -/
  | overflow (dividend : Int32) (op : Division)
  | negativeShift (direction : Direction) (amount : Int32)
  | longShift (direction : Direction) (amount : Int32)
deriving DecidableEq, Repr

namespace Caution

def message : Caution → Bytes
  | .overflow dividend op =>
    Bytes.concat [Numeral.signed dividend.toInt, " ", op.symbol, " -1 overflows"]
  | .negativeShift direction amount =>
    Bytes.concat
      ["shifting ", direction.name, " by negative amount ", Numeral.signed amount.toInt]
  | .longShift direction amount =>
    Bytes.concat ["shifting ", direction.name, " by ", Numeral.signed amount.toInt, " bits"]

/-- The name under which a warning can be switched. -/
def switchName : Caution → Bytes
  | .overflow _ _ => "div"
  | .negativeShift _ _ => "shift-amount"
  | .longShift _ _ => "shift-amount"

end Caution

end BankedLinker.Expr
