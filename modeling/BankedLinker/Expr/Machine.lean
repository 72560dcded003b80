import BankedLinker.Expr.Arithmetic
import BankedLinker.Expr.Error
import BankedLinker.Region

/-!
# The stack machine

Executes the bytecode of an expression. All that the machine asks of the program around it goes
through an `Environment`, so a value depends on the answers of the environment and on nothing
else; in particular it never depends on the bytes of any section.

* `Instruction.read?` takes an instruction apart;
* `Environment.step` executes one on a stack, the topmost value first;
* `Environment.run` executes a whole expression and collects the warnings on the way.
-/

namespace BankedLinker.Expr

/-! ## Instructions -/

/-- An instruction of the machine. -/
inductive Instruction where
  | unary (op : UnaryOp)
  | binary (op : BinaryOp)
  | const (value : Int32)
  /-- The current address. -/
  | here
  | symbol (index : UInt32)
  | symbolBank (index : UInt32)
  | bankHere
  | query (q : SectionQuery) (name : Bytes)
  | range (low high : Int32)
deriving DecidableEq, Repr

/-- The word at the front. -/
def word? : Bytes → Option UInt32
  | b₀ :: b₁ :: b₂ :: b₃ :: _ => some (Word.ofBytes b₀ b₁ b₂ b₃)
  | _ => none

/-- The bytes in front of the first zero byte. -/
def string? : Bytes → Option Bytes
  | [] => none
  | b :: rest => if b = 0 then some [] else (string? rest).map (b :: ·)

/-- An instruction that is followed by a word. -/
def Instruction.withWord (position : Nat) (rest : Bytes) (make : UInt32 → Instruction) :
    Except EvalError (Instruction × Nat) :=
  match word? rest with
  | some w => .ok (make w, 4)
  | none => .error (.truncatedOperand (position + 1))

/-- The instruction whose first byte is `code`, together with the number of operand bytes that it
takes from `rest`. The position of the first byte is used in messages. -/
def Instruction.read (position : Nat) (code : UInt8) (rest : Bytes) :
    Except EvalError (Instruction × Nat) :=
  match UnaryOp.ofOpcode? code, BinaryOp.ofOpcode? code, SectionQuery.ofOpcode? code with
  | some op, _, _ => .ok (.unary op, 0)
  | _, some op, _ => .ok (.binary op, 0)
  | _, _, some q =>
    match string? rest with
    | some name => .ok (.query q name, name.length + 1)
    | none => .error (.unterminatedString (position + 1))
  | none, none, none =>
    if code = constOpcode then withWord position rest fun w => .const w.toInt32
    else if code = symbolOpcode then
      withWord position rest fun w => if w = noIndex then .here else .symbol w
    else if code = symbolBankOpcode then withWord position rest .symbolBank
    else if code = bankHereOpcode then .ok (.bankHere, 0)
    else if code = rangeOpcode then
      match word? rest, word? (rest.drop 4) with
      | some low, some high => .ok (.range low.toInt32 high.toInt32, 8)
      | some _, none => .error (.truncatedOperand (position + 5))
      | none, _ => .error (.truncatedOperand (position + 1))
    else .error (.unknownOpcode code position)

/-! ## Execution -/

/-- The answers that an expression can ask for. -/
structure Environment where
  map : MemoryMap
  /-- The number of symbols of the file that the expression belongs to. -/
  symbolCount : Nat
  /-- The current address. -/
  here : Except EvalError Int32
  /-- The current bank. -/
  bankHere : Except EvalError Int32
  /-- The value of a symbol of the file. -/
  symbol : UInt32 → Except LookupError Int32
  /-- The bank of a symbol of the file. -/
  symbolBank : UInt32 → Except LookupError Int32
  /-- What is known of a section. -/
  query : SectionQuery → Bytes → Except EvalError Int32

/-- The warning that a shift by `amount` raises. -/
def shiftCautions (direction : Direction) (amount : Int32) : List Caution :=
  if amount < 0 then [.negativeShift direction amount]
  else if 32 ≤ amount then [.longShift direction amount]
  else []

/-- The result of a division and the warning that it raises. -/
def divide (op : Division) (a b : Int32) : Except EvalError (Int32 × List Caution) :=
  if b = 0 then .error (.divisionByZero a op)
  else
    let value := match op with
      | .quotient => a / b
      | .remainder => a % b
    .ok (value, if a = Int32.minValue ∧ b = -1 then [.overflow a op] else [])

/-- The value of a binary operator on `a`, which was pushed first, and `b`. -/
def BinaryOp.apply (op : BinaryOp) (a b : Int32) : Except EvalError (Int32 × List Caution) :=
  match op with
  | .add => .ok (a + b, [])
  | .sub => .ok (a - b, [])
  | .mul => .ok (a * b, [])
  | .div => divide .quotient a b
  | .mod => divide .remainder a b
  | .exp =>
    if b < 0 then .error (.negativeExponent a b) else .ok (power a b.toInt.natAbs, [])
  | .or => .ok (a ||| b, [])
  | .and => .ok (a &&& b, [])
  | .xor => .ok (a ^^^ b, [])
  | .logicalAnd => .ok (ofBool (a ≠ 0 && b ≠ 0), [])
  | .logicalOr => .ok (ofBool (a ≠ 0 || b ≠ 0), [])
  | .eq => .ok (ofBool (a = b), [])
  | .ne => .ok (ofBool (a ≠ b), [])
  | .gt => .ok (ofBool (b < a), [])
  | .lt => .ok (ofBool (a < b), [])
  | .ge => .ok (ofBool (b ≤ a), [])
  | .le => .ok (ofBool (a ≤ b), [])
  | .shiftLeft => .ok (Expr.shiftLeft a b, shiftCautions .left b)
  | .shiftRight => .ok (Expr.shiftRight a b, shiftCautions .right b)
  | .shiftRightUnsigned => .ok (Expr.shiftRightUnsigned a b, shiftCautions .right b)

/-- The value of a unary operator. -/
def UnaryOp.apply (map : MemoryMap) (op : UnaryOp) (a : Int32) : Int32 :=
  match op with
  | .negate => -a
  | .complement => ~~~a
  | .logicalNot => ofBool (a = 0)
  | .inHighPage => ofBool (map.inHighPage a)
  | .isRestartTarget => ofBool (map.isRestartTarget a)

namespace Environment

/-- A look-up of a symbol of the file, if there is one of this index. -/
def lookup (env : Environment) (find : UInt32 → Except LookupError Int32) (index : UInt32) :
    Except EvalError Int32 :=
  if env.symbolCount ≤ index.toNat then .error (.noSuchSymbol index)
  else
    match find index with
    | .ok value => .ok value
    | .error e => .error (.lookup e)

/-- Puts the result of a query on the stack. -/
def push (result : Except EvalError Int32) (stack : List Int32) :
    Except EvalError (List Int32 × List Caution) :=
  match result with
  | .ok value => .ok (value :: stack, [])
  | .error e => .error e

/-- Executes an instruction whose last byte is at `position`. -/
def step (env : Environment) (position : Nat) (instruction : Instruction) (stack : List Int32) :
    Except EvalError (List Int32 × List Caution) :=
  match instruction, stack with
  | .unary op, a :: rest => .ok (op.apply env.map a :: rest, [])
  | .binary op, b :: a :: rest =>
    match op.apply a b with
    | .ok (value, cautions) => .ok (value :: rest, cautions)
    | .error e => .error e
  | .range low high, v :: rest =>
    if v < low ∨ high < v then .error (.outOfRange v low high) else .ok (v :: rest, [])
  | .unary _, [] => .error (.underflow position)
  | .binary _, _ => .error (.underflow position)
  | .range _ _, [] => .error (.underflow position)
  | .const value, _ => .ok (value :: stack, [])
  | .here, _ => push env.here stack
  | .symbol index, _ => push (env.lookup env.symbol index) stack
  | .symbolBank index, _ => push (env.lookup env.symbolBank index) stack
  | .bankHere, _ => push env.bankHere stack
  | .query q name, _ => push (env.query q name) stack

/-- The outcome of an evaluation: the warnings in the order in which they were raised, and the
value or the reason why there is none. -/
structure Evaluation where
  cautions : List Caution
  result : Except EvalError Int32

/-- Executes the rest of an expression on a stack. -/
def runFrom (env : Environment) (position : Nat) (stack : List Int32) :
    Bytes → Evaluation
  | [] =>
    match stack with
    | [value] => ⟨[], .ok value⟩
    | _ => ⟨[], .error (.leftover stack.length)⟩
  | code :: rest =>
    match Instruction.read position code rest with
    | .error e => ⟨[], .error e⟩
    | .ok (instruction, operands) =>
      match env.step (position + operands) instruction stack with
      | .error e => ⟨[], .error e⟩
      | .ok (stack', cautions) =>
        let later := env.runFrom (position + 1 + operands) stack' (rest.drop operands)
        { later with cautions := cautions ++ later.cautions }
termination_by bytes => bytes.length
decreasing_by simp only [List.length_drop, List.length_cons]; omega

/-- Evaluates an expression. -/
def run (env : Environment) (expr : Bytes) : Evaluation :=
  env.runFrom 0 [] expr

end Environment

end BankedLinker.Expr
