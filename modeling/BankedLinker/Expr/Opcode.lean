import BankedLinker.Text.Bytes

/-!
# Operators and their opcodes

The expressions of patches and assertions are bytecode for a stack machine. This file lists the
operators and queries of the machine with the bytes that stand for them.
-/

namespace BankedLinker.Expr

/-- Operators on the topmost value. -/
inductive UnaryOp where
  | negate
  | complement
  | logicalNot
  /-- Whether the value lies in the page of HRAM. -/
  | inHighPage
  /-- Whether the value is the target of a restart instruction. -/
  | isRestartTarget
deriving DecidableEq, Repr

namespace UnaryOp

def all : List UnaryOp :=
  [negate, complement, logicalNot, inHighPage, isRestartTarget]

def opcode : UnaryOp → UInt8
  | negate => 0x05
  | complement => 0x13
  | logicalNot => 0x23
  | inHighPage => 0x60
  | isRestartTarget => 0x61

/-- The operator that a byte stands for. -/
def ofOpcode? (b : UInt8) : Option UnaryOp :=
  all.find? (·.opcode == b)

@[simp] theorem ofOpcode?_opcode (op : UnaryOp) : ofOpcode? op.opcode = some op := by
  cases op <;> rfl

end UnaryOp

/-- Operators on the two topmost values. -/
inductive BinaryOp where
  | add
  | sub
  | mul
  | div
  | mod
  | exp
  | or
  | and
  | xor
  | logicalAnd
  | logicalOr
  | eq
  | ne
  | gt
  | lt
  | ge
  | le
  | shiftLeft
  | shiftRight
  | shiftRightUnsigned
deriving DecidableEq, Repr

namespace BinaryOp

def all : List BinaryOp :=
  [add, sub, mul, div, mod, exp, or, and, xor, logicalAnd, logicalOr, eq, ne, gt, lt, ge, le,
    shiftLeft, shiftRight, shiftRightUnsigned]

def opcode : BinaryOp → UInt8
  | add => 0x00
  | sub => 0x01
  | mul => 0x02
  | div => 0x03
  | mod => 0x04
  | exp => 0x06
  | or => 0x10
  | and => 0x11
  | xor => 0x12
  | logicalAnd => 0x21
  | logicalOr => 0x22
  | eq => 0x30
  | ne => 0x31
  | gt => 0x32
  | lt => 0x33
  | ge => 0x34
  | le => 0x35
  | shiftLeft => 0x40
  | shiftRight => 0x41
  | shiftRightUnsigned => 0x42

/-- The operator that a byte stands for. -/
def ofOpcode? (b : UInt8) : Option BinaryOp :=
  all.find? (·.opcode == b)

@[simp] theorem ofOpcode?_opcode (op : BinaryOp) : ofOpcode? op.opcode = some op := by
  cases op <;> rfl

end BinaryOp

/-- Questions about a section that is given by its name. -/
inductive SectionQuery where
  | bank
  | size
  | start
deriving DecidableEq, Repr

namespace SectionQuery

def all : List SectionQuery :=
  [bank, size, start]

def opcode : SectionQuery → UInt8
  | bank => 0x51
  | size => 0x53
  | start => 0x54

/-- The query that a byte stands for. -/
def ofOpcode? (b : UInt8) : Option SectionQuery :=
  all.find? (·.opcode == b)

@[simp] theorem ofOpcode?_opcode (q : SectionQuery) : ofOpcode? q.opcode = some q := by
  cases q <;> rfl

end SectionQuery

/-- Pushes a constant, which follows as a word. -/
def constOpcode : UInt8 := 0x80

/-- Pushes the value of a symbol, whose index follows as a word. -/
def symbolOpcode : UInt8 := 0x81

/-- Pushes the bank of a symbol, whose index follows as a word. -/
def symbolBankOpcode : UInt8 := 0x50

/-- Pushes the bank of the section that the expression belongs to. -/
def bankHereOpcode : UInt8 := 0x52

/-- Checks that the topmost value lies between two bounds, which follow as words. -/
def rangeOpcode : UInt8 := 0x70

/-! ## Putting bytecode together -/

namespace Bytecode

/-- An instruction without operands. -/
def op (code : UInt8) : Bytes :=
  [code]

/-- Pushes a constant. -/
def const (value : Int32) : Bytes :=
  constOpcode :: Word.toBytes value.toUInt32

/-- Pushes the value of a symbol. -/
def symbol (index : UInt32) : Bytes :=
  symbolOpcode :: Word.toBytes index

/-- Pushes the current address. -/
def here : Bytes :=
  symbol noIndex

/-- Pushes the bank of a symbol. -/
def symbolBank (index : UInt32) : Bytes :=
  symbolBankOpcode :: Word.toBytes index

/-- An instruction with the name of a section. -/
def named (code : UInt8) (name : Bytes) : Bytes :=
  code :: name ++ [0]

/-- Checks that the topmost value lies between two bounds. -/
def range (low high : Int32) : Bytes :=
  rangeOpcode :: Word.toBytes low.toUInt32 ++ Word.toBytes high.toUInt32

end Bytecode

end BankedLinker.Expr
