import BankedLinker.Text.Numeral

/-!
# Log records

What a run reports on its way: messages with a level and named attributes, in the order in which
they were made. A reader picks the levels that it wants to see.
-/

namespace BankedLinker

/-- The importance of a record. -/
inductive Level where
  | debug
  | info
  | warning
  | error
deriving DecidableEq, Repr, Inhabited

/-- The rank of a level; the more important, the higher. -/
def Level.rank : Level → Nat
  | .debug => 0
  | .info => 1
  | .warning => 2
  | .error => 3

/-- The value of an attribute. -/
inductive AttributeValue where
  | number (value : Int)
  | text (value : Bytes)
deriving DecidableEq, Repr

/-- A named attribute. -/
structure Attribute where
  key : Bytes
  value : AttributeValue
deriving DecidableEq, Repr

namespace Attribute

/-- A number. -/
def number (key : Bytes) (value : Nat) : Attribute :=
  ⟨key, .number value⟩

/-- A text. -/
def text (key value : Bytes) : Attribute :=
  ⟨key, .text value⟩

/-- A number in hexadecimal with at least `width` digits. -/
def hex (key : Bytes) (width value : Nat) : Attribute :=
  ⟨key, .text (Bytes.concat ["0x", Numeral.hexUpper width value])⟩

/-- The text of a failure. -/
def failure (message : Bytes) : Attribute :=
  text "error" message

end Attribute

/-- A record of the log. -/
structure LogRecord where
  level : Level
  message : Bytes
  attributes : List Attribute := []
deriving DecidableEq, Repr

/-- The records of a run in order. -/
abbrev Log := Array LogRecord

/-- The records of at least the given level. -/
def Log.atLeast (log : Log) (least : Level) : Log :=
  log.filter fun record => least.rank ≤ record.level.rank

end BankedLinker
