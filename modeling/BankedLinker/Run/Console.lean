import BankedLinker.Log
import BankedLinker.Text.Utf8

/-!
# The console

How log records look on the console: level, message, and the attributes as a JSON object.
-/

namespace BankedLinker.Console

/-! ## JSON -/

/-- The escape of a code unit of four hexadecimal digits. -/
def unitEscape (n : Nat) : Bytes :=
  Bytes.concat ["\\u", Numeral.hexLower 4 n]

/-- A character of a JSON string. -/
def jsonScalar (code : Nat) : Bytes :=
  match code with
  | 0x22 => "\\\""
  | 0x5C => "\\\\"
  | 0x0A => "\\n"
  | 0x0D => "\\r"
  | 0x09 => "\\t"
  | _ =>
    if code < 0x20 ∨ code = 0x2028 ∨ code = 0x2029 then unitEscape code else Utf8.encode code

/-- A piece of a JSON string; a stray byte becomes the replacement character. -/
def jsonPiece : Utf8.Piece → Bytes
  | .scalar code => jsonScalar code
  | .stray _ => Utf8.encode 0xFFFD

/-- A JSON string. -/
def jsonString (s : Bytes) : Bytes :=
  0x22 :: (Utf8.pieces s).flatMap jsonPiece ++ [0x22]

/-- The value of an attribute in JSON. -/
def jsonValue : AttributeValue → Bytes
  | .number n => Numeral.signed n
  | .text s => jsonString s

/-- A member of a JSON object. -/
def jsonMember (a : Attribute) : Bytes :=
  Bytes.concat [jsonString a.key, ":", jsonValue a.value]

/-- Attributes as a JSON object. -/
def jsonObject (attributes : List Attribute) : Bytes :=
  Bytes.concat ["\x7b", Bytes.joinWith "," (attributes.map jsonMember), "\x7d"]

/-! ## Lines -/

/-- A level, filled up with spaces to the width of a column. -/
def levelColumn : Level → Bytes
  | .debug => "DEBUG   "
  | .info => "INFO    "
  | .warning => "WARN    "
  | .error => "ERROR   "

/-- The line of a record. -/
def line (r : LogRecord) : Bytes :=
  let attributes : Bytes :=
    if r.attributes.isEmpty then [] else Bytes.concat [" ", jsonObject r.attributes]
  Bytes.concat [levelColumn r.level, r.message, attributes, "\n"]

/-- The lines of a log. -/
def render (log : Log) : Bytes :=
  log.toList.flatMap line

end BankedLinker.Console
