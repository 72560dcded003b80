import BankedLinker.Output.Listing
import BankedLinker.Symbol.Label

/-!
# The symbol file

Lists every label with bank and address, one label a line.
-/

namespace BankedLinker.SymbolFile

/-- The line at the top. -/
def header : Print :=
  { purpose := "writing symbol file header", text := "; File generated by retrolink\n" }

/-- The line of a label. -/
def line (l : PlacedLabel) : Print where
  purpose := Bytes.concat ["writing symbol '", l.name, "'"]
  text := Bytes.concat
    [Numeral.hexLower 2 l.bank.toNat, ":", Numeral.hexLower 4 l.address.toNat, " ", l.name, "\n"]

/-- The symbol file of labels in the given order. -/
def listing (labels : List PlacedLabel) : Listing :=
  header :: labels.map line

end BankedLinker.SymbolFile
