import BankedLinker.Fault
import BankedLinker.Text.Numeral

/-!
# Failed look-ups

Why a symbol, or the bank of a symbol or section, could not be determined.
-/

namespace BankedLinker

/-- Why a look-up failed. -/
inductive LookupError where
  /-- No file exports the name. -/
  | undefinedSymbol (name : Bytes)
  /-- The file has no symbol of this index. -/
  | noSuchIndex (index : UInt32) (file : Bytes)
  /-- A constant lies in no bank. -/
  | constantHasNoBank (name : Bytes)
  /-- The section lies in a region without a choice of bank. -/
  | sectionNotBanked (description : Bytes)
deriving DecidableEq, Repr

namespace LookupError

def message : LookupError → Bytes
  | .undefinedSymbol name => Bytes.concat [Fault.undefinedSymbol.text, " '", name, "'"]
  | .noSuchIndex index file =>
    Bytes.concat ["symbol index ", Numeral.decimal index.toNat, " out of range in ", file]
  | .constantHasNoBank name => Fault.notBanked.says ["'", name, "' is a constant, not a label"]
  | .sectionNotBanked description => Fault.notBanked.says [description]

def faults : LookupError → List Fault
  | .undefinedSymbol _ => [.undefinedSymbol]
  | .noSuchIndex _ _ => []
  | .constantHasNoBank _ => [.notBanked]
  | .sectionNotBanked _ => [.notBanked]

end LookupError

end BankedLinker
