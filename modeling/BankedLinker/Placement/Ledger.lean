import BankedLinker.Section.Merged
import Std.Data.HashMap

/-!
# The ledger of free and used addresses

For every bank of every region the ledger knows which addresses are free and which are used, and
by whom. Both lists are in ascending order. A bank that nobody asked for yet is entirely free.

* `BankSpace.reserve` takes a span of addresses out of the free ones;
* `Ledger.space` and `Ledger.update` look at and change one bank.
-/

namespace BankedLinker

/-- The addresses from `start` up to, but not including, `stop`. -/
structure Span where
  start : Nat
  stop : Nat
deriving DecidableEq, Repr, Inhabited

namespace Span

/-- The number of addresses. -/
def size (s : Span) : Nat :=
  s.stop - s.start

/-- Whether the span has no address. -/
def isEmpty (s : Span) : Bool :=
  s.size = 0

/-- Whether two spans share an address. -/
def overlaps (s t : Span) : Bool :=
  !s.isEmpty && !t.isEmpty && s.start < t.stop && t.start < s.stop

/-- Whether the span lies inside of another. -/
def isInside (s outer : Span) : Bool :=
  outer.start ≤ s.start && s.stop ≤ outer.stop

/-- What is left of the span without the addresses of `taken`, which lies inside of it. -/
def without (s taken : Span) : List Span :=
  let before : List Span := if s.start < taken.start then [⟨s.start, taken.start⟩] else []
  let after : List Span := if taken.stop < s.stop then [⟨taken.stop, s.stop⟩] else []
  before ++ after

end Span

/-- The addresses that a placed section uses. -/
structure Occupant where
  span : Span
  user : Merged
deriving Repr, Inhabited

/-- The free and the used addresses of a bank. -/
structure BankSpace where
  free : List Span
  used : List Occupant
deriving Repr, Inhabited

namespace BankSpace

/-- A bank of a region that nobody uses. -/
def fresh (r : Region) : BankSpace :=
  { free := [⟨r.start.toNat, r.stop.toNat⟩], used := [] }

/-- The first occupant that shares an address with a span. -/
def overlapping? (b : BankSpace) (s : Span) : Option Occupant :=
  b.used.find? (·.span.overlaps s)

/-- Takes a span out of the first of the given spans that it lies in. -/
def carve? (s : Span) : List Span → Option (List Span)
  | [] => none
  | f :: rest => if s.isInside f then some (f.without s ++ rest) else (carve? s rest).map (f :: ·)

/-- Puts an occupant in front of the first one that does not start below it. -/
def insert (x : Occupant) : List Occupant → List Occupant
  | [] => [x]
  | y :: rest => if y.span.start < x.span.start then y :: insert x rest else x :: y :: rest

/-- Marks a span as used. An empty span is always granted and changes nothing; any other has to
lie in one free span. -/
def reserve (b : BankSpace) (s : Span) (user : Merged) : Option BankSpace :=
  if s.isEmpty then some b
  else
    match carve? s b.free with
    | none => none
    | some free => some { free, used := insert ⟨s, user⟩ b.used }

end BankSpace

/-- Identifies a bank of a region. -/
structure BankKey where
  kind : RegionKind
  bank : UInt32
deriving DecidableEq, Repr, Hashable

/-- The space of all banks. -/
structure Ledger where
  map : MemoryMap
  banks : Std.HashMap BankKey BankSpace := ∅

namespace Ledger

/-- The space of a bank. -/
def space (l : Ledger) (key : BankKey) : BankSpace :=
  l.banks.getD key (.fresh (l.map.region key.kind))

/-- The ledger with another space for a bank. -/
def update (l : Ledger) (key : BankKey) (space : BankSpace) : Ledger :=
  { l with banks := l.banks.insert key space }

@[simp] theorem map_update (l : Ledger) (key : BankKey) (space : BankSpace) :
    (l.update key space).map = l.map := rfl

end Ledger

end BankedLinker
