import BankedLinker.Fault

/-!
# Listings

A text file is printed piece by piece. Each piece says what it belongs to, so that a stream that
fails half-way leaves a message about the piece that could not be printed.
-/

namespace BankedLinker

/-- A piece of a text file. -/
structure Print where
  /-- What is being printed, for the message if it cannot be. -/
  purpose : Bytes
  text : Bytes
deriving DecidableEq, Repr

/-- The pieces of a text file in order. -/
abbrev Listing := List Print

/-- A piece could not be printed. -/
structure PrintError where
  purpose : Bytes
  obstacle : Obstacle
deriving DecidableEq, Repr

namespace PrintError

def message (e : PrintError) : Bytes :=
  Bytes.concat [e.purpose, ": ", e.obstacle.message]

def faults (e : PrintError) : List Fault :=
  e.obstacle.faults

end PrintError

namespace Listing

/-- The whole text. -/
def text (l : Listing) : Bytes :=
  l.flatMap Print.text

/-- Prints to a stream that accepts the first `accepted` pieces and then meets an obstacle. The
result is what was printed and the failure, if there was one. -/
def printStopped (l : Listing) (accepted : Nat) (obstacle : Obstacle) :
    Bytes × Except PrintError Unit :=
  (text (l.take accepted),
    match l[accepted]? with
    | none => .ok ()
    | some p => .error ⟨p.purpose, obstacle⟩)

end Listing

end BankedLinker
