import BankedLinker.Fault

/-!
# File systems

A run reads and writes files through a `FileSystem`, which may be the one of the machine or a
`Disk`, a value that holds files by their place. Paths on a disk are walked one name at a time from
the working directory or from the root.
-/

namespace BankedLinker

/-- Why the operating system refuses a path. -/
inductive PathError where
  | notFound
  | notADirectory
  | isADirectory
  | nameTooLong
  | invalid
  /-- Any other reason. -/
  | other (text : Bytes)
deriving DecidableEq, Repr

def PathError.text : PathError → Bytes
  | .notFound => "no such file or directory"
  | .notADirectory => "not a directory"
  | .isADirectory => "is a directory"
  | .nameTooLong => "file name too long"
  | .invalid => "invalid argument"
  | .other text => text

/-- What stands at a path that can be opened. -/
inductive Entry where
  | file (content : Bytes)
  /-- A directory can be opened but not read. -/
  | directory
deriving DecidableEq, Repr

/-- The operations on files that a run needs. -/
structure FileSystem (m : Type → Type) where
  /-- Opens a path for reading. -/
  load : (path : Bytes) → m (Except PathError Entry)
  /-- Creates or replaces a file. -/
  save : (path : Bytes) → (content : Bytes) → m (Except PathError Unit)

/-- The message of a refusal to open a path. -/
def openMessage (path : Bytes) (e : PathError) : Bytes :=
  Bytes.concat ["open ", path, ": ", e.text]

/-- The message of a refusal to read from a path that was opened. -/
def readMessage (path : Bytes) (e : PathError) : Bytes :=
  Bytes.concat ["read ", path, ": ", e.text]

/-! ## Places -/

/-- A directory that a path can walk through. -/
inductive Directory where
  /-- The directory so many levels above the working directory. -/
  | above (levels : Nat)
  /-- The directory where absolute paths start. -/
  | root
deriving DecidableEq, Repr

namespace Directory

/-- The directory where relative paths start. -/
def working : Directory := above 0

/-- The directory that `..` leads to; the root is its own parent. -/
def parent : Directory → Directory
  | above levels => above (levels + 1)
  | root => root

end Directory

/-- The place of a file: a name in a directory. -/
structure Place where
  directory : Directory
  name : Bytes
deriving DecidableEq, Repr

/-- The place of that name in the working directory. -/
def Place.here (name : Bytes) : Place := { directory := .working, name }

/-- What a path leads to. -/
inductive Target where
  | directory (place : Directory)
  /-- A place for a file; `slash` tells whether a slash follows its name. -/
  | entry (place : Place) (slash : Bool)
deriving DecidableEq, Repr

/-! ## Disks -/

/-- Files by their place. The directories of a disk are the working directory, those above it and
the root, so every name on it that is taken is the name of a file. -/
structure Disk where
  files : List (Place × Bytes) := []
deriving DecidableEq, Repr, Inhabited

namespace Disk

/-- The content of a file. -/
def find? (d : Disk) (place : Place) : Option Bytes :=
  d.files.lookup place

/-- Gives the file at a place new content. -/
def replace (place : Place) (content : Bytes) (files : List (Place × Bytes)) :
    List (Place × Bytes) :=
  files.map fun file => if file.1 = place then (file.1, content) else file

/-- The disk with a file of the given content. -/
def insert (d : Disk) (place : Place) (content : Bytes) : Disk :=
  if (d.find? place).isSome then { files := replace place content d.files }
  else { files := d.files ++ [(place, content)] }

/-- New content changes neither which places are taken nor what other files hold. -/
theorem lookup_replace (place other : Place) (content : Bytes) (files : List (Place × Bytes)) :
    (replace place content files).lookup other =
      if other = place then (files.lookup other).map fun _ => content else files.lookup other := by
  induction files with
  | nil => simp [replace]
  | cons file files ih =>
    obtain ⟨key, old⟩ := file
    rw [replace, List.map_cons, ← replace]
    by_cases hother : other = key
    · -- the first file is the one that is looked for
      subst hother
      by_cases hplace : other = place
      · simp [hplace]
      · simp [hplace]
    · have hkey : (other == key) = false := beq_eq_false_iff_ne.mpr hother
      by_cases hplace : key = place
      · simp [hplace, List.lookup_cons, hplace ▸ hkey, ih]
      · simp [hplace, List.lookup_cons, hkey, ih]

/-- After a file was written its place holds the new content and all others hold what they held. -/
theorem find?_insert (d : Disk) (place other : Place) (content : Bytes) :
    (d.insert place content).find? other =
      if other = place then some content else d.find? other := by
  unfold insert
  split
  case isTrue h =>
    obtain ⟨old, hold⟩ := Option.isSome_iff_exists.mp h
    by_cases ho : other = place
    · subst ho
      simp_all [find?, lookup_replace]
    · simp [find?, lookup_replace, ho]
  case isFalse h =>
    have hold : d.files.lookup place = none := Option.not_isSome_iff_eq_none.mp h
    by_cases ho : other = place
    · subst ho
      simp only [find?, List.lookup_append, hold, List.lookup_cons_self, Option.none_or, if_true]
    · have hb : (other == place) = false := beq_eq_false_iff_ne.mpr ho
      simp [find?, List.lookup_append, List.lookup_cons, hb, ho]

/-- The files of the working directory by name. -/
def workingFiles (d : Disk) : List (Bytes × Bytes) :=
  d.files.filterMap fun (l, content) =>
    if l.directory = .working then some (l.name, content) else none

/-- The names between the slashes of a path. -/
def segments : Bytes → List Bytes
  | [] => [[]]
  | b :: rest =>
    match segments rest with
    | [] => [[b]]
    | first :: others => if b = 0x2F then [] :: first :: others else (b :: first) :: others

/-- The greatest length of a name. -/
def maxNameLength : Nat := 255

/-- The greatest length of a path. -/
def maxPathLength : Nat := 4095

/-- The file at a place, if there is one. A name that is too long cannot even be asked for. -/
def look (d : Disk) (place : Place) : Except PathError (Option Bytes) :=
  if maxNameLength < place.name.length then .error .nameTooLong else .ok (d.find? place)

/-- Follows the segments of a path from a directory. Empty segments and `.` stay where they are and
`..` goes up. The first other name ends the walk: it is what the path leads to if nothing but
slashes follows, and otherwise it would have to be a directory, which no name is. -/
def walk (d : Disk) (start : Directory) : List Bytes → Except PathError Target
  | [] => .ok (.directory start)
  | segment :: rest =>
    if segment = [] ∨ segment = [0x2E] then d.walk start rest
    else if segment = [0x2E, 0x2E] then d.walk start.parent rest
    else if rest.all List.isEmpty then .ok (.entry ⟨start, segment⟩ !rest.isEmpty)
    else
      match d.look ⟨start, segment⟩ with
      | .error e => .error e
      | .ok none => .error .notFound
      | .ok (some _) => .error .notADirectory

/-- What a path leads to. -/
def resolve (d : Disk) (path : Bytes) : Except PathError Target :=
  if path.contains 0 then .error .invalid
  else if path.isEmpty then .error .notFound
  else if maxPathLength < path.length then .error .nameTooLong
  else d.walk (if path.head? = some 0x2F then .root else .working) (segments path)

/-- Opens a path for reading. -/
def load (d : Disk) (path : Bytes) : Except PathError Entry :=
  match d.resolve path with
  | .error e => .error e
  | .ok (.directory _) => .ok .directory
  | .ok (.entry place slash) =>
    match d.look place with
    | .error e => .error e
    | .ok none => .error .notFound
    | .ok (some content) => if slash then .error .notADirectory else .ok (.file content)

/-- Creates or replaces a file. A slash at the end asks for a directory, whatever the name is. -/
def save (d : Disk) (path content : Bytes) : Except PathError Disk :=
  match d.resolve path with
  | .error e => .error e
  | .ok (.directory _) => .error .isADirectory
  | .ok (.entry place slash) =>
    if slash then .error .isADirectory
    else
      match d.look place with
      | .error e => .error e
      | .ok _ => .ok (d.insert place content)

/-- A disk as a file system. -/
def fileSystem : FileSystem (StateM Disk) where
  load path := return (← get).load path
  save path content := do
    match (← get).save path content with
    | .error e => return .error e
    | .ok d =>
      set d
      return .ok ()

end Disk

end BankedLinker
