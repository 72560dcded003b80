import BankedLinker.Linker.Evaluate

/-!
# Applying patches and checking assertions

Once all sections are placed, the expressions of all patches are evaluated and their values are
written into the bytes of the sections. Then the assertions are checked.
-/

namespace BankedLinker

/-- Writes bytes at a position of a merged section; what lies after the supplied bytes is kept
apart from them. -/
def Merged.write (m : Merged) (position : Nat) (new : Bytes) : Merged :=
  let stop := position + new.length
  if stop ≤ m.data.size then { m with data := overwrite m.data position new }
  else
    let room := m.buffer ++ Array.replicate (stop - m.buffer.size) 0
    let written := overwrite room position new
    { m with data := written.take m.data.size, tail := written.drop m.data.size }

namespace Registry

/-- Writes bytes into the window of a member. -/
def writeWindow (r : Registry) (x : Member) (position : Nat) (new : Bytes) : Registry :=
  match r.positions[x.content.name]? with
  | none => r
  | some i => { r with sections := r.sections.modify i (·.write (x.offset.toNat + position) new) }

end Registry

namespace Linker

/-- Writes bytes into a section of a file: into the merged bytes if the section is a member of a
ROM section, and into its own bytes otherwise. -/
def write (lk : Linker) (f : ObjectFile) (s : Section) (position : Nat) (new : Bytes) : Linker :=
  match s.kind.hasData, lk.registry.member? f s with
  | true, some x => { lk with registry := lk.registry.writeWindow x position new }
  | _, _ =>
    let writeOwn (t : Section) : Section :=
      { t with data := (overwrite t.data.toArray position new).toList }
    { lk with files := lk.files.map fun g =>
        if g.index = f.index then { g with sections := g.sections.modify s.id.toNat writeOwn }
        else g }

/-- The number that a patch writes for a value: a relative jump writes its distance. -/
def patchedValue (lk : Linker) (f : ObjectFile) (p : Patch) (value : Int32) :
    Except PatchError Int32 :=
  if p.kind = .jump then
    match f.sectionAt? p.pcSection with
    | none => .error .jumpOutside
    | some s => jumpDistance value (lk.registry.org f s) p.pcOffset
  else .ok value

/-- The bytes that a patch of a section writes for a value. -/
def patchedBytes (lk : Linker) (f : ObjectFile) (s : Section) (p : Patch) (value : Int32) :
    Except PatchError Bytes := do
  let value ← lk.patchedValue f p value
  p.kind.checkWidth value
  if lk.registry.byteCount f s < p.offset.toNat + p.kind.width then
    throw (.outsideData p.offset)
  return p.kind.encode value

/-- Applies a patch of a section of a file. -/
def apply (lk : Linker) (f : ObjectFile) (s : Section) (p : Patch) :
    Linker × Except PatchError Unit :=
  let (lk, result) := lk.evaluate f p
  match result with
  | .error e => (lk, .error (.eval e))
  | .ok value =>
    match lk.patchedBytes f s p value with
    | .error e => (lk, .error e)
    | .ok bytes => (lk.write f s p.offset.toNat bytes, .ok ())

/-- Applies patches in order and counts those that were applied. A damaged patch ends the work,
any other problem is recorded. -/
def applyPatches (lk : Linker) (f : ObjectFile) (count : Nat) :
    List (Section × Patch) → Linker × Except Problem Nat
  | [] => (lk, .ok count)
  | (s, p) :: rest =>
    match lk.apply f s p with
    | (lk, .ok ()) => lk.applyPatches f (count + 1) rest
    | (lk, .error e) =>
      if e.isCorrupt then (lk, .error (.patch f s p e))
      else (lk.report (.patch f s p e)).applyPatches f count rest

/-- The patches of a file with their sections. -/
def patchesOf (f : ObjectFile) : List (Section × Patch) :=
  f.sections.flatMap fun s => s.patches.map (s, ·)

/-- Applies all patches of a file. -/
def applyFile (lk : Linker) (f : ObjectFile) : Linker × Except Problem Unit :=
  match lk.applyPatches f 0 (patchesOf f) with
  | (lk, .error p) => (lk, .error p)
  | (lk, .ok count) =>
    (lk.debug "Applied patches" [.text "file" f.name, .number "count" count], .ok ())

/-! ## Assertions -/

/-- Reports an assertion that does not hold. One of the highest level ends the work. -/
def failAssertion (lk : Linker) (f : ObjectFile) (a : Assertion) : Linker × Option Problem :=
  let trace := f.trace a.patch.source
  let message : Bytes := if a.message.isEmpty then "assertion failed" else a.message
  if a.level = .warning then
    ({ lk with diagnostics := lk.diagnostics.warn (.assertion trace message) }, none)
  else if a.level = .error then (lk.report (.assertion trace message), none)
  else (lk, some (.assertion trace message))

/-- Checks an assertion. The result is the problem that ends the work, if there is one. -/
def checkAssertion (lk : Linker) (f : ObjectFile) (a : Assertion) : Linker × Option Problem :=
  let (lk, result) := lk.evaluate f a.patch
  match result with
  | .error e =>
    let problem := Problem.assertionExpr (f.trace a.patch.source) e
    if e.faults.contains .corruptPatch then (lk, some problem) else (lk.report problem, none)
  | .ok value => if value ≠ 0 then (lk, none) else lk.failAssertion f a

/-- Checks assertions in order. -/
def checkEach (lk : Linker) (f : ObjectFile) : List Assertion → Linker × Except Problem Unit
  | [] => (lk, .ok ())
  | a :: rest =>
    match lk.checkAssertion f a with
    | (lk, none) => lk.checkEach f rest
    | (lk, some p) => (lk, .error p)

/-- Checks all assertions of a file. -/
def checkAssertions (lk : Linker) (f : ObjectFile) : Linker × Except Problem Unit :=
  lk.checkEach f f.assertions

end Linker

end BankedLinker
