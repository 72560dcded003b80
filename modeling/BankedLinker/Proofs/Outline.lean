import BankedLinker.Linker.Patch
import Mathlib.Data.Nat.Notation

/-!
# What evaluation depends on

The value of an expression depends on where sections are, not on the bytes that they hold. So the
order in which patches are applied does not matter to their values.

* `Merged.outline`, `Registry.outline` and `Linker.outline` leave the bytes out;
* `Linker.environment_outline` and `Linker.patchedValue_outline`: evaluation sees the outline only;
* `Linker.Encodes lk f p bytes`: the bytes that a patch writes, once sections are placed.
-/

namespace BankedLinker

/-- The merged section without its bytes. -/
def Merged.outline (m : Merged) : Merged :=
  { m with data := #[], tail := #[] }

namespace Registry

variable (r : Registry) (f : ObjectFile) (s : Section)

/-- The registry without bytes. -/
def outline : Registry :=
  { r with sections := r.sections.map Merged.outline }

theorem find?_outline (name : Bytes) :
    r.outline.find? name = (r.find? name).map Merged.outline := by
  unfold find?
  show r.positions[name]?.bind (fun i => (r.sections.map Merged.outline)[i]?) = _
  cases r.positions[name]? with
  | none => rfl
  | some i =>
    rw [Option.bind_some, Option.bind_some, Array.getElem?_map]

theorem member?_outline : r.outline.member? f s = r.member? f s := by
  unfold member?
  rw [find?_outline]
  cases r.find? s.name <;> rfl

theorem org_outline : r.outline.org f s = r.org f s := by
  unfold org
  rw [member?_outline]

theorem bank_outline : r.outline.bank f s = r.bank f s := by
  unfold bank
  rw [member?_outline]

theorem address_outline (d : Definition) : r.outline.address d = r.address d := by
  unfold address
  cases d.ownerSection? with
  | none => rfl
  | some s =>
    dsimp only
    rw [org_outline]

end Registry

namespace Linker

/-- What evaluation may look at: the memory map, the symbols and the places of sections. -/
def outline (lk : Linker) : Linker :=
  { map := lk.map, files := [], table := lk.table, registry := lk.registry.outline }

variable (lk : Linker) (f : ObjectFile) (p : Patch)

theorem bankOfSection_outline (s : Section) :
    lk.outline.bankOfSection f s = lk.bankOfSection f s := by
  have hbank : lk.outline.registry.bank f s = lk.registry.bank f s := lk.registry.bank_outline f s
  unfold bankOfSection
  rw [hbank]
  rfl

theorem bankOfDefinition_outline (d : Definition) :
    lk.outline.bankOfDefinition d = lk.bankOfDefinition d := by
  unfold bankOfDefinition
  cases d.ownerSection? with
  | none => rfl
  | some s => exact bankOfSection_outline lk d.file s

theorem querySection_outline (q : Expr.SectionQuery) (name : Bytes) :
    lk.outline.querySection q name = lk.querySection q name := by
  have hfind : lk.outline.registry.find? name = (lk.registry.find? name).map Merged.outline :=
    Registry.find?_outline lk.registry name
  unfold querySection
  rw [hfind]
  cases lk.registry.find? name with
  | none => rfl
  | some m =>
    cases q with
    | size => rfl
    | start => rfl
    | bank =>
      have hmembers : m.outline.members = m.members := rfl
      dsimp only [Option.map_some]
      rw [hmembers]
      cases m.members[0]? with
      | none => rfl
      | some first => simp only [bankOfSection_outline]

theorem hereOf_outline : lk.outline.hereOf f p = lk.hereOf f p := by
  unfold hereOf
  cases f.sectionAt? p.pcSection with
  | none => rfl
  | some s =>
    show Except.ok (ofWord ((lk.registry.outline.org f s).toUInt32 + p.pcOffset)) = _
    rw [Registry.org_outline]

theorem bankHereOf_outline : lk.outline.bankHereOf f p = lk.bankHereOf f p := by
  unfold bankHereOf
  cases f.sectionAt? p.pcSection with
  | none => rfl
  | some s => simp only [bankOfSection_outline]

/-- The environment of a patch does not depend on any bytes. -/
theorem environment_outline : lk.outline.environment f p = lk.environment f p := by
  have haddress : lk.outline.registry.address = lk.registry.address :=
    funext fun d => Registry.address_outline lk.registry d
  have hbank : lk.outline.bankOfDefinition = lk.bankOfDefinition :=
    funext fun d => bankOfDefinition_outline lk d
  have hquery : lk.outline.querySection = lk.querySection :=
    funext fun q => funext fun name => querySection_outline lk q name
  unfold environment
  rw [hereOf_outline, bankHereOf_outline, haddress, hbank, hquery]
  rfl

theorem patchedValue_outline (value : Int32) :
    lk.outline.patchedValue f p value = lk.patchedValue f p value := by
  unfold patchedValue
  split
  · cases f.sectionAt? p.pcSection with
    | none => rfl
    | some s =>
      show jumpDistance value (lk.registry.outline.org f s) p.pcOffset = _
      rw [Registry.org_outline]
  · rfl

/-- The bytes that a patch of a file writes: those of the value of its expression, or of the
distance to it for a relative jump. -/
def Encodes (lk : Linker) (f : ObjectFile) (p : Patch) (bytes : Bytes) : Prop :=
  ∃ value number, ((lk.environment f p).run p.expr).result = .ok value
    ∧ lk.patchedValue f p value = .ok number ∧ bytes = p.kind.encode number

variable {lk f p}

theorem Encodes.length_eq {bytes : Bytes} (h : lk.Encodes f p bytes) :
    bytes.length = p.kind.width := by
  obtain ⟨value, number, -, -, rfl⟩ := h
  exact PatchKind.length_encode _ _

theorem Encodes.of_outline_eq {lk' : Linker} {bytes : Bytes} (h : lk.Encodes f p bytes)
    (houtline : lk'.outline = lk.outline) : lk'.Encodes f p bytes := by
  obtain ⟨value, number, hvalue, hnumber, hbytes⟩ := h
  refine ⟨value, number, ?_, ?_, hbytes⟩
  · rw [← environment_outline, houtline, environment_outline]
    exact hvalue
  · rw [← patchedValue_outline, houtline, patchedValue_outline]
    exact hnumber

end Linker

end BankedLinker
