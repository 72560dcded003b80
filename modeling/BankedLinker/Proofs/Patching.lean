import BankedLinker.Proofs.Outline
import BankedLinker.Proofs.Stages

/-!
# Applying patches

Patches write into the merged bytes, each inside of the window of its section. This file follows
the bytes of one section through the patches of all files: a patch of another section leaves them
alone, and of the patches of the section itself the last one that covers a byte decides.

* `getElem?_overwrite` is what a write does to a buffer;
* `Linker.Patched` is a run of patches as a relation between registries, and
  `Linker.patched_of_forFiles` finds it in a run of the linker without problems;
* `Registry.Houses` is the invariant of such a run: sections have windows that do not overlap;
* `lastAt` is the last patch of a byte;
* `Linker.ByteAfter` says what becomes of a byte, `Linker.Patched.byteAt` that the run does it.
-/

namespace BankedLinker

/-! ## Buffers -/

/-- A buffer after a write that lies inside of it. -/
theorem getElem?_overwrite {buffer : Array UInt8} {position : ℕ} {new : Bytes}
    (hfits : position + new.length ≤ buffer.size) (k : ℕ) :
    (overwrite buffer position new)[k]?
      = if position ≤ k ∧ k < position + new.length then new[k - position]? else buffer[k]? := by
  induction new generalizing buffer position with
  | nil =>
    rw [if_neg (by simp)]
    rfl
  | cons b new ih =>
    rw [List.length_cons] at hfits
    have hrest : position + 1 + new.length ≤ (buffer.setIfInBounds position b).size := by
      rw [Array.size_setIfInBounds]
      omega
    rw [overwrite, ih hrest, List.length_cons, Array.getElem?_setIfInBounds]
    by_cases hk : position = k
    · -- the first byte was written before the others, which begin after it
      subst hk
      rw [if_neg (by omega), if_pos rfl, if_pos (by omega), if_pos (by omega), Nat.sub_self]
      rfl
    · rw [if_neg hk]
      by_cases hin : position + 1 ≤ k ∧ k < position + 1 + new.length
      · rw [if_pos hin, if_pos (by omega), show k - position = k - (position + 1) + 1 by omega,
          List.getElem?_cons_succ]
      · rw [if_neg hin, if_neg (by omega)]

/-! ## A run of patches -/

/-- The bytes that a patch writes cover an index of its section. -/
def Patch.Covers (p : Patch) (k : ℕ) : Prop :=
  p.offset.toNat ≤ k ∧ k < p.offset.toNat + p.kind.width

instance (p : Patch) (k : ℕ) : Decidable (p.Covers k) :=
  inferInstanceAs (Decidable (_ ∧ _))

/-- Writes bytes into a section of a file if it is a member of a ROM section. -/
def Registry.writeInto (r : Registry) (f : ObjectFile) (s : Section) (position : ℕ)
    (new : Bytes) : Registry :=
  match s.kind.hasData, r.member? f s with
  | true, some x => r.writeWindow x position new
  | _, _ => r

/-- A patch with its section and its file. -/
abbrev Job := ObjectFile × Section × Patch

/-- The patches of sections of files in the order in which they are applied. -/
def jobsOf (calls : List (ObjectFile × Section)) : List Job :=
  calls.flatMap fun call => call.2.patches.map fun p => (call.1, call.2, p)

theorem mem_jobsOf_callsOf {files : List ObjectFile} {f : ObjectFile} {s : Section} {p : Patch} :
    (f, s, p) ∈ jobsOf (callsOf files) ↔ (f ∈ files ∧ s ∈ f.sections) ∧ p ∈ s.patches := by
  unfold jobsOf
  rw [List.mem_flatMap]
  constructor
  · rintro ⟨⟨g, t⟩, hcall, hjob⟩
    obtain ⟨q, hq, heq⟩ := List.mem_map.mp hjob
    cases heq
    exact ⟨mem_callsOf.mp hcall, hq⟩
  · rintro ⟨hcall, hp⟩
    exact ⟨(f, s), mem_callsOf.mpr hcall, List.mem_map_of_mem hp⟩

/-- The patches of the first file come first. -/
theorem jobsOf_callsOf_cons (f : ObjectFile) (rest : List ObjectFile) :
    jobsOf (callsOf (f :: rest))
      = ((Linker.patchesOf f).map fun job => (f, job.1, job.2)) ++ jobsOf (callsOf rest) := by
  simp [jobsOf, callsOf, Linker.patchesOf, List.map_flatMap, List.flatMap_map, Function.comp_def]

namespace Linker

variable {lk lk' : Linker} {f : ObjectFile} {s : Section} {p : Patch}

/-- The second registry comes from the first one by applying patches in order. What they write is
evaluated in `lk`. -/
inductive Patched (lk : Linker) : Registry → List Job → Registry → Prop
  | nil (r : Registry) : Patched lk r [] r
  | cons {r r' : Registry} {f : ObjectFile} {s : Section} {p : Patch} {bytes : Bytes}
      {rest : List Job} (encodes : lk.Encodes f p bytes)
      (later : Patched lk (r.writeInto f s p.offset.toNat bytes) rest r') :
      Patched lk r ((f, s, p) :: rest) r'

theorem Patched.append {r₁ r₂ r₃ : Registry} {jobs jobs' : List Job}
    (h : lk.Patched r₁ jobs r₂) (h' : lk.Patched r₂ jobs' r₃) :
    lk.Patched r₁ (jobs ++ jobs') r₃ := by
  induction h with
  | nil r => exact h'
  | cons encodes _ ih => exact .cons encodes (ih h')

theorem Patched.of_outline_eq {r r' : Registry} {jobs : List Job} (h : lk.Patched r jobs r')
    (houtline : lk'.outline = lk.outline) : lk'.Patched r jobs r' := by
  induction h with
  | nil r => exact .nil r
  | cons encodes _ ih => exact .cons (encodes.of_outline_eq houtline) ih

theorem registry_write (lk : Linker) (f : ObjectFile) (s : Section) (position : ℕ) (new : Bytes) :
    (lk.write f s position new).registry = lk.registry.writeInto f s position new := by
  unfold write Registry.writeInto
  cases s.kind.hasData with
  | false => rfl
  | true => cases lk.registry.member? f s <;> rfl

theorem outline_writeInto (r : Registry) (f : ObjectFile) (s : Section) (position : ℕ)
    (new : Bytes) : (r.writeInto f s position new).outline = r.outline := by
  have hwrite : ∀ m : Merged, ∀ start, (m.write start new).outline = m.outline := by
    intro m start
    unfold Merged.write
    dsimp only
    split <;> rfl
  have hmodify : ∀ i start,
      (r.sections.modify i (·.write start new)).map Merged.outline
        = r.sections.map Merged.outline := by
    intro i start
    apply Array.ext_getElem?
    intro j
    rw [Array.getElem?_map, Array.getElem?_map, Array.getElem?_modify]
    split
    · cases r.sections[j]? with
      | none => rfl
      | some m => exact congrArg some (hwrite m start)
    · rfl
  unfold Registry.writeInto
  split
  · unfold Registry.writeWindow
    split
    · rfl
    · next i _ => exact congrArg (Registry.mk · r.positions r.keys) (hmodify i _)
  · rfl

theorem outline_write (lk : Linker) (f : ObjectFile) (s : Section) (position : ℕ) (new : Bytes) :
    (lk.write f s position new).outline = lk.outline := by
  have hframe : (lk.write f s position new).map = lk.map
      ∧ (lk.write f s position new).table = lk.table := by
    unfold write
    split <;> exact ⟨rfl, rfl⟩
  unfold outline
  rw [registry_write, outline_writeInto, hframe.1, hframe.2]

/-- Writing records nothing. -/
theorem clean_write_iff {position : ℕ} {new : Bytes} :
    (lk.write f s position new).Clean ↔ lk.Clean := by
  unfold write
  split <;> exact Iff.rfl

/-! ## The run of the linker -/

theorem problemCount_le_warn (d : Diagnostics) (w : Warning) :
    d.problemCount ≤ (d.warn w).problemCount := by
  unfold Diagnostics.warn
  dsimp only
  split
  · exact le_refl _
  · split
    · show d.problems.size ≤ (d.problems.push _).size
      rw [Array.size_push]
      omega
    · exact le_refl _

theorem problemCount_le_warnAll (d : Diagnostics) (ws : List Warning) :
    d.problemCount ≤ (d.warnAll ws).problemCount := by
  induction ws generalizing d with
  | nil => exact le_refl _
  | cons w ws ih => exact (problemCount_le_warn d w).trans (ih (d.warn w))

theorem noted_evaluate (lk : Linker) (f : ObjectFile) (p : Patch) :
    lk.Noted (lk.evaluate f p).1 := by
  refine ⟨⟨_, rfl⟩, fun h => ?_⟩
  exact Nat.le_zero.mp ((problemCount_le_warnAll _ _).trans (le_of_eq h))

theorem Noted.outline_eq (h : lk.Noted lk') : lk'.outline = lk.outline := by
  obtain ⟨⟨d, rfl⟩, -⟩ := h
  rfl

theorem Noted.registry_eq (h : lk.Noted lk') : lk'.registry = lk.registry := by
  obtain ⟨⟨d, rfl⟩, -⟩ := h
  rfl

/-- The bytes of a patch are those of the value that it is meant to have. -/
theorem patchedBytes_eq_ok {value : Int32} {bytes : Bytes}
    (h : lk.patchedBytes f s p value = .ok bytes) :
    ∃ number, lk.patchedValue f p value = .ok number ∧ bytes = p.kind.encode number := by
  unfold patchedBytes at h
  cases hnumber : lk.patchedValue f p value with
  | error e =>
    rw [hnumber] at h
    cases h
  | ok number =>
    rw [hnumber] at h
    change (p.kind.checkWidth number).bind _ = .ok bytes at h
    cases hwidth : p.kind.checkWidth number with
    | error e =>
      rw [hwidth] at h
      cases h
    | ok _ =>
      rw [hwidth] at h
      dsimp only [Except.bind] at h
      split at h
      · cases h
      · cases h
        exact ⟨number, rfl, rfl⟩

/-- A patch that is applied writes the bytes of its value. -/
theorem apply_eq_ok (h : lk.apply f s p = (lk', .ok ())) :
    (lk'.Clean → lk.Clean) ∧ lk'.outline = lk.outline ∧ ∃ bytes, lk.Encodes f p bytes
      ∧ lk'.registry = lk.registry.writeInto f s p.offset.toNat bytes := by
  have hnoted := noted_evaluate lk f p
  unfold apply at h
  dsimp only at h
  split at h
  · cases h
  next value hvalue =>
  split at h
  · cases h
  next bytes hbytes =>
  cases h
  have hencodes : (lk.evaluate f p).1.Encodes f p bytes := by
    obtain ⟨number, hnumber, rfl⟩ := patchedBytes_eq_ok hbytes
    refine ⟨value, number, ?_, hnumber, rfl⟩
    -- evaluation has noted warnings only, which no value depends on
    obtain ⟨⟨d, heq⟩, -⟩ := hnoted
    rw [heq]
    exact hvalue
  refine ⟨fun hclean => hnoted.2 (clean_write_iff.mp hclean), ?_, bytes,
    hencodes.of_outline_eq hnoted.outline_eq.symm, ?_⟩
  · rw [outline_write, hnoted.outline_eq]
  · rw [registry_write, hnoted.registry_eq]

/-- Patches of one file that leave no problem were all applied. -/
theorem patched_of_applyPatches {jobs : List (Section × Patch)} {count total : ℕ}
    (h : lk.applyPatches f count jobs = (lk', .ok total)) (hclean : lk'.Clean) :
    lk.Clean ∧ lk'.outline = lk.outline
      ∧ lk.Patched lk.registry (jobs.map fun job => (f, job.1, job.2)) lk'.registry := by
  induction jobs generalizing lk count with
  | nil =>
    cases h
    exact ⟨hclean, rfl, .nil _⟩
  | cons job rest ih =>
    obtain ⟨s, p⟩ := job
    unfold applyPatches at h
    split at h
    · next after happly =>
      obtain ⟨hclean', houtline, bytes, hencodes, hregistry⟩ := apply_eq_ok happly
      obtain ⟨hafter, houtline', hpatched⟩ := ih h
      refine ⟨hclean' hafter, houtline'.trans houtline, .cons hencodes ?_⟩
      rw [← hregistry]
      exact hpatched.of_outline_eq houtline.symm
    · next after e happly =>
      -- a patch that cannot be applied ends the work or leaves a problem
      split at h
      · cases h
      · exact absurd (ih h).1 (not_clean_report _ _)

/-- Patches of all files that leave no problem were all applied. -/
theorem patched_of_forFiles {files : List ObjectFile}
    (h : lk.forFiles applyFile files = (lk', .ok ())) (hclean : lk'.Clean) :
    lk.Clean ∧ lk'.outline = lk.outline
      ∧ lk.Patched lk.registry (jobsOf (callsOf files)) lk'.registry := by
  induction files generalizing lk with
  | nil =>
    cases h
    exact ⟨hclean, rfl, .nil _⟩
  | cons f rest ih =>
    unfold forFiles at h
    split at h
    · next after hfile =>
      unfold applyFile at hfile
      split at hfile
      · cases hfile
      next applied total happlied =>
      cases hfile
      obtain ⟨hafter, houtline, hrest⟩ := ih h
      obtain ⟨hclean', houtline', hpatched⟩ := patched_of_applyPatches happlied hafter
      refine ⟨hclean', houtline.trans houtline', ?_⟩
      rw [jobsOf_callsOf_cons]
      exact hpatched.append (hrest.of_outline_eq houtline'.symm)
    · cases h

theorem noted_checkAssertion {a : Assertion} {problem : Option Problem}
    (h : lk.checkAssertion f a = (lk', problem)) : lk.Noted lk' := by
  have hnoted := noted_evaluate lk f a.patch
  unfold checkAssertion at h
  dsimp only at h
  split at h
  · split at h
    · cases h
      exact hnoted
    · cases h
      exact hnoted.trans (noted_report _ _)
  · split at h
    · cases h
      exact hnoted
    · unfold failAssertion at h
      dsimp only at h
      split at h
      · cases h
        refine hnoted.trans ⟨⟨_, rfl⟩, fun hclean => ?_⟩
        exact Nat.le_zero.mp ((problemCount_le_warn _ _).trans (le_of_eq hclean))
      · split at h
        · cases h
          exact hnoted.trans (noted_report _ _)
        · cases h
          exact hnoted

theorem noted_checkEach {assertions : List Assertion} {result : Except Problem Unit}
    (h : lk.checkEach f assertions = (lk', result)) : lk.Noted lk' := by
  induction assertions generalizing lk with
  | nil =>
    cases h
    exact .refl _
  | cons a rest ih =>
    unfold checkEach at h
    split at h
    · next after hafter => exact (noted_checkAssertion hafter).trans (ih h)
    · next after problem hafter =>
      cases h
      exact noted_checkAssertion hafter

/-- Checking assertions changes nothing but the diagnostics. -/
theorem noted_of_forFiles {files : List ObjectFile} {result : Except Problem Unit}
    (h : lk.forFiles checkAssertions files = (lk', result)) : lk.Noted lk' := by
  induction files generalizing lk with
  | nil =>
    cases h
    exact .refl _
  | cons f rest ih =>
    unfold forFiles at h
    split at h
    · next after hafter => exact (noted_checkEach hafter).trans (ih h)
    · next after problem hafter =>
      cases h
      exact noted_checkEach hafter

end Linker

/-! ## Windows -/

theorem Merged.eq_of_outline_eq {m m' : Merged} (h : m'.outline = m.outline) :
    m' = { m with data := m'.data, tail := m'.tail } :=
  congrArg (fun n : Merged => { n with data := m'.data, tail := m'.tail }) h

namespace Registry

variable {calls : List (ObjectFile × Section)} {r r' : Registry} {f g : ObjectFile}
  {s t : Section}

/-- A section of a file is the member `x` of the merged section `m`, which is at position `i`. -/
structure Window (r : Registry) (f : ObjectFile) (s : Section) (i : ℕ) (m : Merged) (x : Member) :
    Prop where
  position_eq : r.positions[s.name]? = some i
  section_eq : r.sections[i]? = some m
  member_eq : m.member? (callKey (f, s)) = some x
  call_eq : x.call = (f, s)
  kind_eq : m.kind = s.kind

/-- The sections of `calls` are the members of the registry, and in ROM members lie one after the
other. -/
structure Houses (calls : List (ObjectFile × Section)) (r : Registry) : Prop where
  identified : Identified calls
  consecutive : ∀ m ∈ r.sections, m.kind.hasData = true →
    Consecutive 0 m.members.toList m.size.toNat
  window : ∀ f s, (f, s) ∈ calls → ∃ i m x, r.Window f s i m x
  resident : ∀ {i : ℕ} {m : Merged}, r.sections[i]? = some m → ∀ x ∈ m.members,
    x.call ∈ calls ∧ r.Window x.file x.content i m x

/-- The members of ROM sections supplied all their bytes. -/
def Filled (r : Registry) : Prop :=
  ∀ m ∈ r.sections, m.kind.hasData = true → m.data.size = m.size.toNat

/-- The byte at an index of a section of a file in the merged bytes. -/
def byteAt (r : Registry) (f : ObjectFile) (s : Section) (k : ℕ) : Option UInt8 :=
  (r.find? s.name).bind fun m =>
    (m.member? (callKey (f, s))).bind fun x => m.data[x.offset.toNat + k]?

namespace Window

variable {i : ℕ} {m : Merged} {x : Member}

theorem find?_eq (h : r.Window f s i m x) : r.find? s.name = some m := by
  unfold find?
  rw [h.position_eq, Option.bind_some, h.section_eq]

theorem member?_eq (h : r.Window f s i m x) : r.member? f s = some x := by
  unfold member?
  rw [h.find?_eq, Option.bind_some]
  exact h.member_eq

theorem byteAt_eq (h : r.Window f s i m x) (k : ℕ) :
    r.byteAt f s k = m.data[x.offset.toNat + k]? := by
  unfold byteAt
  rw [h.find?_eq, Option.bind_some, h.member_eq, Option.bind_some]

theorem mem_sections (h : r.Window f s i m x) : m ∈ r.sections :=
  Array.mem_of_getElem? h.section_eq

theorem mem_members (h : r.Window f s i m x) : x ∈ m.members.toList :=
  Array.mem_toList_iff.mpr (Array.mem_of_find?_eq_some h.member_eq)

theorem content_eq (h : r.Window f s i m x) : x.content = s :=
  congrArg Prod.snd h.call_eq

theorem hasData_eq (h : r.Window f s i m x) : m.kind.hasData = s.kind.hasData := by
  rw [h.kind_eq]

/-- The window of a member lies inside of the merged section. -/
theorem stop_le (h : r.Window f s i m x) (hr : r.Houses calls) (hdata : s.kind.hasData = true) :
    x.offset.toNat + s.size.toNat ≤ m.size.toNat := by
  have hbounds := (hr.consecutive m h.mem_sections (h.hasData_eq.trans hdata)).bounds h.mem_members
  rw [h.content_eq] at hbounds
  exact hbounds.2

/-- A position in a merged section belongs to one section only. -/
theorem call_eq_of_offset_eq {y : Member} (h : r.Window f s i m x) (h' : r.Window g t i m y)
    (hr : r.Houses calls) (hdata : s.kind.hasData = true) {a b : ℕ} (ha : a < s.size.toNat)
    (hb : b < t.size.toNat) (hab : x.offset.toNat + a = y.offset.toNat + b) : (f, s) = (g, t) := by
  have hx : x.Holds (y.offset.toNat + b) := by
    unfold Member.Holds
    rw [h.content_eq]
    omega
  have hy : y.Holds (y.offset.toNat + b) := by
    unfold Member.Holds
    rw [h'.content_eq]
    omega
  have hconsecutive := hr.consecutive m h.mem_sections (h.hasData_eq.trans hdata)
  have hxy := hconsecutive.eq_of_holds h.mem_members h'.mem_members hx hy
  rw [← h.call_eq, hxy, h'.call_eq]

end Window

theorem section_of_outline_eq (h : r'.outline = r.outline) {i : ℕ} {m' : Merged}
    (hm' : r'.sections[i]? = some m') :
    ∃ m data tail, r.sections[i]? = some m ∧ m' = { m with data, tail } := by
  have hsections : r'.sections.map Merged.outline = r.sections.map Merged.outline :=
    congrArg (fun r : Registry => r.sections) h
  have hi : (r.sections.map Merged.outline)[i]? = some m'.outline := by
    rw [← hsections, Array.getElem?_map, hm']
    rfl
  rw [Array.getElem?_map] at hi
  obtain ⟨m, hm, houtline⟩ := Option.map_eq_some_iff.mp hi
  exact ⟨m, m'.data, m'.tail, hm, Merged.eq_of_outline_eq houtline.symm⟩

theorem positions_of_outline_eq (h : r'.outline = r.outline) : r'.positions = r.positions := by
  have hpositions : r'.outline.positions = r.outline.positions := by rw [h]
  exact hpositions

theorem Window.of_outline_eq {i : ℕ} {m : Merged} {x : Member} {data tail : Array UInt8}
    (hw : r.Window f s i m x) (h : r'.outline = r.outline)
    (hm : r'.sections[i]? = some { m with data, tail }) :
    r'.Window f s i { m with data, tail } x := by
  refine ⟨?_, hm, hw.member_eq, hw.call_eq, hw.kind_eq⟩
  rw [positions_of_outline_eq h]
  exact hw.position_eq

/-- The invariant does not depend on bytes. -/
theorem Houses.of_outline_eq (hr : r.Houses calls) (h : r'.outline = r.outline) :
    r'.Houses calls := by
  refine ⟨hr.identified, ?_, ?_, ?_⟩
  · intro m' hm' hdata
    obtain ⟨i, hi⟩ := Array.mem_iff_getElem?.mp hm'
    obtain ⟨m, data, tail, hm, rfl⟩ := section_of_outline_eq h hi
    exact hr.consecutive m (Array.mem_of_getElem? hm) hdata
  · intro f s hcall
    obtain ⟨i, m, x, hw⟩ := hr.window f s hcall
    obtain ⟨m', data, tail, hm', rfl⟩ := section_of_outline_eq h.symm hw.section_eq
    exact ⟨i, m', x, hw.of_outline_eq h hm'⟩
  · intro i m' hm' x hx
    obtain ⟨m, data, tail, hm, rfl⟩ := section_of_outline_eq h hm'
    obtain ⟨hcall, hw⟩ := hr.resident hm x hx
    exact ⟨hcall, hw.of_outline_eq h hm'⟩

/-- A write into a section of a file is a write into the merged bytes. -/
theorem writeInto_eq {i : ℕ} {m : Merged} {x : Member} (h : r.Window f s i m x)
    (hr : r.Houses calls) (hfilled : r.Filled) (hdata : s.kind.hasData = true) {position : ℕ}
    {new : Bytes} (hfits : position + new.length ≤ s.size.toNat) :
    (r.writeInto f s position new).positions = r.positions
      ∧ ∀ j : ℕ, (r.writeInto f s position new).sections[j]? = if j = i
        then some { m with data := overwrite m.data (x.offset.toNat + position) new }
        else r.sections[j]? := by
  have hstop := h.stop_le hr hdata
  have hsize := hfilled m h.mem_sections (h.hasData_eq.trans hdata)
  have hwrite : m.write (x.offset.toNat + position) new
      = { m with data := overwrite m.data (x.offset.toNat + position) new } := by
    unfold Merged.write
    dsimp only
    rw [if_pos (by omega)]
  have hinto : r.writeInto f s position new
      = { r with sections := r.sections.modify i (·.write (x.offset.toNat + position) new) } := by
    unfold writeInto
    rw [hdata, h.member?_eq]
    dsimp only
    unfold writeWindow
    rw [h.content_eq, h.position_eq]
  rw [hinto]
  refine ⟨rfl, fun j => ?_⟩
  show (r.sections.modify i _)[j]? = _
  rw [Array.getElem?_modify]
  by_cases hj : j = i
  · rw [if_pos hj.symm, if_pos hj, hj, h.section_eq, Option.map_some, hwrite]
  · rw [if_neg (Ne.symm hj), if_neg hj]

theorem Filled.writeInto (hfilled : r.Filled) (hr : r.Houses calls) (hcall : (f, s) ∈ calls)
    (hdata : s.kind.hasData = true) {position : ℕ} {new : Bytes}
    (hfits : position + new.length ≤ s.size.toNat) : (r.writeInto f s position new).Filled := by
  obtain ⟨i, m, x, hw⟩ := hr.window f s hcall
  have hsections := (writeInto_eq hw hr hfilled hdata hfits).2
  intro n hn hndata
  obtain ⟨j, hj⟩ := Array.mem_iff_getElem?.mp hn
  rw [hsections] at hj
  split_ifs at hj with hij
  · obtain rfl := Option.some.inj hj
    show (overwrite m.data _ new).size = m.size.toNat
    rw [size_overwrite]
    exact hfilled m hw.mem_sections (hw.hasData_eq.trans hdata)
  · exact hfilled n (Array.mem_of_getElem? hj) hndata

/-- The step: a write into one section changes the bytes that it covers, and no byte of another
section. -/
theorem byteAt_writeInto (hr : r.Houses calls) (hfilled : r.Filled) (hcall : (f, s) ∈ calls)
    (hdata : s.kind.hasData = true) {position : ℕ} {new : Bytes}
    (hfits : position + new.length ≤ s.size.toNat) (hcall' : (g, t) ∈ calls) {k : ℕ}
    (hk : k < t.size.toNat) :
    (r.writeInto f s position new).byteAt g t k
      = if callKey (f, s) = callKey (g, t) ∧ position ≤ k ∧ k < position + new.length
        then new[k - position]? else r.byteAt g t k := by
  obtain ⟨i, m, x, hw⟩ := hr.window f s hcall
  obtain ⟨j, n, y, hw'⟩ := hr.window g t hcall'
  obtain ⟨hpositions, hsections⟩ := writeInto_eq hw hr hfilled hdata hfits
  have hfind : (r.writeInto f s position new).find? t.name
      = (r.writeInto f s position new).sections[j]? := by
    unfold find?
    rw [hpositions, hw'.position_eq, Option.bind_some]
  rw [hw'.byteAt_eq]
  unfold byteAt
  rw [hfind, hsections]
  by_cases hij : j = i
  · -- both sections are members of one merged section
    subst hij
    obtain rfl : m = n := Option.some.inj (hw.section_eq.symm.trans hw'.section_eq)
    have hmdata := hw.hasData_eq.trans hdata
    have hstop := hw.stop_le hr hdata
    have hsize := hfilled m hw.mem_sections hmdata
    rw [if_pos rfl, Option.bind_some]
    show (m.member? (callKey (g, t))).bind
      (fun x' => (overwrite m.data (x.offset.toNat + position) new)[x'.offset.toNat + k]?) = _
    rw [hw'.member_eq, Option.bind_some, getElem?_overwrite (by omega)]
    by_cases hkey : callKey (f, s) = callKey (g, t)
    · obtain rfl : x = y := by
        have hx := hw.member_eq
        rw [hkey, hw'.member_eq] at hx
        exact (Option.some.inj hx).symm
      by_cases hin : position ≤ k ∧ k < position + new.length
      · rw [if_pos (by omega), if_pos ⟨hkey, hin⟩]
        congr 1
        omega
      · rw [if_neg (by omega), if_neg fun h => hin h.2]
    · -- their windows do not overlap
      have hout : ¬(x.offset.toNat + position ≤ y.offset.toNat + k
          ∧ y.offset.toNat + k < x.offset.toNat + position + new.length) := by
        intro hin
        have hcalls := hw.call_eq_of_offset_eq hw' hr hdata
          (a := y.offset.toNat + k - x.offset.toNat) (by omega) hk (by omega)
        exact hkey (by rw [hcalls])
      rw [if_neg hout, if_neg fun h => hkey h.1]
  · rw [if_neg hij, hw'.section_eq, Option.bind_some, hw'.member_eq, Option.bind_some, if_neg]
    rintro ⟨hkey, -⟩
    have hcalls := hr.identified _ hcall _ hcall' hkey
    have hname : s.name = t.name := congrArg (fun call => call.2.name) hcalls
    have hposition := hw.position_eq
    rw [hname, hw'.position_eq] at hposition
    exact hij (Option.some.inj hposition)

end Registry

/-! ## What becomes of a byte -/

/-- The last patch that covers a byte. -/
def lastAt (k : ℕ) (ps : List Patch) : Option Patch :=
  ps.reverse.find? fun p => p.Covers k

theorem lastAt_eq_none_iff {k : ℕ} {ps : List Patch} :
    lastAt k ps = none ↔ ∀ p ∈ ps, ¬p.Covers k := by
  unfold lastAt
  simp

theorem lastAt_eq_some_iff {k : ℕ} {ps : List Patch} {p : Patch} :
    lastAt k ps = some p ↔ p.Covers k ∧ ∃ before after, ps = before ++ p :: after
      ∧ ∀ q ∈ after, ¬q.Covers k := by
  unfold lastAt
  rw [List.find?_eq_some_iff_append, decide_eq_true_iff]
  apply and_congr_right'
  constructor
  · rintro ⟨after, before, hreverse, hafter⟩
    refine ⟨before.reverse, after.reverse, ?_, by simpa using hafter⟩
    have heq := congrArg List.reverse hreverse
    simpa using heq
  · rintro ⟨before, after, rfl, hafter⟩
    exact ⟨after.reverse, before.reverse, by simp, by simpa using hafter⟩

/-- The patches of the section of a key among those of all sections. -/
def patchesFor (key : SectionKey) (jobs : List Job) : List Patch :=
  jobs.filterMap fun job => if callKey (job.1, job.2.1) = key then some job.2.2 else none

theorem patchesFor_cons_of_eq {key : SectionKey} {f : ObjectFile} {s : Section}
    (h : callKey (f, s) = key) (p : Patch) (rest : List Job) :
    patchesFor key ((f, s, p) :: rest) = p :: patchesFor key rest := by
  simp [patchesFor, h]

theorem patchesFor_cons_of_ne {key : SectionKey} {f : ObjectFile} {s : Section}
    (h : callKey (f, s) ≠ key) (p : Patch) (rest : List Job) :
    patchesFor key ((f, s, p) :: rest) = patchesFor key rest := by
  simp [patchesFor, h]

theorem patchesFor_append (key : SectionKey) (jobs jobs' : List Job) :
    patchesFor key (jobs ++ jobs') = patchesFor key jobs ++ patchesFor key jobs' :=
  List.filterMap_append

theorem patchesFor_jobsOf_of_not_mem {key : SectionKey} {calls : List (ObjectFile × Section)}
    (h : key ∉ calls.map callKey) : patchesFor key (jobsOf calls) = [] := by
  refine List.filterMap_eq_nil_iff.mpr fun job hjob => ?_
  obtain ⟨call, hcall, hjob⟩ := List.mem_flatMap.mp hjob
  obtain ⟨p, -, rfl⟩ := List.mem_map.mp hjob
  refine if_neg fun hkey => h ?_
  rw [← hkey]
  exact List.mem_map_of_mem hcall

/-- Each section is patched by its own patches, in their order. -/
theorem patchesFor_jobsOf {calls : List (ObjectFile × Section)} (hkeys : (calls.map callKey).Nodup)
    {g : ObjectFile} {t : Section} (hcall : (g, t) ∈ calls) :
    patchesFor (callKey (g, t)) (jobsOf calls) = t.patches := by
  induction calls with
  | nil => cases hcall
  | cons call rest ih =>
    obtain ⟨f, s⟩ := call
    rw [List.map_cons, List.nodup_cons] at hkeys
    have hjobs : jobsOf ((f, s) :: rest) = s.patches.map (fun p => (f, s, p)) ++ jobsOf rest := rfl
    rw [hjobs, patchesFor_append]
    rcases List.mem_cons.mp hcall with heq | hcall
    · cases heq
      rw [patchesFor_jobsOf_of_not_mem hkeys.1, List.append_nil]
      unfold patchesFor
      rw [List.filterMap_map]
      simp
    · have hne : callKey (f, s) ≠ callKey (g, t) := by
        intro hkey
        rw [hkey] at hkeys
        exact hkeys.1 (List.mem_map_of_mem hcall)
      rw [ih hkeys.2 hcall]
      unfold patchesFor
      rw [List.filterMap_map]
      simp [hne]

namespace Linker

variable {lk : Linker} {g : ObjectFile} {t : Section} {k : ℕ}

/-- What patches of a section make of the byte at an index: the last one that covers it decides,
and a byte that none covers is kept. -/
inductive ByteAfter (lk : Linker) (f : ObjectFile) (k : ℕ) (old : Option UInt8) :
    List Patch → Option UInt8 → Prop
  | kept {patches : List Patch} (uncovered : ∀ p ∈ patches, ¬p.Covers k) :
      ByteAfter lk f k old patches old
  | written {before after : List Patch} {p : Patch} {bytes : Bytes} (covers : p.Covers k)
      (last : ∀ q ∈ after, ¬q.Covers k) (encodes : lk.Encodes f p bytes) :
      ByteAfter lk f k old (before ++ p :: after) bytes[k - p.offset.toNat]?

/-- One more patch in front. -/
theorem ByteAfter.cons {old new : Option UInt8} {p : Patch} {rest : List Patch} {bytes : Bytes}
    (hencodes : lk.Encodes g p bytes)
    (h : lk.ByteAfter g k (if p.Covers k then bytes[k - p.offset.toNat]? else old) rest new) :
    lk.ByteAfter g k old (p :: rest) new := by
  cases h with
  | @written before after q bytes covers last encodes =>
    exact @ByteAfter.written lk g k old (p :: before) after q bytes covers last encodes
  | kept uncovered =>
    by_cases hp : p.Covers k
    · rw [if_pos hp]
      exact @ByteAfter.written lk g k old [] rest p bytes hp uncovered hencodes
    · rw [if_neg hp]
      refine .kept fun q hq => ?_
      rcases List.mem_cons.mp hq with rfl | hq
      · exact hp
      · exact uncovered q hq

theorem ByteAfter.of_outline_eq {lk' : Linker} {old new : Option UInt8} {patches : List Patch}
    (h : lk.ByteAfter g k old patches new) (houtline : lk'.outline = lk.outline) :
    lk'.ByteAfter g k old patches new := by
  cases h with
  | kept uncovered => exact .kept uncovered
  | written covers last encodes =>
    exact .written covers last (encodes.of_outline_eq houtline)

theorem ByteAfter.lastAt_cases {old new : Option UInt8} {patches : List Patch}
    (h : lk.ByteAfter g k old patches new) :
    (lastAt k patches = none ∧ new = old)
      ∨ ∃ p bytes, lastAt k patches = some p ∧ lk.Encodes g p bytes
        ∧ new = bytes[k - p.offset.toNat]? := by
  cases h with
  | kept uncovered => exact Or.inl ⟨lastAt_eq_none_iff.mpr uncovered, rfl⟩
  | @written before after p bytes covers last encodes =>
    have hlast : lastAt k (before ++ p :: after) = some p :=
      lastAt_eq_some_iff.mpr ⟨covers, before, after, rfl, last⟩
    exact Or.inr ⟨p, bytes, hlast, encodes, rfl⟩

/-- Patches leave the outline of the registry alone. -/
theorem Patched.outline_eq {r r' : Registry} {jobs : List Job} (h : lk.Patched r jobs r') :
    r'.outline = r.outline := by
  induction h with
  | nil r => rfl
  | cons encodes _ ih => exact ih.trans (outline_writeInto ..)

/-- The patches of a run are patches of `calls`, and they write inside of their sections. -/
def JobsInside (calls : List (ObjectFile × Section)) (jobs : List Job) : Prop :=
  ∀ f s p, (f, s, p) ∈ jobs → (f, s) ∈ calls ∧ s.kind.hasData = true
    ∧ p.offset.toNat + p.kind.width ≤ s.size.toNat

/-- The patches of well-formed sections write inside of their sections. -/
theorem jobsInside_jobsOf {calls : List (ObjectFile × Section)}
    (hwell : ∀ call ∈ calls, call.2.WellFormed) : JobsInside calls (jobsOf calls) := by
  intro f s p hjob
  obtain ⟨call, hcall, hjob⟩ := List.mem_flatMap.mp hjob
  obtain ⟨q, hq, heq⟩ := List.mem_map.mp hjob
  cases heq
  have hwf := hwell call hcall
  refine ⟨hcall, ?_, hwf.patch_le _ hq⟩
  by_contra hdata
  rw [hwf.patches_eq (by simpa using hdata)] at hq
  cases hq

/-- The step: the next patch writes inside of its section, and so do the others afterwards. -/
theorem JobsInside.of_cons {calls : List (ObjectFile × Section)} {f : ObjectFile} {s : Section}
    {p : Patch} {rest : List Job} (hjobs : JobsInside calls ((f, s, p) :: rest)) {bytes : Bytes}
    (hencodes : lk.Encodes f p bytes) :
    ((f, s) ∈ calls ∧ s.kind.hasData = true ∧ p.offset.toNat + bytes.length ≤ s.size.toNat)
      ∧ JobsInside calls rest := by
  rw [hencodes.length_eq]
  exact ⟨hjobs f s p (List.mem_cons_self ..),
    fun f s p hjob => hjobs f s p (List.mem_cons_of_mem _ hjob)⟩

section Run

variable {calls : List (ObjectFile × Section)} {r r' : Registry} {jobs : List Job}
  (h : lk.Patched r jobs r') (hr : r.Houses calls) (hfilled : r.Filled)
  (hjobs : JobsInside calls jobs)

include h hr hfilled hjobs

theorem Patched.filled : r'.Filled := by
  induction h with
  | nil r => exact hfilled
  | @cons r r' f s p bytes rest encodes _ ih =>
    obtain ⟨⟨hs, hdata, hfits⟩, hrest⟩ := hjobs.of_cons encodes
    exact ih (hr.of_outline_eq (outline_writeInto r f s p.offset.toNat bytes))
      (hfilled.writeInto hr hs hdata hfits) hrest

/-- The run: the bytes of a section after the patches of all sections. -/
theorem Patched.byteAt (hcall : (g, t) ∈ calls) (hk : k < t.size.toNat) :
    lk.ByteAfter g k (r.byteAt g t k) (patchesFor (callKey (g, t)) jobs) (r'.byteAt g t k) := by
  induction h with
  | nil r => exact .kept (by simp [patchesFor])
  | @cons r r' f s p bytes rest encodes _ ih =>
    obtain ⟨⟨hs, hdata, hfits⟩, hrest⟩ := hjobs.of_cons encodes
    have hbyte := ih (hr.of_outline_eq (outline_writeInto r f s p.offset.toNat bytes))
      (hfilled.writeInto hr hs hdata hfits) hrest
    rw [Registry.byteAt_writeInto hr hfilled hs hdata hfits hcall hk, encodes.length_eq] at hbyte
    by_cases hkey : callKey (f, s) = callKey (g, t)
    · -- the patch is one of the section that is looked at
      obtain ⟨rfl, rfl⟩ := Prod.mk.inj (hr.identified _ hs _ hcall hkey)
      rw [patchesFor_cons_of_eq rfl]
      refine .cons encodes ?_
      simp only [true_and] at hbyte
      exact hbyte
    · rw [patchesFor_cons_of_ne hkey]
      simp only [hkey, false_and, if_false] at hbyte
      exact hbyte

end Run

end Linker

end BankedLinker
