import BankedLinker.Proofs.Representation
import BankedLinker.Proofs.Success

/-!
# What the registry knows of a name

Merging a section concerns the merged section of its name and no other. So what the registry knows
of a name depends on the sections of this name and on their order, and not on what is merged in
between. Only the numbers of the merged sections tell the difference.

* `Merged.unnumbered` and `Registry.known?` leave these numbers out;
* `Registry.merge` is a merge as far as its name is concerned, `Registry.add_eq_merge` says so;
* `Registry.known?_addAll` and `Registry.allMerged_iff`: sequences of merges, name by name;
* `Registry.Equivalent`: two registries know the same of every name.
-/

namespace BankedLinker

/-- The merged section without its number. -/
def Merged.unnumbered (m : Merged) : Merged :=
  { m with id := 0 }

namespace Merged

variable (m : Merged) (f : ObjectFile) (s : Section)

theorem append_unnumbered (x : Member) : m.unnumbered.append x = (m.append x).unnumbered := by
  unfold append
  dsimp only
  by_cases hdata : x.content.kind.hasData = true
  · rw [if_pos hdata, if_pos hdata]
    rfl
  · rw [if_neg hdata, if_neg hdata]
    rfl

theorem joined_unnumbered : m.unnumbered.joined f s = (m.joined f s).unnumbered := by
  have happend := m.append_unnumbered (m.newMember f s)
  exact congrArg (fun n : Merged =>
    { n with toConstraints := (m.absorb (m.newMember f s).content (m.newMember f s).offset).1 })
    happend

theorem refused_unnumbered : m.unnumbered.refused f s = (m.refused f s).unnumbered := rfl

theorem unmetWish?_unnumbered : m.unnumbered.unmetWish? f s = m.unmetWish? f s := rfl

theorem place_unnumbered (org : UInt16) (bank : UInt32) :
    m.unnumbered.place org bank = (m.place org bank).unnumbered := rfl

end Merged

namespace Registry

variable {r r' : Registry} {f : ObjectFile} {s : Section} {name : Bytes}
  {calls calls' : List (ObjectFile × Section)}

/-- What the registry knows of a name. -/
def known? (r : Registry) (name : Bytes) : Option Merged :=
  (r.find? name).map Merged.unnumbered

/-! ## One merge -/

/-- What becomes of the merged section of a name when a section of this name is merged. -/
def merge (known : Option Merged) (f : ObjectFile) (s : Section) :
    Option Merged × Option Conflict :=
  if s.modifier = .union ∧ s.kind.hasData then (known, some .unionWithData)
  else
    match known.bind (checkKinship · s) with
    | some conflict => (known, some conflict)
    | none =>
      let m := known.getD (emptyFor {} s)
      match m.unmetWish? f s with
      | some wish => (some (m.refused f s), some (.unmet wish))
      | none => (some (m.joined f s), none)

/-- A merge changes the merged section of its name only. -/
theorem Puts.find?_eq {i : ℕ} {m m' : Merged} (hr : r.Indexed) (hr' : r'.Indexed)
    (hslot : r.Slot s i m) (hname : m'.name = m.name) (h : r.Puts r' i m') (name : Bytes) :
    r'.find? name = if name = s.name then some m' else r.find? name := by
  have hsname := hslot.name_eq hr
  split
  · next heq =>
    rw [hr'.find?_eq_some_iff, heq, hname]
    exact ⟨h.mem, hsname⟩
  · next hne =>
    ext n
    rw [hr'.find?_eq_some_iff, hr.find?_eq_some_iff]
    constructor
    · rintro ⟨hn, rfl⟩
      obtain rfl | ⟨hn, -⟩ := h.mem_cases hr' hn
      · exact absurd (hname.trans hsname) hne
      · exact ⟨hn, rfl⟩
    · rintro ⟨hn, rfl⟩
      obtain hn | rfl := h.mem_or_eq hslot hn
      · exact ⟨hn, rfl⟩
      · exact absurd hsname hne

/-- The merged section that a section joins, without its number. -/
theorem Slot.getD_known? {i : ℕ} {m : Merged} (hslot : r.Slot s i m) :
    (r.known? s.name).getD (emptyFor {} s) = m.unnumbered := by
  cases hslot with
  | known position present kinship => simp [known?, find?, position, present]
  | fresh position last empty =>
    rw [empty]
    simp only [known?, find?, position, Option.bind_none, Option.map_none, Option.getD_none]
    rfl

/-- A section may not join exactly if it may not join what is known of its name. -/
theorem checkKinship_known? :
    (r.known? s.name).bind (checkKinship · s) = (r.find? s.name).bind (checkKinship · s) := by
  unfold known?
  cases r.find? s.name <;> rfl

/-- The step: merging a section is a merge with what is known of its name. -/
theorem add_eq_merge (hr : r.Indexed) (f : ObjectFile) (s : Section) :
    ((r.add f s).1.known? s.name, (r.add f s).2) = merge (r.known? s.name) f s
      ∧ ∀ name, name ≠ s.name → (r.add f s).1.known? name = r.known? name := by
  have hindexed := indexed_add hr f s
  by_cases hunion : s.modifier = .union ∧ s.kind.hasData = true
  · unfold add merge
    rw [if_pos hunion, if_pos hunion]
    exact ⟨rfl, fun _ _ => rfl⟩
  cases hkin : (r.find? s.name).bind (checkKinship · s) with
  | some conflict =>
    have hadd : r.add f s = (r, some conflict) := by
      unfold add
      rw [if_neg hunion, hkin]
    unfold merge
    rw [if_neg hunion, checkKinship_known?, hkin, hadd]
    exact ⟨rfl, fun _ _ => rfl⟩
  | none =>
    -- nothing refuses the section, so the merged section of its name looks at its wishes
    obtain ⟨conflict, hrefuses, -⟩ | ⟨i, m, r', hslot, -, hjoin⟩ := add_cases hr f s
    · cases hrefuses with
      | unstorable union hasData => exact absurd ⟨union, hasData⟩ hunion
      | unrelated mem name_eq kinship =>
        rw [hr.find?_eq_some_iff.mpr ⟨mem, name_eq⟩, Option.bind_some, kinship] at hkin
        cases hkin
    · unfold merge
      rw [if_neg hunion, checkKinship_known?, hkin]
      dsimp only
      rw [hslot.getD_known?, m.unmetWish?_unnumbered]
      obtain ⟨wish, hwish, hadd, hputs⟩ | ⟨hwish, hadd, hputs⟩ := hjoin
      · rw [hwish, hadd]
        rw [hadd] at hindexed
        have hfind := hputs.find?_eq hr hindexed hslot (m.name_refused f s)
        refine ⟨?_, fun name hne => ?_⟩
        · dsimp only
          rw [known?, hfind, if_pos rfl, m.refused_unnumbered]
          rfl
        · rw [known?, hfind, if_neg hne, known?]
      · rw [hwish, hadd]
        rw [hadd] at hindexed
        have hfind := hputs.find?_eq hr hindexed hslot (m.name_joined f s)
        refine ⟨?_, fun name hne => ?_⟩
        · dsimp only
          rw [known?, hfind, if_pos rfl, m.joined_unnumbered]
          rfl
        · rw [known?, hfind, if_neg hne, known?]

/-! ## Sequences of merges -/

/-- The sections of a name among those of a sequence. -/
def callsFor (name : Bytes) (calls : List (ObjectFile × Section)) : List (ObjectFile × Section) :=
  calls.filter fun call => call.2.name = name

/-- What becomes of the merged section of a name after merges of sections of this name. -/
def mergeAll (known : Option Merged) (calls : List (ObjectFile × Section)) : Option Merged :=
  calls.foldl (fun known call => (merge known call.1 call.2).1) known

/-- All of the sections of a name can be merged. -/
def Merges : (known : Option Merged) → List (ObjectFile × Section) → Prop
  | _, [] => True
  | known, (f, s) :: rest => (merge known f s).2 = none ∧ Merges (merge known f s).1 rest

theorem known?_addAll (hr : r.Indexed) (calls : List (ObjectFile × Section)) (name : Bytes) :
    (r.addAll calls).known? name = mergeAll (r.known? name) (callsFor name calls) := by
  induction calls generalizing r with
  | nil => rfl
  | cons call rest ih =>
    obtain ⟨f, s⟩ := call
    obtain ⟨hsame, hother⟩ := add_eq_merge hr f s
    show ((r.add f s).1.addAll rest).known? name = _
    rw [ih (indexed_add hr f s)]
    unfold callsFor mergeAll
    rw [List.filter_cons]
    by_cases hname : s.name = name
    · subst hname
      simp only [decide_true, if_true, List.foldl_cons, ← hsame]
    · simp only [hname, decide_false, Bool.false_eq_true, if_false]
      rw [hother name (Ne.symm hname)]

/-- All sections can be merged exactly if those of each name can. -/
theorem allMerged_iff (hr : r.Indexed) (calls : List (ObjectFile × Section)) :
    r.AllMerged calls ↔ ∀ name, Merges (r.known? name) (callsFor name calls) := by
  induction calls generalizing r with
  | nil => exact ⟨fun _ _ => trivial, fun _ => trivial⟩
  | cons call rest ih =>
    obtain ⟨f, s⟩ := call
    obtain ⟨hsame, hother⟩ := add_eq_merge hr f s
    show _ ∧ _ ↔ _
    rw [ih (indexed_add hr f s)]
    have hsplit : ∀ name, Merges (r.known? name) (callsFor name ((f, s) :: rest))
        ↔ (s.name = name → (r.add f s).2 = none)
          ∧ Merges ((r.add f s).1.known? name) (callsFor name rest) := by
      intro name
      unfold callsFor
      rw [List.filter_cons]
      by_cases hname : s.name = name
      · subst hname
        simp only [decide_true, if_true, true_implies]
        show _ ∧ _ ↔ _
        rw [← hsame]
      · simp only [hname, decide_false, Bool.false_eq_true, if_false, false_implies, true_and]
        rw [hother name (Ne.symm hname)]
    simp only [hsplit, forall_and]
    exact and_congr_left fun _ => ⟨fun h _ _ => h, fun h => h s.name rfl⟩

/-! ## Registries that know the same -/

/-- The two registries know the same of every name. -/
def Equivalent (r r' : Registry) : Prop :=
  ∀ name, r.known? name = r'.known? name

theorem equivalent_addAll (h : ∀ name, callsFor name calls = callsFor name calls') :
    (addAll {} calls).Equivalent (addAll {} calls') := by
  intro name
  rw [known?_addAll indexed_empty, known?_addAll indexed_empty, h name]

theorem allMerged_congr (h : ∀ name, callsFor name calls = callsFor name calls') :
    AllMerged {} calls ↔ AllMerged {} calls' := by
  rw [allMerged_iff indexed_empty, allMerged_iff indexed_empty]
  simp only [h]

/-- The merged sections of an indexed registry, without numbers, are what it knows. -/
theorem Indexed.mem_unnumbered_iff (hr : r.Indexed) {m : Merged} :
    m ∈ r.sections.toList.map Merged.unnumbered ↔ r.known? m.name = some m := by
  unfold known?
  rw [List.mem_map, Option.map_eq_some_iff]
  constructor
  · rintro ⟨n, hn, rfl⟩
    exact ⟨n, hr.find?_eq_some_iff.mpr ⟨Array.mem_toList_iff.mp hn, rfl⟩, rfl⟩
  · rintro ⟨n, hn, rfl⟩
    exact ⟨n, Array.mem_toList_iff.mpr (hr.find?_eq_some_iff.mp hn).1, rfl⟩

theorem Indexed.nodup_unnumbered (hr : r.Indexed) :
    (r.sections.toList.map Merged.unnumbered).Nodup := by
  have hnames := hr.nodup_names
  refine List.Nodup.of_map Merged.name ?_
  rw [List.map_map]
  exact hnames

namespace Equivalent

theorem symm (h : r.Equivalent r') : r'.Equivalent r :=
  fun name => (h name).symm

/-- Equivalent registries have the same merged sections in some order, numbers apart. -/
theorem perm (h : r.Equivalent r') (hr : r.Indexed) (hr' : r'.Indexed) :
    (r.sections.toList.map Merged.unnumbered).Perm (r'.sections.toList.map Merged.unnumbered) := by
  rw [List.perm_ext_iff_of_nodup hr.nodup_unnumbered hr'.nodup_unnumbered]
  intro m
  rw [hr.mem_unnumbered_iff, hr'.mem_unnumbered_iff, h]

variable (h : r.Equivalent r')

include h

theorem exists_section {name : Bytes} {m : Merged} (hfind : r.find? name = some m) :
    ∃ m' ∈ r'.sections, m'.unnumbered = m.unnumbered := by
  have hknown := h name
  unfold known? at hknown
  rw [hfind, Option.map_some, eq_comm, Option.map_eq_some_iff] at hknown
  obtain ⟨m', hfind', heq⟩ := hknown
  obtain ⟨i, -, hi⟩ := Option.bind_eq_some_iff.mp hfind'
  exact ⟨m', Array.mem_of_getElem? hi, heq⟩

theorem member?_eq (f : ObjectFile) (s : Section) : r.member? f s = r'.member? f s := by
  have hknown : ∀ r : Registry,
      r.member? f s = (r.known? s.name).bind (·.member? ⟨f.index, s.id⟩) := by
    intro r
    unfold member? known?
    cases r.find? s.name <;> rfl
  rw [hknown, hknown, h]

theorem org_eq (f : ObjectFile) (s : Section) : r.org f s = r'.org f s := by
  unfold org
  rw [h.member?_eq]

theorem bank_eq (f : ObjectFile) (s : Section) : r.bank f s = r'.bank f s := by
  unfold bank
  rw [h.member?_eq]

theorem address_eq (d : Definition) : r.address d = r'.address d := by
  unfold address
  simp only [h.org_eq]

end Equivalent

end Registry

end BankedLinker
