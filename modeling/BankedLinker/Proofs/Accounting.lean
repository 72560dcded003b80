import BankedLinker.Proofs.Assignment
import Mathlib.Data.List.Perm.Basic

/-!
# Every section is accounted for

An assignment passes the sections through checks, two groups, two sorts and two loops. No section
gets lost on the way and none is settled twice: a section that is not placed is reported once and
stays as it was, and a section that is placed is not reported and takes its members with it.

* `Placement.Assigns`: outcomes of an assignment in the order of the sections;
* `Placement.Outcome.after` and `Placement.Outcome.problems` are what an outcome leaves of its
  section and what is recorded of it, `Placement.Outcome.Accounts` says that they fit together;
* `Linker.problems_foldl_settle` and `Linker.sections_foldl_settle_of_mem`: a linker records and
  keeps exactly that;
* `Linker.assignSome_accounts` is the result.
-/

namespace BankedLinker

namespace Placement

variable {map : MemoryMap} {sections : List Merged} {outcomes : List Outcome} {o : Outcome}

/-! ## One outcome -/

/-- A section as its outcome leaves it. -/
def Outcome.after (o : Outcome) : Merged :=
  match o.result with
  | .error _ => o.subject
  | .ok loc => o.subject.place loc.org loc.bank

/-- What is recorded of an outcome. -/
def Outcome.problems (o : Outcome) : List Problem :=
  match o.result with
  | .error e => [.placement o.subject e]
  | .ok _ => []

namespace Outcome

theorem after_of_error {e : PlacementError} (h : o.result = .error e) : o.after = o.subject := by
  unfold after
  rw [h]

theorem after_of_ok {loc : Location} (h : o.result = .ok loc) :
    o.after = o.subject.place loc.org loc.bank := by
  unfold after
  rw [h]

theorem problems_of_error {e : PlacementError} (h : o.result = .error e) :
    o.problems = [.placement o.subject e] := by
  unfold problems
  rw [h]

theorem problems_of_ok {loc : Location} (h : o.result = .ok loc) : o.problems = [] := by
  unfold problems
  rw [h]

/-- A section that is placed after its outcome, and was not before, found a location. -/
theorem exists_ok_of_placed (hunplaced : o.subject.placed = false) (h : o.after.placed = true) :
    ∃ loc, o.result = .ok loc := by
  cases hresult : o.result with
  | error e =>
    rw [after_of_error hresult, hunplaced] at h
    cases h
  | ok loc => exact ⟨loc, rfl⟩

/-- The outcome accounts for its section: without a place the section is as it was, and one problem
is recorded; with a place none is, and the members follow the section, each at its own offset. -/
structure Accounts (o : Outcome) : Prop where
  unplaced : o.after.placed = false →
    o.after = o.subject ∧ ∃ e, o.problems = [.placement o.subject e]
  unreported : o.after.placed = true → o.problems = []
  moved : o.after.placed = true →
    ∃ org bank, o.after = o.subject.place org bank ∧ ∀ x ∈ o.after.members,
      x.org = o.after.org + x.offset.toUInt16 ∧ x.bank = o.after.bank ∧ x.placed = true
        ∧ (x.offset ≤ o.after.size → x.org.toNat = o.after.org.toNat + x.offset.toNat)

theorem Accounts.length_problems (h : o.Accounts) :
    o.problems.length = if o.after.placed then 0 else 1 := by
  cases hplaced : o.after.placed with
  | true => rw [h.unreported hplaced, if_pos rfl, List.length_nil]
  | false =>
    obtain ⟨-, e, he⟩ := h.unplaced hplaced
    rw [he, List.length_singleton]
    rfl

end Outcome

/-- The offset of a member that lies in its section does not lead out of the address space. -/
theorem Settled.toNat_org_add {done : List Outcome} {m : Merged} {loc : Location}
    (h : Settled map done m loc) {offset : UInt32} (hle : offset ≤ m.size) :
    (loc.org + offset.toUInt16).toNat = loc.org.toNat + offset.toNat := by
  have hstop := h.stop_le
  have hbounds := map.region_bounds m.kind
  rw [UInt32.le_iff_toNat_le] at hle
  rw [UInt16.toNat_add, UInt32.toNat_toUInt16]
  omega

theorem Settled.accounts {done : List Outcome} {loc : Location}
    (h : Settled map done o.subject loc) (hok : o.result = .ok loc) : o.Accounts where
  unplaced hplaced := by
    rw [Outcome.after_of_ok hok] at hplaced
    cases hplaced
  unreported _ := Outcome.problems_of_ok hok
  moved _ := by
    refine ⟨loc.org, loc.bank, Outcome.after_of_ok hok, ?_⟩
    rw [Outcome.after_of_ok hok]
    intro x hx
    obtain ⟨y, -, rfl⟩ := Array.mem_map.mp hx
    exact ⟨rfl, rfl, rfl, fun hle => h.toNat_org_add hle⟩

theorem Outcome.accounts_of_error {e : PlacementError} (hunplaced : o.subject.placed = false)
    (he : o.result = .error e) : o.Accounts where
  unplaced _ := ⟨after_of_error he, e, problems_of_error he⟩
  unreported hplaced := by
    obtain ⟨loc, hloc⟩ := exists_ok_of_placed hunplaced hplaced
    cases he.symm.trans hloc
  moved hplaced := by
    obtain ⟨loc, hloc⟩ := exists_ok_of_placed hunplaced hplaced
    cases he.symm.trans hloc

/-! ## All outcomes -/

/-- The outcomes of an assignment in the order of the sections. -/
structure Assigns (map : MemoryMap) (sections : List Merged) (outcomes : List Outcome) : Prop where
  perm : outcomes.Perm (assign map sections)
  subjects_eq : outcomes.map Outcome.subject = sections

theorem exists_assigns (map : MemoryMap) (sections : List Merged) :
    ∃ outcomes, Assigns map sections outcomes := by
  have hperm : Relation.Comp (· = List.map Outcome.subject ·) List.Perm sections
      (assign map sections) := by
    rw [List.eq_map_comp_perm]
    exact (subjects_assign map sections).symm
  obtain ⟨outcomes, hsubjects, houtcomes⟩ := hperm
  exact ⟨outcomes, houtcomes, hsubjects.symm⟩

/-- A location that was found was free and suitable when it was found. -/
theorem exists_settled (hperm : outcomes.Perm (assign map sections))
    (halign : ∀ m ∈ sections, m.align.toNat ≤ 16) (ho : o ∈ outcomes) {loc : Location}
    (hok : o.result = .ok loc) : ∃ done, Settled map done o.subject loc := by
  have hsettled : AllSettled map [] (assign map sections) := assign_settled halign
  obtain ⟨before, after, hsplit⟩ := List.append_of_mem (hperm.mem_iff.mp ho)
  obtain ⟨subject, result⟩ := o
  obtain rfl : result = .ok loc := hok
  rw [hsplit] at hsettled
  exact ⟨before, hsettled.settled⟩

namespace Assigns

variable (h : Assigns map sections outcomes)

include h

theorem subject_mem (ho : o ∈ outcomes) : o.subject ∈ sections := by
  rw [← h.subjects_eq]
  exact List.mem_map_of_mem ho

theorem accounts (hunplaced : ∀ m ∈ sections, m.placed = false)
    (halign : ∀ m ∈ sections, m.align.toNat ≤ 16) (ho : o ∈ outcomes) : o.Accounts := by
  cases hresult : o.result with
  | error e => exact Outcome.accounts_of_error (hunplaced _ (h.subject_mem ho)) hresult
  | ok loc =>
    obtain ⟨done, hsettled⟩ := exists_settled h.perm halign ho hresult
    exact hsettled.accounts hresult

end Assigns

end Placement

open Placement (Outcome Assigns)

namespace Linker

variable {lk : Linker} {sections : List Merged} {outcomes : List Outcome} {i : ℕ}

/-! ## Carrying outcomes out -/

theorem problems_settle (lk : Linker) (o : Outcome) :
    (lk.settle o).diagnostics.problems.toList
      = lk.diagnostics.problems.toList ++ o.problems := by
  unfold settle Outcome.problems
  cases o.result with
  | error e => exact Array.toList_push
  | ok loc => exact (List.append_nil _).symm

theorem problems_foldl_settle (lk : Linker) (outcomes : List Outcome) :
    (outcomes.foldl settle lk).diagnostics.problems.toList
      = lk.diagnostics.problems.toList ++ outcomes.flatMap Outcome.problems := by
  induction outcomes generalizing lk with
  | nil => exact (List.append_nil _).symm
  | cons o rest ih =>
    rw [List.foldl_cons, ih, problems_settle, List.flatMap_cons, List.append_assoc]

/-- A section of another number is not touched. -/
theorem sections_foldl_settle_of_not_mem (hi : ∀ o ∈ outcomes, o.subject.id ≠ i) :
    (outcomes.foldl settle lk).registry.sections[i]? = lk.registry.sections[i]? := by
  induction outcomes generalizing lk with
  | nil => rfl
  | cons o rest ih =>
    rw [List.forall_mem_cons] at hi
    rw [List.foldl_cons, ih hi.2, sections_settle]
    split
    · rfl
    · rw [if_neg hi.1]

/-- If the sections have different numbers, each of them becomes what its outcome leaves. -/
theorem sections_foldl_settle_of_mem (hids : (outcomes.map fun o => o.subject.id).Nodup)
    {o : Outcome} (ho : o ∈ outcomes)
    (hpresent : lk.registry.sections[o.subject.id]? = some o.subject) :
    (outcomes.foldl settle lk).registry.sections[o.subject.id]? = some o.after := by
  obtain ⟨before, after, rfl⟩ := List.append_of_mem ho
  rw [List.map_append, List.map_cons, List.nodup_append, List.nodup_cons] at hids
  obtain ⟨-, ⟨hlater, -⟩, hearlier⟩ := hids
  -- neither the outcomes before nor those after are about this section
  have hbefore : ∀ p ∈ before, p.subject.id ≠ o.subject.id := fun p hp =>
    hearlier _ (List.mem_map_of_mem hp) _ List.mem_cons_self
  have hafter : ∀ p ∈ after, p.subject.id ≠ o.subject.id := fun p hp heq =>
    hlater (heq ▸ List.mem_map_of_mem hp)
  rw [List.foldl_append, List.foldl_cons, sections_foldl_settle_of_not_mem hafter,
    sections_settle, sections_foldl_settle_of_not_mem hbefore, hpresent]
  unfold Outcome.after
  cases o.result with
  | error e => rfl
  | ok loc => exact if_pos rfl

theorem length_flatMap_problems (h : ∀ o ∈ outcomes, o.Accounts) :
    (outcomes.flatMap Outcome.problems).length
      = (outcomes.map Outcome.after).countP fun m => !m.placed := by
  induction outcomes with
  | nil => rfl
  | cons o rest ih =>
    rw [List.forall_mem_cons] at h
    rw [List.flatMap_cons, List.length_append, ih h.2, h.1.length_problems, List.map_cons,
      List.countP_cons, Nat.add_comm]
    cases o.after.placed <;> rfl

/-- **Every section is accounted for.** Whatever unplaced sections are placed, there is one outcome
for each of them. A section that stays without a place is as it was before, and its members with
it, and one problem is recorded of it; no problem is recorded of a section that is placed, and its
members stand at their offsets from it. Nothing else is recorded, and where the sections stand in
the registry under their numbers, they become what the outcomes leave and all others stay. -/
theorem assignSome_accounts (lk : Linker) (sections : List Merged)
    (hunplaced : ∀ m ∈ sections, m.placed = false)
    (halign : ∀ m ∈ sections, m.align.toNat ≤ 16) :
    ∃ outcomes, Assigns lk.map sections outcomes ∧ (∀ o ∈ outcomes, o.Accounts)
      ∧ (lk.assignSome sections).diagnostics.problems.toList.Perm
        (lk.diagnostics.problems.toList ++ outcomes.flatMap Outcome.problems)
      ∧ (lk.assignSome sections).diagnostics.problemCount = lk.diagnostics.problemCount
        + (outcomes.map Outcome.after).countP (fun m => !m.placed)
      ∧ ((sections.map Merged.id).Nodup →
        (∀ m ∈ sections, lk.registry.sections[m.id]? = some m) →
        (∀ o ∈ outcomes, (lk.assignSome sections).registry.sections[o.subject.id]? = some o.after)
        ∧ ∀ i : ℕ, (∀ m ∈ sections, m.id ≠ i) →
          (lk.assignSome sections).registry.sections[i]? = lk.registry.sections[i]?) := by
  obtain ⟨outcomes, h⟩ := Placement.exists_assigns lk.map sections
  have haccounts : ∀ o ∈ outcomes, o.Accounts := fun o ho => h.accounts hunplaced halign ho
  have hproblems : (lk.assignSome sections).diagnostics.problems.toList.Perm
      (lk.diagnostics.problems.toList ++ outcomes.flatMap Outcome.problems) := by
    rw [assignSome, problems_foldl_settle]
    exact (h.perm.symm.flatMap_right _).append_left _
  refine ⟨outcomes, h, haccounts, hproblems, ?_, fun hids hpresent => ⟨?_, ?_⟩⟩
  · rw [← length_flatMap_problems haccounts]
    have hlength := hproblems.length_eq
    rwa [List.length_append, Array.length_toList, Array.length_toList] at hlength
  · intro o ho
    refine sections_foldl_settle_of_mem ?_ (h.perm.mem_iff.mp ho)
      (hpresent _ (h.subject_mem ho))
    rw [← h.subjects_eq, List.map_map] at hids
    exact (h.perm.map _).nodup_iff.mp hids
  · intro i hi
    exact sections_foldl_settle_of_not_mem fun o ho =>
      hi _ (h.subject_mem (h.perm.mem_iff.mpr ho))

/-- Two sections of ROM0 that ask for the same addresses. -/
def rivalPair : Linker :=
  ofSections [plainSection 0 .rom0 (some 0) 3 0, plainSection 1 .rom0 (some 2) 2 0]

/-- One of the two sections stays without a place, and it is reported. -/
theorem assignSome_accounts_rivalPair : ∃ outcomes, Assigns {} rivalPair.sections outcomes
    ∧ (∀ o ∈ outcomes, o.Accounts)
    ∧ (outcomes.map Outcome.after).countP (fun m => !m.placed) = 1
    ∧ (rivalPair.assignSome rivalPair.sections).diagnostics.problemCount = 1
    ∧ ∀ o ∈ outcomes, (rivalPair.assignSome rivalPair.sections).registry.sections[o.subject.id]?
      = some o.after := by
  obtain ⟨m, n, hregistry, hm, hn⟩ : ∃ m n, rivalPair.registry.sections = #[m, n]
      ∧ (m.id, m.align, m.placed) = (0, 0, false) ∧ (n.id, n.align, n.placed) = (1, 0, false) :=
    ⟨_, _, by cbv, rfl, rfl⟩
  have hsections : rivalPair.sections = [m, n] := by rw [sections, hregistry]
  simp only [Prod.mk.injEq] at hm hn
  obtain ⟨outcomes, hassigns, haccounts, -, hcount, hsettled⟩ :=
    rivalPair.assignSome_accounts rivalPair.sections (by simp [hsections, hm, hn])
      (by simp [hsections, hm, hn])
  have hone : (outcomes.map Outcome.after).countP (fun m => !m.placed) = 1 := by
    rw [(hassigns.perm.map Outcome.after).countP_eq]
    cbv
  have hzero : rivalPair.diagnostics.problemCount = 0 := rfl
  refine ⟨outcomes, hassigns, haccounts, hone, by rw [hcount, hone, hzero], (hsettled ?_ ?_).1⟩
  · simp [hsections, hm, hn]
  · simp [hsections, hregistry, hm, hn]

end Linker

end BankedLinker
