import BankedLinker.Linker.Basic
import BankedLinker.Proofs.Merging
import BankedLinker.Proofs.Placement

/-!
# The registry after an assignment

`Placement.assign` decides where sections go, and `Linker.settle` carries that out on the registry.
This file follows a merged section through both: if it is placed in the end, an outcome of the
assignment placed it, and it is where that outcome says.

* `Linker.foldl_settle_cases` is what becomes of one merged section;
* `Linker.assign_safe`: placed sections lie in their regions, where they asked to be, and do not
  overlap;
* `Linker.assign_suits_iff`: a placed section suits its alignment unless it is stranded.
-/

namespace BankedLinker

open BankedLinker.Alignment (Suits)
open Placement (Outcome Settled Stranded Taken)

namespace Merged

/-- Only the last place counts. -/
theorem place_place (m : Merged) (org org' : UInt16) (bank bank' : UInt32) :
    (m.place org bank).place org' bank' = m.place org' bank' := by
  simp [place, Member.place]

end Merged

namespace Linker

variable {lk : Linker} {outcomes : List Outcome} {i : ℕ} {m m' : Merged}

theorem sections_settle (lk : Linker) (o : Outcome) (i : ℕ) :
    (lk.settle o).registry.sections[i]? = match o.result with
      | .error _ => lk.registry.sections[i]?
      | .ok loc =>
        if o.subject.id = i then lk.registry.sections[i]?.map (·.place loc.org loc.bank)
        else lk.registry.sections[i]? := by
  unfold settle
  cases o.result with
  | error e => rfl
  | ok loc => exact Array.getElem?_modify

/-- A merged section is where the last outcome that placed it says, or as it was if there is no
such outcome. -/
theorem foldl_settle_cases (outcomes : List Outcome)
    (hm : lk.registry.sections[i]? = some m) :
    (outcomes.foldl settle lk).registry.sections[i]? = some m
    ∨ ∃ before subject loc after, outcomes = before ++ ⟨subject, .ok loc⟩ :: after
      ∧ subject.id = i
      ∧ (outcomes.foldl settle lk).registry.sections[i]? = some (m.place loc.org loc.bank) := by
  induction outcomes generalizing lk m with
  | nil => exact Or.inl hm
  | cons o rest ih =>
    rw [List.foldl_cons]
    -- a later outcome takes precedence over `o`
    have hlater : ∀ {n : Merged}, (lk.settle o).registry.sections[i]? = some n →
        (∀ org bank, n.place org bank = m.place org bank) →
        (rest.foldl settle (lk.settle o)).registry.sections[i]? = some n
        ∨ ∃ before subject loc after, o :: rest = before ++ ⟨subject, .ok loc⟩ :: after
          ∧ subject.id = i ∧ (rest.foldl settle (lk.settle o)).registry.sections[i]?
            = some (m.place loc.org loc.bank) := by
      intro n hn hplace
      obtain h | ⟨before, subject, loc, after, rfl, hid, h⟩ := ih hn
      · exact Or.inl h
      · exact Or.inr ⟨o :: before, subject, loc, after, rfl, hid, by rw [h, hplace]⟩
    have hsettle := sections_settle lk o i
    obtain ⟨subject, result⟩ := o
    cases result with
    | error e => exact hlater (hsettle.trans hm) fun _ _ => rfl
    | ok loc =>
      by_cases hid : subject.id = i
      · simp only [hid, if_true, hm, Option.map_some] at hsettle
        obtain h | h := hlater hsettle fun org bank => m.place_place _ org _ bank
        · exact Or.inr ⟨[], subject, loc, rest, rfl, hid, h⟩
        · exact Or.inr h
      · simp only [hid, if_false, hm] at hsettle
        exact hlater hsettle fun _ _ => rfl

theorem foldl_settle_none (hnone : lk.registry.sections[i]? = none) :
    (outcomes.foldl settle lk).registry.sections[i]? = none := by
  induction outcomes generalizing lk with
  | nil => exact hnone
  | cons o rest ih =>
    refine ih ?_
    rw [sections_settle]
    split
    · exact hnone
    · simp [hnone]

/-- Places some of the merged sections. -/
def assignSome (lk : Linker) (sections : List Merged) : Linker :=
  (Placement.assign lk.map sections).foldl settle lk

/-- The merged sections are as merging leaves them: in order, not placed, and with an alignment
within the address space. -/
structure Assignable (lk : Linker) : Prop where
  indexed : lk.registry.Indexed
  align_le : ∀ m ∈ lk.sections, m.align.toNat ≤ 16
  unplaced : ∀ m ∈ lk.sections, m.placed = false

theorem assignable_of_addAll {calls : List (ObjectFile × Section)}
    (hcalls : lk.registry = Registry.addAll {} calls)
    (halign : ∀ call ∈ calls, call.2.align.toNat ≤ 16) : lk.Assignable where
  indexed := hcalls ▸ Registry.indexed_addAll Registry.indexed_empty calls
  align_le m hm := by
    unfold sections at hm
    rw [Array.mem_toList_iff, hcalls] at hm
    exact Registry.align_le_addAll halign m hm
  unplaced m hm := by
    unfold sections at hm
    rw [Array.mem_toList_iff, hcalls] at hm
    exact Registry.placed_addAll calls m hm

theorem exists_section_of_assigned {sections : List Merged}
    (hm' : (lk.assignSome sections).registry.sections[i]? = some m') :
    ∃ m, lk.registry.sections[i]? = some m := by
  cases hm : lk.registry.sections[i]? with
  | none =>
    rw [assignSome, foldl_settle_none hm] at hm'
    cases hm'
  | some m => exact ⟨m, rfl⟩

section Assigned

variable {sections : List Merged} (hlk : lk.Assignable) (hsub : ∀ m ∈ sections, m ∈ lk.sections)

include hlk hsub

/-- A section that is placed in the end was placed by an outcome, which is its own. -/
theorem exists_outcome_of_placed (hm : lk.registry.sections[i]? = some m)
    (hm' : (lk.assignSome sections).registry.sections[i]? = some m') (hplaced : m'.placed = true) :
    ∃ before loc after, Placement.assign lk.map sections = before ++ ⟨m, .ok loc⟩ :: after
      ∧ m' = m.place loc.org loc.bank ∧ Settled lk.map before m loc := by
  have hmem : m ∈ lk.sections := Array.mem_toList_iff.mpr (Array.mem_of_getElem? hm)
  have hsettled : Placement.AllSettled lk.map [] (Placement.assign lk.map sections) :=
    Placement.assign_settled fun n hn => hlk.align_le n (hsub n hn)
  obtain h | ⟨before, subject, loc, after, heq, hid, h⟩ :=
    foldl_settle_cases (Placement.assign lk.map sections) hm
  · -- without an outcome the section would not be placed
    rw [assignSome, h] at hm'
    obtain rfl := Option.some.inj hm'
    rw [hlk.unplaced m hmem] at hplaced
    cases hplaced
  · rw [assignSome, h] at hm'
    -- the outcome's subject is the registry's section of that number
    have hsubject : subject ∈ sections := by
      refine (Placement.subjects_assign lk.map sections).mem_iff.mp ?_
      rw [heq]
      simp
    obtain ⟨j, hj⟩ := Array.mem_iff_getElem?.mp (Array.mem_toList_iff.mp (hsub _ hsubject))
    obtain rfl : i = j := by rw [← hid, hlk.indexed.id_eq hj]
    obtain rfl : m = subject := by simpa [hm] using hj
    rw [heq] at hsettled
    exact ⟨before, loc, after, heq, (Option.some.inj hm').symm, hsettled.settled⟩

end Assigned

/-! ## Safety -/

/-- The place `m'` of a merged section `m` is one that its region has and that it asked for. -/
structure PlacedSafely (map : MemoryMap) (m m' : Merged) : Prop where
  hasBank : (map.region m'.kind).HasBank m'.bank
  start_le : (map.region m'.kind).start.toNat ≤ m'.org.toNat
  stop_le : m'.org.toNat + m'.size.toNat
    ≤ (map.region m'.kind).start.toNat + (map.region m'.kind).size.toNat
  org_eq : m.orgFixed = true → m'.org = m.org
  bank_eq : m.bankFixed = true → m'.bank = m.bank

/-- The addresses of two merged sections do not meet. -/
def Apart (m n : Merged) : Prop :=
  m.org.toNat + m.size.toNat ≤ n.org.toNat ∨ n.org.toNat + n.size.toNat ≤ m.org.toNat

theorem placedSafely_of_settled {map : MemoryMap} {before : List Outcome} {loc : Location}
    (h : Settled map before m loc) : PlacedSafely map m (m.place loc.org loc.bank) :=
  ⟨h.hasBank, h.start_le, h.stop_le, h.org_eq, h.bank_eq⟩

/-- Two placed sections of one bank do not overlap. -/
theorem apart_of_placed {sections : List Merged} (hlk : lk.Assignable)
    (hsub : ∀ m ∈ sections, m ∈ lk.sections) {i j : ℕ} {m n : Merged} (hij : i ≠ j)
    (hm : (lk.assignSome sections).registry.sections[i]? = some m) (hmplaced : m.placed = true)
    (hn : (lk.assignSome sections).registry.sections[j]? = some n) (hnplaced : n.placed = true)
    (hmsize : m.size ≠ 0) (hnsize : n.size ≠ 0) (hkind : m.kind = n.kind)
    (hbank : m.bank = n.bank) : Apart m n := by
  obtain ⟨m₀, hm₀⟩ := exists_section_of_assigned hm
  obtain ⟨n₀, hn₀⟩ := exists_section_of_assigned hn
  obtain ⟨before, loc, after, heq, rfl, -⟩ := exists_outcome_of_placed hlk hsub hm₀ hm hmplaced
  obtain ⟨before', loc', after', heq', rfl, -⟩ := exists_outcome_of_placed hlk hsub hn₀ hn hnplaced
  have hmem : (⟨m₀, .ok loc⟩ : Outcome) ∈ Placement.assign lk.map sections := by
    rw [heq]
    exact List.mem_append_right _ List.mem_cons_self
  have hmem' : (⟨n₀, .ok loc'⟩ : Outcome) ∈ Placement.assign lk.map sections := by
    rw [heq']
    exact List.mem_append_right _ List.mem_cons_self
  have hne : (⟨m₀, .ok loc⟩ : Outcome) ≠ ⟨n₀, .ok loc'⟩ := by
    intro h
    have hid := congrArg (fun o : Outcome => o.subject.id) h
    dsimp only at hid
    rw [hlk.indexed.id_eq hm₀, hlk.indexed.id_eq hn₀] at hid
    exact hij hid
  have hpairwise : (Placement.assign lk.map sections).Pairwise Outcome.ApartFrom :=
    (Placement.assign_settled fun k hk => hlk.align_le k (hsub k hk)).pairwise_apartFrom
  exact hpairwise.forall hmem hmem' hne loc loc' rfl rfl hkind hbank hmsize hnsize

/-- **Placement is safe.** Whatever merged sections are placed, in whatever order they are given
and whether or not others fail: a section that is placed in the end has a bank of its region, lies
inside of the region, and kept the address and the bank that it asked for; and two of them that
have addresses in one bank do not overlap. -/
theorem assign_safe {calls : List (ObjectFile × Section)}
    (hcalls : lk.registry = Registry.addAll {} calls)
    (halign : ∀ call ∈ calls, call.2.align.toNat ≤ 16) {sections : List Merged}
    (hsub : ∀ m ∈ sections, m ∈ lk.sections) :
    (∀ (i : ℕ) (m m' : Merged), lk.registry.sections[i]? = some m →
      (lk.assignSome sections).registry.sections[i]? = some m' → m'.placed = true →
      PlacedSafely lk.map m m')
    ∧ ∀ (i j : ℕ) (m n : Merged), i ≠ j → (lk.assignSome sections).registry.sections[i]? = some m →
      m.placed = true → (lk.assignSome sections).registry.sections[j]? = some n →
      n.placed = true → m.size ≠ 0 → n.size ≠ 0 → m.kind = n.kind → m.bank = n.bank →
      Apart m n := by
  have hlk := assignable_of_addAll hcalls halign
  refine ⟨fun i m m' hm hm' hplaced => ?_, fun i j m n hij hm hmplaced hn hnplaced =>
    apart_of_placed hlk hsub hij hm hmplaced hn hnplaced⟩
  obtain ⟨before, loc, after, -, rfl, hsettled⟩ := exists_outcome_of_placed hlk hsub hm hm' hplaced
  exact placedSafely_of_settled hsettled

/-- A section that may be placed anywhere in its region, if `org` does not say otherwise. -/
def plainSection (id : UInt32) (kind : RegionKind) (org : Option UInt16) (size : UInt32)
    (align : UInt8) : Section :=
  { id, name := [0x61 + id.toUInt8], source := none, kind, modifier := .normal, size, org,
    bank := none, align, alignOffset := 0,
    data := if kind.hasData then List.replicate size.toNat 0 else [], patches := [] }

/-- A linker that has merged the sections of one file. -/
def ofSections (sections : List Section) : Linker :=
  let f : ObjectFile := { name := [0x66], index := 0, sections }
  { map := {}, files := [f], registry := Registry.addAll {} (sections.map (f, ·)) }

/-- Three bytes at the start of ROM0, and sixteen bytes that are aligned and find their place
after them. -/
def romPair : Linker :=
  ofSections [plainSection 0 .rom0 (some 0) 3 0, plainSection 1 .rom0 none 16 4]

/-- Both sections of the pair are placed, safely and apart from each other. -/
theorem assign_safe_romPair :
    ∃ m n m' n' : Merged, romPair.sections = [m, n]
      ∧ romPair.assign.registry.sections[0]? = some m' ∧ m'.placed = true
      ∧ romPair.assign.registry.sections[1]? = some n' ∧ n'.placed = true
      ∧ PlacedSafely romPair.map m m' ∧ PlacedSafely romPair.map n n' ∧ Apart m' n' := by
  obtain ⟨m, n, hsections, m', hm', hm, n', hn', hn⟩ : ∃ m n, romPair.registry.sections = #[m, n]
      ∧ ∃ m', romPair.assign.registry.sections[0]? = some m'
        ∧ (m'.placed, m'.size, m'.kind, m'.bank) = (true, 3, .rom0, 0)
      ∧ ∃ n', romPair.assign.registry.sections[1]? = some n'
        ∧ (n'.placed, n'.size, n'.kind, n'.bank) = (true, 16, .rom0, 0) :=
    ⟨_, _, by cbv, _, by cbv, rfl, _, by cbv, rfl⟩
  simp only [Prod.mk.injEq] at hm hn
  obtain ⟨hmplaced, hmsize, hmkind, hmbank⟩ := hm
  obtain ⟨hnplaced, hnsize, hnkind, hnbank⟩ := hn
  have hmerged : romPair.registry = Registry.addAll {}
      (romPair.files.flatMap fun f => f.sections.map (f, ·)) := rfl
  obtain ⟨hsafe, happart⟩ := assign_safe hmerged (by decide) fun _ h => h
  refine ⟨m, n, m', n', by rw [sections, hsections], hm', hmplaced, hn', hnplaced,
    hsafe 0 m m' (by simp [hsections]) hm' hmplaced,
    hsafe 1 n n' (by simp [hsections]) hn' hnplaced,
    happart 0 1 m' n' (by decide) hm' hmplaced hn' hnplaced ?_ ?_ ?_ ?_⟩
  · rw [hmsize]
    decide
  · rw [hnsize]
    decide
  · rw [hmkind, hnkind]
  · rw [hmbank, hnbank]

/-! ## Alignment -/

/-- **Alignment of placed sections, exactly.** A section that is placed in the end was placed by
an outcome of the assignment, and its address suits its alignment unless the section was stranded
when its turn came: it has no addresses of its own, asked for none, every suitable address of the
banks that it could go to was taken, and the start of its region does not suit it. -/
theorem assign_suits_iff {calls : List (ObjectFile × Section)}
    (hcalls : lk.registry = Registry.addAll {} calls)
    (halign : ∀ call ∈ calls, call.2.align.toNat ≤ 16) {sections : List Merged}
    (hsub : ∀ m ∈ sections, m ∈ lk.sections) (hm : lk.registry.sections[i]? = some m)
    (hm' : (lk.assignSome sections).registry.sections[i]? = some m') (hplaced : m'.placed = true) :
    ∃ before loc after, Placement.assign lk.map sections = before ++ ⟨m, .ok loc⟩ :: after
      ∧ m'.org = loc.org
      ∧ (Suits m'.align m'.alignOffset m'.org.toNat ↔ ¬Stranded lk.map before m) := by
  have hlk := assignable_of_addAll hcalls halign
  obtain ⟨before, loc, after, heq, rfl, hsettled⟩ :=
    exists_outcome_of_placed hlk hsub hm hm' hplaced
  exact ⟨before, loc, after, heq, rfl, hsettled.suits_iff⟩

/-- A section of HRAM without addresses of its own, which asks for an alignment that no address of
HRAM has. -/
def strandedLinker : Linker :=
  ofSections [plainSection 0 .hram none 0 8]

def strandedMerged : Merged :=
  { id := 0, name := [0x61], kind := .hram, modifier := .normal, align := 8,
    members := #[⟨⟨[0x66], 0, #[], [], [plainSection 0 .hram none 0 8], []⟩,
      plainSection 0 .hram none 0 8, 0, 0, 0, false⟩] }

theorem sections_strandedLinker : strandedLinker.registry.sections = #[strandedMerged] := by
  cbv

theorem assign_strandedMerged :
    Placement.assign {} [strandedMerged] = [⟨strandedMerged, .ok ⟨0xFF80, 0⟩⟩] := by
  have hvalid : Placement.rejection? {} strandedMerged = none := by cbv
  have hfloating : Placement.isFixed {} strandedMerged = false := rfl
  have hnone : Placement.candidate? strandedMerged ⟨0xFF80, 0xFFFF⟩ = none := by decide
  have hspace : ({ map := {} } : Ledger).space ⟨strandedMerged.kind, 0⟩
      = { free := [⟨0xFF80, 0xFFFF⟩], used := [] } := Ledger.space_empty _ _
  have hsearch : Placement.searchBanks { map := {} } strandedMerged 1 0 0 = .error 0 := by
    simp only [Placement.searchBanks, hspace, Placement.fitIn, hnone]
  -- no bank has a place, so the section goes to the start of its region
  have hplace : Placement.placeFloating { map := {} } strandedMerged
      = .ok (⟨0xFF80, 0⟩, { map := {} }) := by
    have hbank : strandedMerged.bankFixed = false := rfl
    have hregion : ({} : MemoryMap).region strandedMerged.kind = ⟨0xFF80, 0x7F, 0, 1⟩ := rfl
    have hcount : (1 : UInt32).toNat = 1 := rfl
    unfold Placement.placeFloating
    simp only [hbank, hregion, Bool.false_eq_true, if_false, hcount, hsearch]
    rfl
  simp [Placement.assign, hvalid, hfloating, Placement.placeAll, hplace]

theorem assign_strandedLinker :
    strandedLinker.assign.registry.sections[0]? = some (strandedMerged.place 0xFF80 0) := by
  have hsections : strandedLinker.sections = [strandedMerged] := by
    rw [sections, sections_strandedLinker]
  have hassign : Placement.assign strandedLinker.map strandedLinker.sections
      = [⟨strandedMerged, .ok ⟨0xFF80, 0⟩⟩] := by
    rw [hsections]
    exact assign_strandedMerged
  rw [assign, hassign, List.foldl_cons, List.foldl_nil, sections_settle, sections_strandedLinker]
  rfl

/-- The section of HRAM is placed, at an address that suits its alignment exactly if it was not
stranded. -/
theorem assign_suits_iff_stranded :
    (strandedMerged.place 0xFF80 0).placed = true
      ∧ ∃ before loc after, Placement.assign {} strandedLinker.sections
          = before ++ ⟨strandedMerged, .ok loc⟩ :: after
        ∧ loc.org = 0xFF80 ∧ (Suits 8 0 0xFF80 ↔ ¬Stranded {} before strandedMerged) := by
  have hmerged : strandedLinker.registry = Registry.addAll {}
      (strandedLinker.files.flatMap fun f => f.sections.map (f, ·)) := rfl
  obtain ⟨before, loc, after, hassign, horg, hiff⟩ := assign_suits_iff hmerged (by decide)
    (fun _ h => h) (by rw [sections_strandedLinker]; rfl) assign_strandedLinker rfl
  exact ⟨rfl, before, loc, after, hassign, horg.symm, hiff⟩

/-- Not every placed section suits its alignment: the section of HRAM does not. -/
theorem not_forall_suits :
    ¬∀ (lk : Linker) (calls : List (ObjectFile × Section)),
      lk.registry = Registry.addAll {} calls → (∀ call ∈ calls, call.2.align.toNat ≤ 16) →
      ∀ (i : ℕ) (m : Merged), lk.assign.registry.sections[i]? = some m → m.placed = true →
        Suits m.align m.alignOffset m.org.toNat := by
  intro h
  have hsuits := h strandedLinker (strandedLinker.files.flatMap fun f => f.sections.map (f, ·))
    rfl (by decide) 0 _ assign_strandedLinker rfl
  have hnot : ¬Suits 8 0 0xFF80 := by decide
  exact hnot hsuits

end Linker

end BankedLinker
