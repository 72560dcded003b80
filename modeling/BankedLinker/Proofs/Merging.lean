import BankedLinker.Proofs.Constraints
import BankedLinker.Proofs.Registry
import Mathlib

/-!
# Merging keeps the wishes of every member

A merged section carries joined constraints. This file shows that a place which they leave open
meets what every member asked for in its file, seen from the member's position. One wish can get
lost: the alignment of a member that also asks for an address, when the address breaks it.

* `Member.Declares`: a member that is not placed yet is a section as its file gives it;
* `Merged.KeepsWishes` is the invariant of merging;
* `Registry.accepts_of_allows` is the result for any sequence of merges.
-/

namespace BankedLinker

open BankedLinker.Alignment (Suits)

/-- A member that is not placed yet and stands for the section `s` of the file `f`. Only its bytes
may differ: those of a section that is merged again are the merged ones. -/
structure Member.Declares (x : Member) (f : ObjectFile) (s : Section) : Prop where
  file_eq : x.file = f
  content_eq : x.content = { s with data := x.content.data }
  org_eq : x.org = s.declaredOrg
  bank_eq : x.bank = s.declaredBank
  placed_eq : x.placed = false

/-- The key that a section of a file has as a member. -/
def callKey (call : ObjectFile × Section) : SectionKey :=
  ⟨call.1.index, call.2.id⟩

/-- Sections that are merged are told apart by their keys. -/
def Identified (calls : List (ObjectFile × Section)) : Prop :=
  ∀ call ∈ calls, ∀ other ∈ calls, callKey call = callKey other → call = other

theorem Member.Declares.key_eq {x : Member} {f : ObjectFile} {s : Section}
    (h : x.Declares f s) : x.key = callKey (f, s) := by
  unfold Member.key callKey
  rw [h.file_eq, h.content_eq]

/-- What a section asks for does not depend on its bytes. -/
theorem Section.accepts_data_iff (s : Section) (data : Bytes) {address : ℕ} {bank : UInt32} :
    ({ s with data } : Section).AcceptsOrg address ∧ ({ s with data } : Section).AcceptsBank bank
        ∧ (({ s with data } : Section).org = none →
          ({ s with data } : Section).AcceptsAlign address)
      ↔ s.AcceptsOrg address ∧ s.AcceptsBank bank ∧ (s.org = none → s.AcceptsAlign address) :=
  Iff.rfl

namespace Merged

variable {m : Merged} {calls : List (ObjectFile × Section)}

/-- The invariant of merging: the members stand for sections of the sequence, and a place that
the constraints leave open meets what each of them asks for. -/
structure KeepsWishes (calls : List (ObjectFile × Section)) (m : Merged) : Prop where
  align_le : m.align.toNat ≤ 16
  declares : ∀ x ∈ m.members, ∃ call ∈ calls, x.Declares call.1 call.2
  accepts : ∀ x ∈ m.members, ∀ org bank, m.Allows org bank →
    x.content.AcceptsOrg (org + x.offset.toNat) ∧ x.content.AcceptsBank bank
      ∧ (x.content.org = none → x.content.AcceptsAlign (org + x.offset.toNat))

@[simp] theorem align_newMember (m : Merged) (f : ObjectFile) (s : Section) :
    (m.newMember f s).content.align = s.align := by
  unfold newMember
  split <;> rfl

/-- The new member stands for the section that is merged, also if that is a member already. -/
theorem KeepsWishes.declares_newMember (hm : m.KeepsWishes calls) (hid : Identified calls)
    {f : ObjectFile} {s : Section} (hcall : (f, s) ∈ calls) :
    (m.newMember f s).Declares f s := by
  unfold newMember
  split
  · exact ⟨rfl, rfl, rfl, rfl, rfl⟩
  · next x hx =>
    have hmem : x ∈ m.members := Array.mem_of_find?_eq_some hx
    have hkey : x.key = callKey (f, s) := by simpa [callKey] using Array.find?_some hx
    obtain ⟨call, hcall', hx⟩ := hm.declares x hmem
    obtain rfl : call = (f, s) := hid call hcall' (f, s) hcall (hx.key_eq.symm.trans hkey)
    refine ⟨rfl, ?_, hx.org_eq, hx.bank_eq, hx.placed_eq⟩
    -- the member has not been placed, so that its address and bank are the declared ones
    have horg : (s.org.map fun _ => x.org) = s.org := by
      rw [hx.org_eq]
      cases h : s.org <;> simp [Section.declaredOrg, h]
    have hbank : (s.bank.map fun _ => x.bank) = s.bank := by
      rw [hx.bank_eq]
      cases h : s.bank <;> simp [Section.declaredBank, h]
    simp only [horg, hbank]

theorem keepsWishes_emptyFor (r : Registry) (s : Section) :
    (r.emptyFor s).KeepsWishes calls where
  align_le := Nat.zero_le _
  declares x hx := by simp [Registry.emptyFor] at hx
  accepts x hx := by simp [Registry.emptyFor] at hx

section Step

variable {f : ObjectFile} {s : Section}

theorem KeepsWishes.refused (hm : m.KeepsWishes calls) (halign : s.align.toNat ≤ 16) :
    (m.refused f s).KeepsWishes calls := by
  have hcontent : (m.newMember f s).content.align.toNat ≤ 16 := by rwa [align_newMember]
  refine ⟨Constraints.align_absorb_le hm.align_le hcontent, hm.declares, ?_⟩
  intro x hx org bank hallows
  exact hm.accepts x hx org bank (Constraints.allows_of_absorb hm.align_le hcontent hallows)

theorem KeepsWishes.joined (hm : m.KeepsWishes calls) (hid : Identified calls)
    (halign : s.align.toNat ≤ 16) (hcall : (f, s) ∈ calls) (hmet : m.unmetWish? f s = none) :
    (m.joined f s).KeepsWishes calls := by
  have hcontent : (m.newMember f s).content.align.toNat ≤ 16 := by rwa [align_newMember]
  have hnew := hm.declares_newMember hid hcall
  -- a member is the new one, one that moves with it, or one that stays
  have hmembers : ∀ x ∈ (m.joined f s).members, x = m.newMember f s
      ∨ (∃ y ∈ m.members, y.key = (m.newMember f s).key
        ∧ x = { y with offset := (m.newMember f s).offset })
      ∨ x ∈ m.members := by
    intro x hx
    rw [members_joined, Array.mem_push, Array.mem_map] at hx
    obtain ⟨y, hy, rfl⟩ | rfl := hx
    · split_ifs with hkey
      · exact Or.inr (Or.inl ⟨y, hy, hkey, rfl⟩)
      · exact Or.inr (Or.inr hy)
    · exact Or.inl rfl
  refine ⟨Constraints.align_absorb_le hm.align_le hcontent, ?_, ?_⟩
  · intro x hx
    obtain rfl | ⟨y, hy, -, rfl⟩ | hx := hmembers x hx
    · exact ⟨(f, s), hcall, hnew⟩
    · obtain ⟨call, hcall', hdeclares⟩ := hm.declares y hy
      exact ⟨call, hcall', ⟨hdeclares.file_eq, hdeclares.content_eq, hdeclares.org_eq,
        hdeclares.bank_eq, hdeclares.placed_eq⟩⟩
    · exact hm.declares x hx
  · intro x hx org bank hallows
    have haccepts := Constraints.accepts_of_absorb hm.align_le hcontent hmet hallows
    obtain rfl | ⟨y, hy, hkey, rfl⟩ | hx := hmembers x hx
    · exact haccepts
    · -- the moved member stands for the same section as the new one
      obtain ⟨call, hcall', hdeclares⟩ := hm.declares y hy
      obtain rfl : call = (f, s) := hid call hcall' (f, s) hcall
        (hdeclares.key_eq.symm.trans (hkey.trans hnew.key_eq))
      rw [hnew.content_eq, Section.accepts_data_iff] at haccepts
      show y.content.AcceptsOrg _ ∧ _
      rw [hdeclares.content_eq, Section.accepts_data_iff]
      exact haccepts
    · exact hm.accepts x hx org bank (Constraints.allows_of_absorb hm.align_le hcontent hallows)

end Step

end Merged

namespace Registry

/-- Merging keeps a bound on alignments. -/
theorem align_le_addAll {calls : List (ObjectFile × Section)}
    (halign : ∀ call ∈ calls, call.2.align.toNat ≤ 16) :
    ∀ m ∈ (addAll {} calls).sections, m.align.toNat ≤ 16 := by
  refine forall_addAll calls (fun _ _ _ => Nat.zero_le _) ?_ ?_
  · intro call hcall m hm _
    exact Constraints.align_absorb_le hm (by simpa using halign call hcall)
  · intro call hcall m hm _ _
    exact Constraints.align_absorb_le hm (by simpa using halign call hcall)

/-- Merging places nothing. -/
theorem placed_addAll (calls : List (ObjectFile × Section)) :
    ∀ m ∈ (addAll {} calls).sections, m.placed = false := by
  refine forall_addAll calls (fun _ _ _ => rfl) ?_ ?_
  · intro call _ m hm _
    exact hm
  · intro call _ m hm _ _
    rw [Merged.placed_joined]
    exact hm

/-- The invariant holds after any sequence of merges, some of which may be refused. -/
theorem keepsWishes_addAll {calls : List (ObjectFile × Section)} (hid : Identified calls)
    (halign : ∀ call ∈ calls, call.2.align.toNat ≤ 16) :
    ∀ m ∈ (addAll {} calls).sections, m.KeepsWishes calls :=
  forall_addAll calls (fun _ _ r => Merged.keepsWishes_emptyFor r _)
    (fun call hcall _ hm _ => hm.refused (halign call hcall))
    (fun call hcall _ hm _ hmet => hm.joined hid (halign call hcall) hcall hmet)

/-- **Merging keeps the wishes of every member.** Take a merged section after any sequence of
merges and a place that its constraints leave open. Every member stands for a section of the
sequence, and the place gives the member the address and the bank that this section asks for. It
suits the alignment that the section asks for exactly if the section is consistent: the one wish
that can get lost is an alignment that contradicts the address of the same section. -/
theorem accepts_of_allows {calls : List (ObjectFile × Section)} (hid : Identified calls)
    (halign : ∀ call ∈ calls, call.2.align.toNat ≤ 16) {m : Merged}
    (hm : m ∈ (addAll {} calls).sections) {x : Member} (hx : x ∈ m.members) {org : UInt16}
    {bank : UInt32} (hallows : m.Allows org.toNat bank) :
    ∃ s, (x.file, s) ∈ calls ∧ x.key = callKey (x.file, s)
      ∧ s.AcceptsOrg (org.toNat + x.offset.toNat) ∧ s.AcceptsBank bank
      ∧ (s.AcceptsAlign (org.toNat + x.offset.toNat) ↔ s.IsConsistent) := by
  have hkeeps := keepsWishes_addAll hid halign m hm
  obtain ⟨⟨f, s⟩, hcall, hdeclares⟩ := hkeeps.declares x hx
  have haccepts := hkeeps.accepts x hx _ _ hallows
  rw [hdeclares.content_eq, Section.accepts_data_iff] at haccepts
  obtain ⟨horg, hbank, hsuits⟩ := haccepts
  refine ⟨s, ?_, ?_, horg, hbank, Section.acceptsAlign_iff_isConsistent horg hsuits⟩
  · rw [hdeclares.file_eq]
    exact hcall
  · rw [hdeclares.file_eq]
    exact hdeclares.key_eq

/-! ## A lost alignment -/

/-- A section of WRAM0 that overlays others of its name. -/
def overlaid (id : UInt32) (org : Option UInt16) (align : UInt8) (alignOffset : UInt16) :
    Section :=
  { id, name := [0x75], source := none, kind := .wram0, modifier := .union, size := 4, org,
    bank := none, align, alignOffset, data := [], patches := [] }

/-- The second of these sections asks for an address that breaks its own alignment. The first one
has a stricter alignment, which the address suits. -/
def overlayFile : ObjectFile :=
  { name := [0x66], index := 0,
    sections := [overlaid 0 none 8 0, overlaid 1 (some 0xC100) 4 1] }

def overlay : List (ObjectFile × Section) :=
  overlayFile.sections.map (overlayFile, ·)

def overlayMember : Member :=
  ⟨overlayFile, overlaid 1 (some 0xC100) 4 1, 0, 0xC100, 0, false⟩

/-- What the two sections are merged into: nothing is left of the weaker alignment. -/
def overlayMerged : Merged :=
  { orgFixed := true, org := 0xC100, align := 8, id := 0, name := [0x75], kind := .wram0,
    modifier := .union, size := 4,
    members := #[⟨overlayFile, overlaid 0 none 8 0, 0, 0, 0, false⟩, overlayMember] }

theorem identified_overlay : Identified overlay := by
  simp [Identified, overlay, overlayFile, callKey, overlaid]

theorem sections_overlay : (addAll {} overlay).sections = #[overlayMerged] := by
  cbv

theorem mem_sections_overlay : overlayMerged ∈ (addAll {} overlay).sections := by
  rw [sections_overlay]
  exact Array.mem_singleton.mpr rfl

theorem allows_overlay : overlayMerged.Allows (0xC100 : UInt16).toNat 0 :=
  ⟨fun _ => rfl, nofun, by decide⟩

/-- The second section of the overlay gets the address that it asks for, and its alignment is met
exactly if it is consistent. -/
theorem accepts_of_allows_overlay :
    overlayMerged ∈ (addAll {} overlay).sections ∧ overlayMerged.Allows 0xC100 0
      ∧ ∃ s, (overlayFile, s) ∈ overlay ∧ overlayMember.key = callKey (overlayFile, s)
        ∧ s.AcceptsOrg 0xC100 ∧ s.AcceptsBank 0 ∧ (s.AcceptsAlign 0xC100 ↔ s.IsConsistent) :=
  ⟨mem_sections_overlay, allows_overlay,
    accepts_of_allows identified_overlay (by decide) mem_sections_overlay
      (x := overlayMember) (by simp [overlayMerged]) allows_overlay⟩

/-- That every alignment survives is too much to ask: all sections of the overlay are merged, and
a place that is left open breaks the alignment of the second one. -/
theorem not_forall_acceptsAlign :
    ¬∀ calls, Identified calls → (∀ call ∈ calls, call.2.align.toNat ≤ 16) →
      AllMerged {} calls → ∀ m ∈ (addAll {} calls).sections, ∀ x ∈ m.members,
      ∀ (org : UInt16) (bank : UInt32), m.Allows org.toNat bank →
      ∃ s, (x.file, s) ∈ calls ∧ x.key = callKey (x.file, s)
        ∧ s.AcceptsOrg (org.toNat + x.offset.toNat) ∧ s.AcceptsBank bank
        ∧ s.AcceptsAlign (org.toNat + x.offset.toNat) := by
  intro h
  have hmerged : AllMerged {} overlay := ⟨by cbv, by cbv, trivial⟩
  obtain ⟨s, hs, hkey, -, -, halign⟩ := h overlay identified_overlay (by decide) hmerged
    overlayMerged mem_sections_overlay overlayMember (by simp [overlayMerged]) 0xC100 0
    allows_overlay
  -- the member can only stand for the second section
  obtain rfl : s = overlaid 1 (some 0xC100) 4 1 := congrArg Prod.snd <|
    identified_overlay _ hs (overlayFile, overlaid 1 (some 0xC100) 4 1) (by decide) hkey.symm
  exact absurd halign (by unfold Section.AcceptsAlign; decide)

end Registry

end BankedLinker
