import BankedLinker.Proofs.Merging

/-!
# Merging refuses nothing that fits

A merged section carries one start address, one bank and one alignment for all of its members.
This file shows that nothing is lost by that: as long as there is a place that meets what every
member and the new section ask for, the new section is merged, and the place stays open.

* `Section.Accepts`: a place meets everything that a section asks for;
* `Constraints.exists_absorb_of_accepts`: constraints absorb a section that accepts a place which
  they leave open, and leave it open;
* `Merged.KeepsPlaces` is the invariant of merging: a place that all members accept is open;
* `Registry.exists_allows_of_accepts` is the result for any sequence of merges.
-/

namespace BankedLinker

open BankedLinker.Alignment (Suits)

/-! ## Places that a section accepts -/

namespace Section

/-- The address and the bank meet everything that the section asks for. -/
structure Accepts (s : Section) (address : ℕ) (bank : UInt32) : Prop where
  org : s.AcceptsOrg address
  bank : s.AcceptsBank bank
  align : s.AcceptsAlign address

variable {s : Section} {address : ℕ} {bank : UInt32}

instance : Decidable (s.Accepts address bank) :=
  decidable_of_iff (s.org.all (address = ·.toNat) ∧ s.bank.all (bank = ·)
      ∧ Suits s.align s.alignOffset address) <| by
    simp only [Option.all_eq_true, decide_eq_true_eq]
    exact ⟨fun h => ⟨h.1, h.2.1, h.2.2⟩, fun h => ⟨h.org, h.bank, h.align⟩⟩

/-- A section that accepts a place does not contradict itself. -/
theorem Accepts.isConsistent (h : s.Accepts address bank) : s.IsConsistent := by
  intro org horg
  rw [← h.org org horg]
  exact h.align

/-- Two positions at which a section gets what it asks for, seen from one start, are congruent
modulo its alignment, and equal if it asks for an address. So a start that is good for one
position is good for the other. -/
theorem Accepts.of_positions {start i j : ℕ} (h : s.Accepts (address + j) bank)
    (hi : s.AcceptsOrg (start + i) ∧ (s.org = none → s.AcceptsAlign (start + i)))
    (hj : s.AcceptsOrg (start + j) ∧ (s.org = none → s.AcceptsAlign (start + j))) :
    s.Accepts (address + i) bank := by
  cases hs : s.org with
  | some org =>
    have hsame : i = j := by
      have hstart := (hi.1 org hs).trans (hj.1 org hs).symm
      omega
    rw [hsame]
    exact h
  | none =>
    have horg : s.AcceptsOrg (address + i) := by
      intro org horg
      simp [hs] at horg
    refine ⟨horg, h.bank, ?_⟩
    have hcongr : (2 ^ s.align.toNat : ℤ) ∣ (i : ℤ) - j := by
      have hdvd := dvd_sub (hi.2 hs) (hj.2 hs)
      push_cast at hdvd
      rwa [show (start : ℤ) + i - s.alignOffset.toNat - (start + j - s.alignOffset.toNat) = i - j
        by ring] at hdvd
    have hsum := dvd_add h.align hcongr
    show (2 ^ s.align.toNat : ℤ) ∣ _
    push_cast at hsum ⊢
    rwa [show (address : ℤ) + j - s.alignOffset.toNat + (i - j) = address + i - s.alignOffset.toNat
      by ring] at hsum

end Section

/-! ## Absorbing a section -/

namespace Constraints

variable {c c' : Constraints} {s : Section} {offset : UInt32} {org : ℕ} {bank : UInt32}

theorem exists_absorbBank (h : c.Allows org bank) {wish : Option UInt32}
    (hwish : ∀ b ∈ wish, bank = b) :
    ∃ c', c.absorbBank wish = .ok c' ∧ c'.Allows org bank := by
  cases wish with
  | none => exact ⟨c, rfl, h⟩
  | some b =>
    have hb : bank = b := hwish b rfl
    have hsame : ¬(c.bankFixed = true ∧ c.bank ≠ b) := by
      rintro ⟨hfixed, hne⟩
      exact hne ((h.bank_eq hfixed).symm.trans hb)
    unfold absorbBank
    dsimp only
    rw [if_neg hsame]
    exact ⟨_, rfl, h.org_eq, fun _ => hb, h.suits⟩

theorem exists_absorbOrg (hc : c.align.toNat ≤ 16) (hs : s.align.toNat ≤ 16)
    (h : c.Allows org bank) {start : UInt16} (horg : org + offset.toNat = start.toNat)
    (halign : s.AcceptsAlign (org + offset.toNat)) :
    ∃ c', c.absorbOrg s start offset = .ok c' ∧ c'.Allows org bank := by
  have hstart : (start - offset.toUInt16).toNat = org := by
    rw [toNat_start_sub (by omega)]
    omega
  have hlow : ¬start.toNat < offset.toNat := by omega
  have hsame : ¬(c.orgFixed = true ∧ c.org ≠ start - offset.toUInt16) := by
    rintro ⟨hfixed, hne⟩
    apply hne
    rw [← UInt16.toNat_inj, hstart, h.org_eq hfixed]
  have hholds : Alignment.holds (start - offset.toUInt16).toUInt32 c.align c.alignOffset
      = true := by
    rw [Alignment.holds_iff (by omega), UInt16.toNat_toUInt32, hstart]
    exact h.suits
  have hsuits : ¬(0 < c.align ∧ (!Alignment.holds (start - offset.toUInt16).toUInt32 c.align
      c.alignOffset) = true) := by
    rw [hholds]
    rintro ⟨-, hfalse⟩
    cases hfalse
  unfold absorbOrg
  dsimp only
  rw [if_neg hlow, if_neg hsame, if_neg hsuits]
  split
  · exact ⟨_, rfl, fun _ => hstart.symm, h.bank_eq, (Alignment.suits_shiftBack hs).mpr halign⟩
  · exact ⟨_, rfl, fun _ => hstart.symm, h.bank_eq, h.suits⟩

theorem exists_absorbAlign (hc : c.align.toNat ≤ 16) (hs : s.align.toNat ≤ 16)
    (h : c.Allows org bank) (halign : s.AcceptsAlign (org + offset.toNat)) :
    ∃ c', c.absorbAlign s offset = .ok c' ∧ c'.Allows org bank := by
  -- the alignment of the section, seen from the start
  have hsuits : Suits s.align (Alignment.shiftBack s.align s.alignOffset offset) org :=
    (Alignment.suits_shiftBack hs).mpr halign
  have hagree := Alignment.agree_of_suits hc hs h.suits hsuits
  unfold absorbAlign
  dsimp only
  split
  · next hfixed =>
    have hholds : Alignment.holds c.org.toUInt32 s.align
        (Alignment.shiftBack s.align s.alignOffset offset) = true := by
      rw [Alignment.holds_iff (by omega), UInt16.toNat_toUInt32, ← h.org_eq hfixed]
      exact hsuits
    rw [if_pos hholds]
    exact ⟨c, rfl, h⟩
  · rw [if_neg (by simp [hagree])]
    split
    · exact ⟨c, rfl, h⟩
    · exact ⟨_, rfl, h.org_eq, h.bank_eq, hsuits⟩

theorem exists_absorbPlace (hc : c.align.toNat ≤ 16) (hs : s.align.toNat ≤ 16)
    (h : c.Allows org bank) (haccepts : s.Accepts (org + offset.toNat) bank) :
    ∃ c', c.absorbPlace s offset = .ok c' ∧ c'.Allows org bank := by
  unfold absorbPlace
  split
  · next start hstart => exact exists_absorbOrg hc hs h (haccepts.org start hstart) haccepts.align
  · split
    · exact exists_absorbAlign hc hs h haccepts.align
    · exact ⟨c, rfl, h⟩

/-- A section that accepts a place which is open is absorbed, and the place stays open. -/
theorem exists_absorb_of_accepts (hc : c.align.toNat ≤ 16) (hs : s.align.toNat ≤ 16)
    (h : c.Allows org bank) (haccepts : s.Accepts (org + offset.toNat) bank) :
    ∃ c', c.absorb s offset = (c', none) ∧ c'.Allows org bank := by
  obtain ⟨banked, hbanked, hallows⟩ := exists_absorbBank h haccepts.bank
  rw [← (absorbBank_eq_ok hbanked).2.2.1] at hc
  obtain ⟨placed, hplaced, hallows'⟩ := exists_absorbPlace hc hs hallows haccepts
  refine ⟨placed, ?_, hallows'⟩
  unfold absorb
  simp only [hbanked, hplaced]

/-! ## Constraints that leave a place open -/

/-- The start address that is asked for suits the alignment. -/
def IsConsistent (c : Constraints) : Prop :=
  c.orgFixed = true → Suits c.align c.alignOffset c.org.toNat

/-- Some place is left open: the address that is asked for, or else the offset of the alignment. -/
theorem IsConsistent.exists_allows (h : c.IsConsistent) : ∃ org bank, c.Allows org bank := by
  by_cases hfixed : c.orgFixed = true
  · exact ⟨c.org.toNat, c.bank, fun _ => rfl, fun _ => rfl, h hfixed⟩
  · refine ⟨c.alignOffset.toNat, c.bank, fun hf => absurd hf hfixed, fun _ => rfl, ?_⟩
    show (2 ^ c.align.toNat : ℤ) ∣ _
    rw [sub_self]
    exact dvd_zero _

theorem IsConsistent.absorbPlace (hc : c.align.toNat ≤ 16) (hs : s.align.toNat ≤ 16)
    (h : c.IsConsistent) (hconsistent : s.IsConsistent) (hok : c.absorbPlace s offset = .ok c') :
    c'.IsConsistent := by
  unfold Constraints.absorbPlace at hok
  split at hok
  · next start hstart =>
    obtain ⟨hle, -, hholds, -, horg, -, -, halign⟩ := absorbOrg_eq_ok hok
    have htoNat := toNat_start_sub hle
    intro _
    rw [horg]
    rcases halign with ⟨halign, hoffset, -⟩ | ⟨halign, hoffset, -⟩
    · -- the alignment that was known was tested, unless there is none
      rw [halign, hoffset]
      by_cases hzero : c.align = 0
      · exact Alignment.suits_of_align_eq_zero hzero _ _
      · have hsuits := (Alignment.holds_iff (by omega)).mp (hholds (UInt8.pos_iff_ne_zero.mpr hzero))
        rwa [UInt16.toNat_toUInt32] at hsuits
    · -- the new alignment goes with the address of its section
      rw [halign, hoffset, Alignment.suits_shiftBack hs, htoNat, Nat.sub_add_cancel hle]
      exact hconsistent start hstart
  · split at hok
    · rcases absorbAlign_eq_ok hok with ⟨-, rfl, -⟩ | ⟨-, rfl, -⟩ | ⟨hfloat, rfl, -⟩
      · exact h
      · exact h
      · intro hfixed
        rw [hfloat] at hfixed
        cases hfixed
    · cases hok
      exact h

/-- Constraints stay consistent when they absorb a consistent section. -/
theorem IsConsistent.absorb (hc : c.align.toNat ≤ 16) (hs : s.align.toNat ≤ 16)
    (h : c.IsConsistent) (hconsistent : s.IsConsistent) (hnone : (c.absorb s offset).2 = none) :
    (c.absorb s offset).1.IsConsistent := by
  rcases absorb_cases c s offset with ⟨wish, habsorb⟩ |
    ⟨banked, hbanked, ⟨wish, habsorb⟩ | ⟨placed, hplaced, habsorb⟩⟩
  · simp [habsorb] at hnone
  · simp [habsorb] at hnone
  · rw [habsorb]
    obtain ⟨hfixed, horg, halign, halignOffset, -⟩ := absorbBank_eq_ok hbanked
    have hbankedConsistent : banked.IsConsistent := by
      unfold IsConsistent
      rw [hfixed, horg, halign, halignOffset]
      exact h
    rw [← halign] at hc
    exact hbankedConsistent.absorbPlace hc hs hconsistent hplaced

end Constraints

/-! ## The invariant -/

namespace Merged

variable {m : Merged} {calls : List (ObjectFile × Section)} {f : ObjectFile} {s : Section}

/-- The invariant of merging without conflicts: a place that all members accept is open. If no
member contradicts itself, some place is open at all. -/
structure KeepsPlaces (m : Merged) : Prop where
  storable : ¬(m.modifier = .union ∧ m.kind.hasData = true)
  consistent : (∀ x ∈ m.members, x.content.IsConsistent) → m.IsConsistent
  allows : ∀ org bank,
    (∀ x ∈ m.members, x.content.Accepts (org + x.offset.toNat) bank) → m.Allows org bank

theorem keepsPlaces_emptyFor (r : Registry) (s : Section)
    (hstorable : ¬(s.modifier = .union ∧ s.kind.hasData = true)) :
    (r.emptyFor s).KeepsPlaces where
  storable := hstorable
  consistent _ := nofun
  allows _ _ _ := ⟨nofun, nofun, Alignment.suits_of_align_eq_zero rfl _ _⟩

theorem KeepsWishes.mono {calls' : List (ObjectFile × Section)} (hm : m.KeepsWishes calls)
    (hsub : ∀ call ∈ calls, call ∈ calls') : m.KeepsWishes calls' := by
  refine { hm with declares := ?_ }
  intro x hx
  obtain ⟨call, hcall, hdeclares⟩ := hm.declares x hx
  exact ⟨call, hsub call hcall, hdeclares⟩

theorem newMember_mem_joined (m : Merged) (f : ObjectFile) (s : Section) :
    m.newMember f s ∈ (m.joined f s).members := by
  rw [members_joined]
  exact Array.mem_push_self

/-- A member is still there after a merge, with the position of the new member if it stands for the
same section. -/
theorem moved_mem_joined (f : ObjectFile) (s : Section) {x : Member} (hx : x ∈ m.members) :
    (if x.key = (m.newMember f s).key then { x with offset := (m.newMember f s).offset } else x)
      ∈ (m.joined f s).members := by
  rw [members_joined, Array.mem_push]
  exact Or.inl (Array.mem_map.mpr ⟨x, hx, rfl⟩)

theorem offset_newMember (m : Merged) (f : ObjectFile) (s : Section) :
    (m.newMember f s).offset = m.nextOffset := by
  unfold newMember
  split <;> rfl

/-- A section that accepts an open place at the position that comes next can join, and the place
stays open. -/
theorem met_of_accepts (hm : m.align.toNat ≤ 16) (hs : s.align.toNat ≤ 16) {org : ℕ}
    {bank : UInt32} (hallows : m.Allows org bank)
    (hnew : (m.newMember f s).content.Accepts (org + (m.newMember f s).offset.toNat) bank) :
    m.unmetWish? f s = none ∧ (m.joined f s).Allows org bank := by
  have hcontent : (m.newMember f s).content.align.toNat ≤ 16 := by rwa [align_newMember]
  obtain ⟨c, habsorb, hopen⟩ := Constraints.exists_absorb_of_accepts hm hcontent hallows hnew
  constructor
  · show (m.absorb (m.newMember f s).content (m.newMember f s).offset).2 = none
    rw [habsorb]
  · show (m.absorb (m.newMember f s).content (m.newMember f s).offset).1.Allows org bank
    rw [habsorb]
    exact hopen

section Step

variable (hm : m.KeepsPlaces) (hwishes : m.KeepsWishes calls) (hid : Identified calls)
  (halign : s.align.toNat ≤ 16) (hcall : (f, s) ∈ calls) (hmet : m.unmetWish? f s = none)

include hm hwishes halign hmet

theorem KeepsPlaces.consistent_joined
    (h : ∀ x ∈ (m.joined f s).members, x.content.IsConsistent) : (m.joined f s).IsConsistent := by
  have hold : ∀ x ∈ m.members, x.content.IsConsistent := by
    intro x hx
    have hmoved := h _ (moved_mem_joined f s hx)
    split at hmoved
    · exact hmoved
    · exact hmoved
  have hnew := h _ (m.newMember_mem_joined f s)
  exact (hm.consistent hold).absorb hwishes.align_le (by rwa [align_newMember]) hnew hmet

include hid hcall

/-- A place that the members accept after a merge is one that they accepted before, also where a
member has moved. -/
theorem KeepsPlaces.accepts_of_joined {org : ℕ} {bank : UInt32}
    (h : ∀ x ∈ (m.joined f s).members, x.content.Accepts (org + x.offset.toNat) bank) :
    ∀ x ∈ m.members, x.content.Accepts (org + x.offset.toNat) bank := by
  intro x hx
  have hmoved := h _ (moved_mem_joined f s hx)
  split at hmoved
  · next hkey =>
    -- the section was merged before, so there is a start that is good for both of its positions
    have hjoined := hwishes.joined hid halign hcall hmet
    obtain ⟨start, bank', hallows⟩ := (hm.consistent_joined hwishes halign hmet
      fun y hy => (h y hy).isConsistent).exists_allows
    have hcontent : (m.newMember f s).content.align.toNat ≤ 16 := by rwa [align_newMember]
    have hold := hwishes.accepts x hx start bank'
      (Constraints.allows_of_absorb hwishes.align_le hcontent hallows)
    have hnew := hjoined.accepts _ (moved_mem_joined f s hx) start bank' hallows
    rw [if_pos hkey] at hnew
    exact hmoved.of_positions ⟨hold.1, hold.2.2⟩ ⟨hnew.1, hnew.2.2⟩
  · exact hmoved

theorem KeepsPlaces.joined : (m.joined f s).KeepsPlaces := by
  refine ⟨?_, hm.consistent_joined hwishes halign hmet, ?_⟩
  · rw [modifier_joined, kind_joined]
    exact hm.storable
  · intro org bank h
    have hallows := hm.allows org bank (hm.accepts_of_joined hwishes hid halign hcall hmet h)
    exact (met_of_accepts hwishes.align_le halign hallows (h _ (m.newMember_mem_joined f s))).2

end Step

end Merged

/-! ## Sequences of merges -/

namespace Registry

variable {r : Registry} {name : Bytes} {calls : List (ObjectFile × Section)} {f : ObjectFile}
  {s : Section}

/-- Every section of a name could be merged. -/
def AllMergedOf (name : Bytes) (r : Registry) : List (ObjectFile × Section) → Prop
  | [] => True
  | (f, s) :: rest => (s.name = name → (r.add f s).2 = none) ∧ AllMergedOf name (r.add f s).1 rest

theorem forall_add_of_name {P : Merged → Prop} (hr : r.Indexed)
    (hmerged : s.name = name → (r.add f s).2 = none)
    (hP : ∀ m ∈ r.sections, m.name = name → P m)
    (hempty : s.name = name → ¬(s.modifier = .union ∧ s.kind.hasData = true) → P (r.emptyFor s))
    (hjoined : ∀ m, s.name = name → P m → m.unmetWish? f s = none → P (m.joined f s)) :
    ∀ m ∈ (r.add f s).1.sections, m.name = name → P m := by
  have hindexed := indexed_add hr f s
  rcases add_cases hr f s with ⟨conflict, -, h⟩ |
    ⟨i, m, r', hslot, hadmits, ⟨wish, -, h, hputs⟩ | ⟨hmet, h, hputs⟩⟩
  · rwa [h]
  · -- a section of another name was refused
    rw [h] at hmerged hindexed ⊢
    intro n hn hname
    rcases hputs.mem_cases hindexed hn with rfl | ⟨hn, -⟩
    · have hsname : s.name = name := hadmits.name_eq.symm.trans hname
      simp at hmerged
      exact absurd hsname hmerged
    · exact hP n hn hname
  · rw [h] at hindexed ⊢
    intro n hn hname
    rcases hputs.mem_cases hindexed hn with rfl | ⟨hn, -⟩
    · rw [Merged.name_joined] at hname
      have hsname : s.name = name := hadmits.name_eq.symm.trans hname
      apply hjoined m hsname _ hmet
      cases hslot with
      | known _ present _ => exact hP m (Array.mem_of_getElem? present) hname
      | fresh _ _ empty =>
        rw [empty]
        exact hempty hsname hadmits.storable
    · exact hP n hn hname

/-- What holds of an empty merged section and survives each merge without a conflict holds of the
merged section of a name all of whose sections could be merged. -/
theorem forall_addAll_of_name {P : Merged → Prop} (hmerged : AllMergedOf name {} calls)
    (hempty : ∀ call ∈ calls, ∀ r : Registry, call.2.name = name →
      ¬(call.2.modifier = .union ∧ call.2.kind.hasData = true) → P (r.emptyFor call.2))
    (hjoined : ∀ call ∈ calls, ∀ m, call.2.name = name → P m →
      m.unmetWish? call.1 call.2 = none → P (m.joined call.1 call.2)) :
    ∀ m ∈ (addAll {} calls).sections, m.name = name → P m := by
  -- the induction is over what is left of the sequence, from any registry that it may reach
  suffices hrun : ∀ (rest : List (ObjectFile × Section)) (r : Registry), r.Indexed →
      AllMergedOf name r rest → (∀ call ∈ rest, call ∈ calls) →
      (∀ m ∈ r.sections, m.name = name → P m) →
      ∀ m ∈ (addAll r rest).sections, m.name = name → P m from
    hrun calls {} indexed_empty hmerged (fun _ h => h) (by simp)
  intro rest
  induction rest with
  | nil =>
    intro r _ _ _ hP
    exact hP
  | cons call rest ih =>
    intro r hr hmerged hsub hP
    have hcall := hsub call List.mem_cons_self
    apply ih (r.add call.1 call.2).1 (indexed_add hr _ _) hmerged.2
      (fun c hc => hsub c (List.mem_cons_of_mem _ hc))
    exact forall_add_of_name hr hmerged.1 hP (hempty call hcall r) (hjoined call hcall)

/-- The invariant holds of a name all of whose sections could be merged. -/
theorem keepsPlaces_addAll (hid : Identified calls)
    (halign : ∀ call ∈ calls, call.2.name = name → call.2.align.toNat ≤ 16)
    (hmerged : AllMergedOf name {} calls) :
    ∀ m ∈ (addAll {} calls).sections, m.name = name → m.KeepsWishes calls ∧ m.KeepsPlaces := by
  refine forall_addAll_of_name hmerged ?_ ?_
  · intro call hcall r hname hstorable
    exact ⟨Merged.keepsWishes_emptyFor r _, Merged.keepsPlaces_emptyFor r _ hstorable⟩
  · intro call hcall m hname hm hmet
    have hle := halign call hcall hname
    exact ⟨hm.1.joined hid hle hcall hmet, hm.2.joined hm.1 hid hle hcall hmet⟩

/-! ## A section that fits -/

theorem checkKinship_eq_none {m : Merged} (hkind : m.kind = s.kind)
    (hmodifier : m.modifier = s.modifier) (hjoins : s.modifier ≠ .normal) :
    checkKinship m s = none := by
  unfold checkKinship
  split
  · rfl
  · rw [if_neg (not_not_intro hkind), if_neg (not_not_intro hmodifier), if_neg hjoins]

/-- A section that may join a merged section of the registry and asks for nothing that cannot be
met joins it. -/
theorem add_of_met (hr : r.Indexed) {m : Merged} (hm : m ∈ r.sections) (hadmits : Admits m s)
    (hmet : m.unmetWish? f s = none) :
    (r.add f s).2 = none ∧ (r.add f s).1.find? s.name = some (m.joined f s) := by
  have hindexed := indexed_add hr f s
  have hfind := hr.find?_eq_some_iff.mpr ⟨hm, hadmits.name_eq⟩
  have hunique : ∀ n ∈ r.sections, n.name = s.name → n = m := by
    intro n hn hname
    have hsame := hr.find?_eq_some_iff.mpr ⟨hn, hname⟩
    exact Option.some.inj (hsame.symm.trans hfind)
  rcases add_cases hr f s with ⟨conflict, hrefuses, -⟩ | ⟨i, n, r', hslot, -, hjoin⟩
  · exfalso
    cases hrefuses with
    | unstorable union hasData => exact hadmits.storable ⟨union, hasData⟩
    | unrelated mem name_eq kinship =>
      rw [hunique _ mem name_eq, hadmits.kinship] at kinship
      cases kinship
  · -- the section looks at the merged section of its name
    have hslot_eq : n = m := by
      have hname := hslot.name_eq hr
      cases hslot with
      | known position present _ => exact hunique n (Array.mem_of_getElem? present) hname
      | fresh position _ _ =>
        rw [find?, position] at hfind
        cases hfind
    rw [hslot_eq] at hjoin
    rcases hjoin with ⟨wish, hwish, -⟩ | ⟨-, hadd, hputs⟩
    · rw [hmet] at hwish
      cases hwish
    · rw [hadd] at hindexed ⊢
      refine ⟨rfl, hindexed.find?_eq_some_iff.mpr ⟨hputs.mem, ?_⟩⟩
      rw [Merged.name_joined, hadmits.name_eq]

/-- **Merging refuses nothing that fits.** Take a merged section after any sequence of merges in
which no section of its name was refused, and a further section of the same name and sort. If some
place gives every member what its section asks for, and the further section what it asks for at
the position that comes next, then the section is merged and the place is open afterwards. -/
theorem exists_allows_of_accepts (hid : Identified ((f, s) :: calls))
    (halign : ∀ call ∈ (f, s) :: calls, call.2.name = s.name → call.2.align.toNat ≤ 16)
    (hmerged : AllMergedOf s.name {} calls) {m : Merged} (hm : m ∈ (addAll {} calls).sections)
    (hname : m.name = s.name) (hkind : m.kind = s.kind) (hmodifier : m.modifier = s.modifier)
    (hjoins : s.modifier = .union ∨ s.modifier = .fragment) {org : ℕ} {bank : UInt32}
    (hmembers : ∀ x ∈ m.members, ∀ t, (x.file, t) ∈ calls → x.key = callKey (x.file, t) →
      t.Accepts (org + x.offset.toNat) bank)
    (hnew : s.Accepts (org + if s.modifier = .fragment then m.size.toNat else 0) bank) :
    ((addAll {} calls).add f s).2 = none
      ∧ ∃ m', ((addAll {} calls).add f s).1.find? s.name = some m' ∧ m'.Allows org bank := by
  have hcall : (f, s) ∈ (f, s) :: calls := List.mem_cons_self
  have hsub : ∀ call ∈ calls, call ∈ (f, s) :: calls := fun _ h => List.mem_cons_of_mem _ h
  have hidCalls : Identified calls := fun call h other h' => hid call (hsub call h) other (hsub _ h')
  obtain ⟨hwishes, hplaces⟩ := keepsPlaces_addAll hidCalls
    (fun call h => halign call (hsub call h)) hmerged m hm hname
  -- the members ask for what their sections ask for
  have hallows : m.Allows org bank := by
    apply hplaces.allows
    intro x hx
    obtain ⟨⟨g, t⟩, ht, hdeclares⟩ := hwishes.declares x hx
    have hfile : x.file = g := hdeclares.file_eq
    have haccepts := hmembers x hx t (hfile ▸ ht) (hfile ▸ hdeclares.key_eq)
    rw [hdeclares.content_eq]
    exact ⟨haccepts.org, haccepts.bank, haccepts.align⟩
  have hdeclares := (hwishes.mono hsub).declares_newMember hid hcall
  have hoffset : (m.newMember f s).offset.toNat
      = if s.modifier = .fragment then m.size.toNat else 0 := by
    rw [m.offset_newMember, Merged.nextOffset, hmodifier]
    split <;> rfl
  have hcontent : (m.newMember f s).content.Accepts (org + (m.newMember f s).offset.toNat) bank := by
    rw [hdeclares.content_eq, hoffset]
    exact ⟨hnew.org, hnew.bank, hnew.align⟩
  obtain ⟨hmet, hopen⟩ :=
    Merged.met_of_accepts hwishes.align_le (halign (f, s) hcall rfl) hallows hcontent
  have hadmits : Admits m s := by
    refine ⟨hname, checkKinship_eq_none hkind hmodifier ?_, ?_⟩
    · rcases hjoins with h | h <;> rw [h] <;> decide
    · rw [← hkind, ← hmodifier]
      exact hplaces.storable
  obtain ⟨hnone, hfind⟩ := add_of_met (indexed_addAll indexed_empty calls) hm hadmits hmet
  exact ⟨hnone, _, hfind, hopen⟩

/-- A part of a section in WRAMX whose parts follow each other. -/
def alignedPart (id : UInt32) (size : UInt32) (org : Option UInt16) (bank : Option UInt32)
    (align : UInt8) (alignOffset : UInt16) : Section :=
  { id, name := [0x70], source := none, kind := .wramx, modifier := .fragment, size, org, bank,
    align, alignOffset, data := [], patches := [] }

/-- The first part is loosely aligned, the second one is aligned so strictly that only one start
remains, and the third one asks for an address. -/
def alignedFile : ObjectFile :=
  { name := [0x66], index := 0,
    sections := [alignedPart 0 3 none none 4 0, alignedPart 1 5 none (some 2) 16 0xD303,
      alignedPart 2 1 (some 0xD308) none 3 0] }

def alignedParts : List (ObjectFile × Section) :=
  [(alignedFile, alignedPart 0 3 none none 4 0),
    (alignedFile, alignedPart 1 5 none (some 2) 16 0xD303)]

/-- What the first two parts are merged into. -/
def alignedMerged : Merged :=
  { bankFixed := true, bank := 2, align := 16, alignOffset := 0xD300, id := 0, name := [0x70],
    kind := .wramx, modifier := .fragment, size := 8,
    members := #[⟨alignedFile, alignedPart 0 3 none none 4 0, 0, 0, 0, false⟩,
      ⟨alignedFile, alignedPart 1 5 none (some 2) 16 0xD303, 3, 0, 2, false⟩] }

theorem sections_alignedParts : (addAll {} alignedParts).sections = #[alignedMerged] := by
  cbv

/-- The third part fits, so it is merged, and the only start that is left stays open. -/
theorem exists_allows_of_accepts_alignedParts :
    alignedMerged ∈ (addAll {} alignedParts).sections
      ∧ (alignedPart 0 3 none none 4 0).Accepts 0xD300 2
      ∧ (alignedPart 1 5 none (some 2) 16 0xD303).Accepts 0xD303 2
      ∧ (alignedPart 2 1 (some 0xD308) none 3 0).Accepts 0xD308 2
      ∧ ((addAll {} alignedParts).add alignedFile (alignedPart 2 1 (some 0xD308) none 3 0)).2 = none
      ∧ ∃ m', ((addAll {} alignedParts).add alignedFile
          (alignedPart 2 1 (some 0xD308) none 3 0)).1.find? [0x70] = some m'
        ∧ m'.Allows 0xD300 2 := by
  have hmem : alignedMerged ∈ (addAll {} alignedParts).sections := by
    rw [sections_alignedParts]
    exact Array.mem_singleton.mpr rfl
  have hfirst : (alignedPart 0 3 none none 4 0).Accepts 0xD300 2 := by decide
  have hsecond : (alignedPart 1 5 none (some 2) 16 0xD303).Accepts 0xD303 2 := by decide
  have hthird : (alignedPart 2 1 (some 0xD308) none 3 0).Accepts 0xD308 2 := by decide
  have hid : Identified ((alignedFile, alignedPart 2 1 (some 0xD308) none 3 0) :: alignedParts) := by
    simp [Identified, alignedParts, callKey, alignedPart]
  have hmerged : AllMergedOf [0x70] {} alignedParts :=
    ⟨fun _ => by cbv, fun _ => by cbv, trivial⟩
  refine ⟨hmem, hfirst, hsecond, hthird, ?_⟩
  apply exists_allows_of_accepts hid (by decide) hmerged hmem rfl rfl rfl (Or.inr rfl) _ hthird
  -- a member can only stand for the part of its own number
  have hmembers := And.intro hfirst hsecond
  simpa [alignedMerged, alignedParts, alignedPart, Member.key, callKey] using hmembers

end Registry

end BankedLinker
