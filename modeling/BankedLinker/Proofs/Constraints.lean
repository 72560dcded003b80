import BankedLinker.Proofs.Alignment

/-!
# Joined constraints and the wishes behind them

`Constraints.absorb` joins the wishes of a section with those that were accepted before. This
file says which places the result leaves open.

* `Constraints.Allows` is the set of places (start address and bank) that constraints leave open;
* `Section.AcceptsOrg`, `Section.AcceptsBank` and `Section.AcceptsAlign` are the wishes of one
  section, seen from its own start;
* `Constraints.allows_of_absorb`: a place that is open after a section was absorbed, or refused,
  was open before;
* `Constraints.accepts_of_absorb`: a place that is open after a section was absorbed meets the
  address and the bank that the section asks for, and its alignment unless the section asks for an
  address too;
* `Section.acceptsAlign_iff_isConsistent`: with an address, it meets the alignment exactly if the
  section's own address does.
-/

namespace BankedLinker

open BankedLinker.Alignment (Suits)

/-- A start address and a bank meet everything that is known of the place. -/
structure Constraints.Allows (c : Constraints) (org : ℕ) (bank : UInt32) : Prop where
  org_eq : c.orgFixed = true → org = c.org.toNat
  bank_eq : c.bankFixed = true → bank = c.bank
  suits : Suits c.align c.alignOffset org

namespace Section

/-- The address is the one that the section asks for, if it asks for one. -/
def AcceptsOrg (s : Section) (address : ℕ) : Prop :=
  ∀ org ∈ s.org, address = org.toNat

/-- The bank is the one that the section asks for, if it asks for one. -/
def AcceptsBank (s : Section) (bank : UInt32) : Prop :=
  ∀ b ∈ s.bank, bank = b

/-- The address suits the alignment that the section asks for. -/
def AcceptsAlign (s : Section) (address : ℕ) : Prop :=
  Suits s.align s.alignOffset address

/-- The address that the section asks for, if there is one, suits its own alignment. -/
def IsConsistent (s : Section) : Prop :=
  ∀ org ∈ s.org, s.AcceptsAlign org.toNat

end Section

namespace Constraints

variable {c c' : Constraints} {s : Section} {offset : UInt32} {org : ℕ} {bank : UInt32}

/-! ## What each step accepts -/

theorem absorbBank_eq_ok {wish : Option UInt32} (h : c.absorbBank wish = .ok c') :
    c'.orgFixed = c.orgFixed ∧ c'.org = c.org ∧ c'.align = c.align
      ∧ c'.alignOffset = c.alignOffset
      ∧ (wish = none ∧ c'.bankFixed = c.bankFixed ∧ c'.bank = c.bank
        ∨ ∃ b, wish = some b ∧ c'.bankFixed = true ∧ c'.bank = b
          ∧ (c.bankFixed = true → c.bank = b)) := by
  cases wish with
  | none =>
    simp only [absorbBank, Except.ok.injEq] at h
    subst h
    exact ⟨rfl, rfl, rfl, rfl, Or.inl ⟨rfl, rfl, rfl⟩⟩
  | some b =>
    simp only [absorbBank] at h
    split at h
    · cases h
    · next hfits =>
      cases h
      refine ⟨rfl, rfl, rfl, rfl, Or.inr ⟨b, rfl, rfl, rfl, fun hfixed => ?_⟩⟩
      by_contra hne
      exact hfits ⟨hfixed, hne⟩

/-- The start of the joined section, seen from a member at `offset` that starts at `start`. -/
theorem toNat_start_sub {start : UInt16} (h : offset.toNat ≤ start.toNat) :
    (start - offset.toUInt16).toNat = start.toNat - offset.toNat := by
  have hstart := start.toNat_lt
  rw [UInt16.toNat_sub, UInt32.toNat_toUInt16]
  omega

theorem absorbOrg_eq_ok {start : UInt16} (h : c.absorbOrg s start offset = .ok c') :
    offset.toNat ≤ start.toNat
      ∧ (c.orgFixed = true → c.org = start - offset.toUInt16)
      ∧ (0 < c.align →
          Alignment.holds (start - offset.toUInt16).toUInt32 c.align c.alignOffset = true)
      ∧ c'.orgFixed = true ∧ c'.org = start - offset.toUInt16
      ∧ c'.bankFixed = c.bankFixed ∧ c'.bank = c.bank
      ∧ (c'.align = c.align ∧ c'.alignOffset = c.alignOffset ∧ s.align ≤ c.align
        ∨ c'.align = s.align ∧ c'.alignOffset = Alignment.shiftBack s.align s.alignOffset offset
          ∧ c.align < s.align) := by
  unfold absorbOrg at h
  -- the address lies before the member
  split at h
  · cases h
  next hlow =>
  dsimp only at h
  -- another address is known
  split at h
  · cases h
  next horg =>
  -- the known alignment does not hold there
  split at h
  · cases h
  next halign =>
  have horg' : c.orgFixed = true → c.org = start - offset.toUInt16 := by
    intro hf
    by_contra hne
    exact horg ⟨hf, hne⟩
  have halign' : 0 < c.align →
      Alignment.holds (start - offset.toUInt16).toUInt32 c.align c.alignOffset = true := by
    intro hpos
    by_contra hne
    exact halign ⟨hpos, by simpa using hne⟩
  split at h
  · next hlt =>
    cases h
    exact ⟨by omega, horg', halign', rfl, rfl, rfl, rfl, Or.inr ⟨rfl, rfl, hlt⟩⟩
  · next hle =>
    cases h
    exact ⟨by omega, horg', halign', rfl, rfl, rfl, rfl, Or.inl ⟨rfl, rfl, UInt8.not_lt.mp hle⟩⟩

theorem absorbAlign_eq_ok (h : c.absorbAlign s offset = .ok c') :
    c.orgFixed = true ∧ c' = c ∧ Alignment.holds c.org.toUInt32 s.align
        (Alignment.shiftBack s.align s.alignOffset offset) = true
    ∨ c.orgFixed = false ∧ c' = c ∧ s.align ≤ c.align ∧ Alignment.agree c.align c.alignOffset
        s.align (Alignment.shiftBack s.align s.alignOffset offset) = true
    ∨ c.orgFixed = false
        ∧ c' = { c with align := s.align,
                        alignOffset := Alignment.shiftBack s.align s.alignOffset offset }
        ∧ (0 < c.align → c.align ≤ s.align ∧ Alignment.agree c.align c.alignOffset
            s.align (Alignment.shiftBack s.align s.alignOffset offset) = true) := by
  unfold absorbAlign at h
  dsimp only at h
  split at h
  · next hfixed =>
    split at h
    · next hholds =>
      cases h
      exact Or.inl ⟨hfixed, rfl, hholds⟩
    · cases h
  · next hfloat =>
    have hfloat' : c.orgFixed = false := by simpa using hfloat
    split at h
    · cases h
    · next hagree =>
      have hagree' : 0 < c.align → Alignment.agree c.align c.alignOffset s.align
          (Alignment.shiftBack s.align s.alignOffset offset) = true := by
        intro hpos
        by_contra hne
        exact hagree ⟨hpos, by simpa using hne⟩
      split at h
      · next hweak =>
        cases h
        exact Or.inr (Or.inl ⟨hfloat', rfl, hweak.2, hagree' hweak.1⟩)
      · next hstrict =>
        cases h
        refine Or.inr (Or.inr ⟨hfloat', rfl, fun hpos => ⟨?_, hagree' hpos⟩⟩)
        by_contra hgt
        exact hstrict ⟨hpos, (UInt8.le_total _ _).resolve_left hgt⟩

/-! ## What each step leaves open -/

theorem allows_of_absorbBank {wish : Option UInt32} (h : c.absorbBank wish = .ok c')
    (ha : c'.Allows org bank) : c.Allows org bank ∧ ∀ b ∈ wish, bank = b := by
  obtain ⟨hfixed, horg, halign, halignOffset, hbank⟩ := absorbBank_eq_ok h
  have hsuits : Suits c.align c.alignOffset org := by
    rw [← halign, ← halignOffset]
    exact ha.suits
  have horg_eq : c.orgFixed = true → org = c.org.toNat := by
    rw [← hfixed, ← horg]
    exact ha.org_eq
  obtain ⟨rfl, hbankFixed, hbank⟩ | ⟨b, rfl, hbankFixed, hbank, hsame⟩ := hbank
  · refine ⟨⟨horg_eq, ?_, hsuits⟩, by simp⟩
    rw [← hbankFixed, ← hbank]
    exact ha.bank_eq
  · have hb : bank = b := (ha.bank_eq hbankFixed).trans hbank
    refine ⟨⟨horg_eq, fun hf => hb.trans (hsame hf).symm, hsuits⟩, ?_⟩
    intro b' hb'
    obtain rfl : b = b' := by simpa using hb'
    exact hb

theorem allows_of_absorbOrg {start : UInt16} (hc : c.align.toNat ≤ 16)
    (h : c.absorbOrg s start offset = .ok c') (ha : c'.Allows org bank) :
    c.Allows org bank ∧ org + offset.toNat = start.toNat := by
  obtain ⟨hle, horg, hholds, hfixed', horg', hbankFixed', hbank', -⟩ := absorbOrg_eq_ok h
  have hstart : org = (start - offset.toUInt16).toNat := by rw [ha.org_eq hfixed', horg']
  refine ⟨⟨fun hf => ?_, fun hf => ?_, ?_⟩, ?_⟩
  · rw [hstart, horg hf]
  · rw [← hbank']
    exact ha.bank_eq (hbankFixed'.trans hf)
  · -- the known alignment was tested, unless there is none
    by_cases hzero : c.align = 0
    · exact Alignment.suits_of_align_eq_zero hzero _ _
    · have := (Alignment.holds_iff (by omega)).mp (hholds (UInt8.pos_iff_ne_zero.mpr hzero))
      rwa [UInt16.toNat_toUInt32, ← hstart] at this
  · rw [hstart, toNat_start_sub hle]
    omega

theorem allows_of_absorbAlign (hc : c.align.toNat ≤ 16) (hs : s.align.toNat ≤ 16)
    (h : c.absorbAlign s offset = .ok c') (ha : c'.Allows org bank) :
    c.Allows org bank ∧ s.AcceptsAlign (org + offset.toNat) := by
  unfold Section.AcceptsAlign
  rw [← Alignment.suits_shiftBack hs]
  obtain ⟨hfixed, rfl, hholds⟩ | ⟨-, rfl, hle, hagree⟩ | ⟨hfloat, rfl, hweaker⟩ :=
    absorbAlign_eq_ok h
  · -- the address is known already, and was tested
    refine ⟨ha, ?_⟩
    have := (Alignment.holds_iff (by omega)).mp hholds
    rwa [UInt16.toNat_toUInt32, ← ha.org_eq hfixed] at this
  · -- the alignment that is known is at least as strict
    rw [Alignment.agree_comm] at hagree
    exact ⟨ha, ha.suits.of_agree hle hs hagree⟩
  · -- the new alignment replaces the known one
    refine ⟨⟨ha.org_eq, ha.bank_eq, ?_⟩, ha.suits⟩
    by_cases hzero : c.align = 0
    · exact Alignment.suits_of_align_eq_zero hzero _ _
    · obtain ⟨hle, hagree⟩ := hweaker (UInt8.pos_iff_ne_zero.mpr hzero)
      exact ha.suits.of_agree hle hc hagree

/-- A place that is open after address and alignment were taken over was open before, and meets
them; of the alignment that holds for a section without an address. -/
theorem allows_of_absorbPlace (hc : c.align.toNat ≤ 16) (hs : s.align.toNat ≤ 16)
    (h : c.absorbPlace s offset = .ok c') (ha : c'.Allows org bank) :
    c.Allows org bank ∧ s.AcceptsOrg (org + offset.toNat)
      ∧ (s.org = none → s.AcceptsAlign (org + offset.toNat)) := by
  unfold absorbPlace at h
  split at h
  · next start hstart =>
    -- the alignment of a section with an address is not looked at
    obtain ⟨hc', heq⟩ := allows_of_absorbOrg hc h ha
    refine ⟨hc', ?_, fun hnone => by simp [hnone] at hstart⟩
    intro org' horg'
    rw [hstart] at horg'
    obtain rfl : start = org' := by simpa using horg'
    exact heq
  · next hnone =>
    have hacceptsOrg : s.AcceptsOrg (org + offset.toNat) := by
      intro org' horg'
      simp [hnone] at horg'
    split at h
    · obtain ⟨hc', hsuits⟩ := allows_of_absorbAlign hc hs h ha
      exact ⟨hc', hacceptsOrg, fun _ => hsuits⟩
    · next hzero =>
      cases h
      have hzero' : s.align = 0 := by
        by_contra hne
        exact hzero (UInt8.pos_iff_ne_zero.mpr hne)
      exact ⟨ha, hacceptsOrg, fun _ => Alignment.suits_of_align_eq_zero hzero' _ _⟩

/-! ## What absorbing leaves open -/

/-- The three ways in which absorbing a section ends: the bank is refused, the bank is settled and
the place is refused, or both are settled. -/
theorem absorb_cases (c : Constraints) (s : Section) (offset : UInt32) :
    (∃ wish, c.absorb s offset = (c, some wish))
    ∨ ∃ banked, c.absorbBank s.bank = .ok banked
      ∧ ((∃ wish, c.absorb s offset = (banked, some wish))
        ∨ ∃ placed, banked.absorbPlace s offset = .ok placed
          ∧ c.absorb s offset = (placed, none)) := by
  unfold absorb
  cases hbanked : c.absorbBank s.bank with
  | error wish => exact Or.inl ⟨wish, rfl⟩
  | ok banked =>
    refine Or.inr ⟨banked, rfl, ?_⟩
    cases hplaced : banked.absorbPlace s offset with
    | error wish => exact Or.inl ⟨wish, by simp only [hplaced]⟩
    | ok placed => exact Or.inr ⟨placed, rfl, by simp only [hplaced]⟩

theorem align_absorbPlace_le {bound : ℕ} (hc : c.align.toNat ≤ bound)
    (hs : s.align.toNat ≤ bound) (h : c.absorbPlace s offset = .ok c') :
    c'.align.toNat ≤ bound := by
  unfold absorbPlace at h
  split at h
  · obtain ⟨-, -, -, -, -, -, -, hsame | hnew⟩ := absorbOrg_eq_ok h
    · rwa [hsame.1]
    · rwa [hnew.1]
  · split at h
    · obtain ⟨-, rfl, -⟩ | ⟨-, rfl, -⟩ | ⟨-, rfl, -⟩ := absorbAlign_eq_ok h
      · exact hc
      · exact hc
      · exact hs
    · cases h
      exact hc

/-- The bound on alignments is kept. -/
theorem align_absorb_le {bound : ℕ} (hc : c.align.toNat ≤ bound) (hs : s.align.toNat ≤ bound) :
    (c.absorb s offset).1.align.toNat ≤ bound := by
  obtain ⟨wish, h⟩ | ⟨banked, hbanked, ⟨wish, h⟩ | ⟨placed, hplaced, h⟩⟩ :=
    absorb_cases c s offset
  · rwa [h]
  · rw [h]
    rwa [(absorbBank_eq_ok hbanked).2.2.1]
  · rw [h]
    refine align_absorbPlace_le ?_ hs hplaced
    rwa [(absorbBank_eq_ok hbanked).2.2.1]

/-- Absorbing never opens a place, whether or not the wishes of the section can be met. -/
theorem allows_of_absorb (hc : c.align.toNat ≤ 16) (hs : s.align.toNat ≤ 16)
    (ha : (c.absorb s offset).1.Allows org bank) : c.Allows org bank := by
  obtain ⟨wish, h⟩ | ⟨banked, hbanked, ⟨wish, h⟩ | ⟨placed, hplaced, h⟩⟩ :=
    absorb_cases c s offset
  · rwa [h] at ha
  · rw [h] at ha
    exact (allows_of_absorbBank hbanked ha).1
  · rw [h] at ha
    rw [← (absorbBank_eq_ok hbanked).2.2.1] at hc
    have hbankedAllows := (allows_of_absorbPlace hc hs hplaced ha).1
    exact (allows_of_absorbBank hbanked hbankedAllows).1

/-- A place that is open after a section was absorbed is one that the section asks for. Where the
section asks for an address, its alignment is left aside. -/
theorem accepts_of_absorb (hc : c.align.toNat ≤ 16) (hs : s.align.toNat ≤ 16)
    (hnone : (c.absorb s offset).2 = none) (ha : (c.absorb s offset).1.Allows org bank) :
    s.AcceptsOrg (org + offset.toNat) ∧ s.AcceptsBank bank
      ∧ (s.org = none → s.AcceptsAlign (org + offset.toNat)) := by
  obtain ⟨wish, h⟩ | ⟨banked, hbanked, ⟨wish, h⟩ | ⟨placed, hplaced, h⟩⟩ :=
    absorb_cases c s offset
  · simp [h] at hnone
  · simp [h] at hnone
  · rw [h] at ha
    rw [← (absorbBank_eq_ok hbanked).2.2.1] at hc
    obtain ⟨hbankedAllows, horg, halign⟩ := allows_of_absorbPlace hc hs hplaced ha
    exact ⟨horg, (allows_of_absorbBank hbanked hbankedAllows).2, halign⟩

end Constraints

/-- An address that meets what a section asks for, its alignment possibly left aside for an
address, meets the alignment exactly if the section is consistent. -/
theorem Section.acceptsAlign_iff_isConsistent {s : Section} {address : ℕ}
    (horg : s.AcceptsOrg address) (halign : s.org = none → s.AcceptsAlign address) :
    s.AcceptsAlign address ↔ s.IsConsistent := by
  cases hs : s.org with
  | none =>
    refine iff_of_true (halign hs) ?_
    intro org hmem
    simp [hs] at hmem
  | some start =>
    have haddress : address = start.toNat := horg start hs
    rw [haddress]
    constructor
    · intro haccepts org hmem
      obtain rfl : start = org := by simpa [hs] using hmem
      exact haccepts
    · intro hconsistent
      exact hconsistent start hs

end BankedLinker
