import BankedLinker.Proofs.Turns
import Mathlib.Order.Bounds.Basic

/-!
# The first place that fits

A floating section goes to the lowest bank, and there to the lowest address, at which it fits. Only
one address of each free span is tried, the first one that suits the section. That misses nothing:
if the section fits anywhere in the span it fits there, and the free spans of a bank hold all of
its free addresses in ascending order.

* `Placement.Vacant` says that a section could be placed at a location, and `Location` is ordered
  by bank and address;
* `Placement.toOption_fitIn`: trying the free spans is a search for the first attempt that succeeds;
* `Placement.exists_attempt`: every vacant place is matched by an attempt;
* `Placement.le_of_fitIn` and `Placement.le_of_searchBanks`: the search ends at the first place;
* `Placement.assign_firstFit` is the result for all floating sections with addresses.
-/

namespace BankedLinker

open BankedLinker.Alignment (Suits)

/-- Locations are ordered by bank, and within a bank by address. -/
instance : LE Location where
  le a b := a.bank < b.bank ∨ a.bank = b.bank ∧ a.org ≤ b.org

theorem Location.le_iff {a b : Location} : a ≤ b ↔ a.bank.toNat < b.bank.toNat
    ∨ a.bank.toNat = b.bank.toNat ∧ a.org.toNat ≤ b.org.toNat := by
  rw [← UInt32.lt_iff_toNat_lt, UInt32.toNat_inj, ← UInt16.le_iff_toNat_le]
  rfl

namespace Placement

variable {map : MemoryMap} {l l' : Ledger} {m : Merged} {space b : BankSpace}
  {done before after : List Outcome} {o : Outcome} {loc : Location} {start found largest : ℕ}

/-- A location at which a section could be placed after the outcomes `done`: it is in its region
and as the section asks for, and none of the outcomes uses an address of the section there. -/
structure Vacant (map : MemoryMap) (done : List Outcome) (m : Merged) (loc : Location) :
    Prop where
  hasBank : (map.region m.kind).HasBank loc.bank
  bank_eq : m.bankFixed = true → loc.bank = m.bank
  org_eq : m.orgFixed = true → loc.org = m.org
  suits : Suits m.align m.alignOffset loc.org.toNat
  start_le : (map.region m.kind).start.toNat ≤ loc.org.toNat
  stop_le : loc.org.toNat + m.size.toNat
    ≤ (map.region m.kind).start.toNat + (map.region m.kind).size.toNat
  untaken : ∀ a, (extent m loc.org.toNat).Has a → ¬Taken done m.kind loc.bank a

/-- A section with addresses is settled at a place that was vacant. -/
theorem Settled.vacant (h : Settled map done m loc) (hsize : m.size ≠ 0) :
    Vacant map done m loc where
  hasBank := h.hasBank
  bank_eq := h.bank_eq
  org_eq := h.org_eq
  suits := h.suits_iff.mpr fun hstranded => hsize hstranded.size_eq
  start_le := h.start_le
  stop_le := h.stop_le
  untaken := h.untaken

/-! ## One bank -/

/-- What a section finds in one free span of a bank. -/
def attempt (space : BankSpace) (m : Merged) (free : Span) : Option (ℕ × BankSpace) :=
  (candidate? m free).bind fun start =>
    if start + m.size.toNat ≤ free.stop then (space.reserve (extent m start) m).map (start, ·)
    else none

theorem toOption_fitIn (space : BankSpace) (m : Merged) (largest : ℕ) (frees : List Span) :
    (fitIn space m largest frees).toOption = frees.findSome? (attempt space m) := by
  induction frees generalizing largest with
  | nil => rfl
  | cons free rest ih =>
    unfold fitIn
    rw [List.findSome?_cons]
    cases hcandidate : candidate? m free with
    | none =>
      simp only [attempt, hcandidate, Option.bind_none]
      exact ih _
    | some start =>
      simp only [attempt, hcandidate, Option.bind_some]
      by_cases hfits : start + m.size.toNat ≤ free.stop
      · simp only [if_pos hfits]
        cases space.reserve (extent m start) m with
        | none => exact ih _
        | some b => rfl
      · simp only [if_neg hfits]
        exact ih _

theorem candidate?_of_attempt {free : Span} (h : attempt space m free = some (found, b)) :
    candidate? m free = some found := by
  rcases Option.bind_eq_some_iff.mp h with ⟨start, hcandidate, hfits⟩
  split_ifs at hfits
  rcases Option.map_eq_some_iff.mp hfits with ⟨left, -, hpair⟩
  rw [hcandidate, (Prod.mk.inj hpair).1]

/-- A section could be placed at an address of a bank. -/
structure FitsAt (space : BankSpace) (m : Merged) (start : ℕ) : Prop where
  start_eq : m.orgFixed = true → start = m.org.toNat
  suits : Suits m.align m.alignOffset start
  free : ∀ a, (extent m start).Has a → space.IsFree a

/-- If an address of a free span is one that the section asks for, the span has a candidate, and
none that is higher. -/
theorem exists_candidate? (halign : m.align.toNat ≤ 16) {free : Span} (hfree : free.start ≤ 2 ^ 16)
    (h : FitsAt space m start) (hstart : free.Has start) :
    ∃ found, candidate? m free = some found ∧ found ≤ start := by
  simp only [Span.Has] at hstart
  cases hfixed : m.orgFixed with
  | true =>
    rw [candidate?_of_fixed hfixed, ← h.start_eq hfixed, if_neg (by omega)]
    exact ⟨start, rfl, le_rfl⟩
  | false =>
    have hword := toNat_toUInt32_start hfree
    have hle := Alignment.roundUp_le m.alignOffset halign (hword.trans_le hfree)
      (hword.trans_le hstart.1) h.suits
    rw [candidate?_of_floating hfixed, if_neg (by omega)]
    exact ⟨_, rfl, hle⟩

section OneBank

variable (htidy : BankSpace.Tidy space.free) (hinside : ∀ f ∈ space.free, f.start ≤ 2 ^ 16)
  (halign : m.align.toNat ≤ 16) (hsize : m.size ≠ 0)

include htidy hinside halign hsize

/-- Every place in a bank is matched by an attempt that succeeds, in the span of the place and not
above it. -/
theorem exists_attempt (h : FitsAt space m start) :
    ∃ f ∈ space.free, f.start ≤ start
      ∧ ∃ found b, attempt space m f = some (found, b) ∧ found ≤ start := by
  have hpos : 0 < m.size.toNat := by
    rw [Nat.pos_iff_ne_zero]
    exact fun hzero => hsize (UInt32.toNat_inj.mp hzero)
  have hextent : (extent m start).start < (extent m start).stop := by
    simp only [extent]
    omega
  rcases htidy.exists_isInside hextent h.free with ⟨f, hf, hin⟩
  have hbounds := Span.isInside_iff.mp hin
  simp only [extent] at hbounds
  rcases exists_candidate? halign (hinside f hf) h
    (show f.Has start by simp only [Span.Has]; omega) with ⟨found, hcandidate, hle⟩
  have hlow := (candidate?_eq_some halign (hinside f hf) hcandidate).1
  -- what lies between the start of the span and the end of the place is free
  have hfits : ∀ a, (extent m found).Has a → space.IsFree a := by
    intro a ha
    simp only [Span.Has, extent] at ha
    exact ⟨f, hf, by simp only [Span.Has]; omega⟩
  obtain ⟨b, hb⟩ : ∃ b, space.reserve (extent m found) m = some b :=
    (BankSpace.exists_reserve_iff htidy).mpr hfits
  refine ⟨f, hf, hbounds.1, found, b, ?_, hle⟩
  simp only [attempt, hcandidate, Option.bind_some, hb, Option.map_some]
  exact if_pos (by omega)

/-- If a section finds a place in a bank, it is the lowest one there. -/
theorem le_of_fitIn (hfound : fitIn space m largest space.free = .ok (found, b))
    (h : FitsAt space m start) : found ≤ start := by
  have hfirst := toOption_fitIn space m largest space.free
  rw [hfound] at hfirst
  rcases List.findSome?_eq_some_iff.mp hfirst.symm with ⟨front, f, back, hsplit, hf, hfront⟩
  rcases exists_attempt htidy hinside halign hsize h with
    ⟨g, hg, hstart, found', b', hattempt, hle⟩
  rw [hsplit, List.mem_append, List.mem_cons] at hg
  rcases hg with hg | rfl | hg
  · simp [hfront g hg] at hattempt
  · simp only [hf, Option.some.injEq, Prod.mk.injEq] at hattempt
    omega
  · -- the span of the place lies behind the one in which the search ended
    have hapart := htidy.apart
    rw [hsplit, List.pairwise_append, List.pairwise_cons] at hapart
    have hbehind := hapart.2.1.1 g hg
    have hlt := lt_stop_of_candidate? (candidate?_of_attempt hf)
    omega

/-- If a section finds no place in a bank, there is none. -/
theorem not_fitsAt_of_fitIn {n : ℕ} (hnone : fitIn space m largest space.free = .error n) :
    ¬FitsAt space m start := by
  intro h
  have hfirst := toOption_fitIn space m largest space.free
  rw [hnone] at hfirst
  rcases exists_attempt htidy hinside halign hsize h with ⟨g, hg, -, found, b, hattempt, -⟩
  simp [List.findSome?_eq_none_iff.mp hfirst.symm g hg] at hattempt

end OneBank

/-! ## All banks -/

/-- A search goes on to a bank only if the section fits in none before it. -/
theorem fitIn_eq_error_of_lt {count : ℕ} {bank : UInt32} (hbound : bank.toNat + count ≤ 2 ^ 32)
    (h : searchBanks l m count bank largest = .ok (loc, l')) {tried : UInt32}
    (hlow : bank.toNat ≤ tried.toNat) (hlt : tried.toNat < loc.bank.toNat) :
    ∃ k k', fitIn (l.space ⟨m.kind, tried⟩) m k (l.space ⟨m.kind, tried⟩).free = .error k' := by
  induction count generalizing bank largest with
  | zero => cases h
  | succ count ih =>
    unfold searchBanks at h
    dsimp only at h
    split at h
    · cases h
      dsimp only at hlt
      omega
    · next k hfail =>
      by_cases htried : tried = bank
      · exact ⟨largest, k, htried ▸ hfail⟩
      · have hne : tried.toNat ≠ bank.toNat := fun heq => htried (UInt32.toNat_inj.mp heq)
        by_cases hzero : count = 0
        · subst hzero
          cases h
        · have hnext := toNat_nextBank hbound hzero
          exact ih (by omega) h (by omega)

/-- A vacant place is one that the section fits at. -/
theorem Vacant.fitsAt (hl : l.Accounts done) (h : Vacant l.map done m loc) :
    FitsAt (l.space ⟨m.kind, loc.bank⟩) m loc.org.toNat where
  start_eq horg := by rw [h.org_eq horg]
  suits := h.suits
  free a ha := by
    refine (hl.isFree_iff _ _ _).mpr ⟨?_, h.untaken a ha⟩
    have hstart := h.start_le
    have hstop := h.stop_le
    simp only [Span.Has, extent] at ha
    simp only [Region.HasAddress]
    omega

theorem placeFloating_eq (l : Ledger) (m : Merged) :
    placeFloating l m =
      match searchBanks l m (countTried l m) (firstTried l m) 0 with
      | .ok placed => .ok placed
      | .error largest =>
        if m.size = 0 ∧ !m.orgFixed then .ok (⟨(l.map.region m.kind).start, firstTried l m⟩, l)
        else .error (.noSpace m.size largest) := rfl

/-- A search that succeeds ends at the first vacant place. -/
theorem le_of_searchBanks (hl : l.Accounts done) (hm : Valid l.map m) (hsize : m.size ≠ 0)
    (halign : m.align.toNat ≤ 16)
    (h : searchBanks l m (countTried l m) (firstTried l m) 0 = .ok (loc, l')) {loc' : Location}
    (hvacant : Vacant l.map done m loc') : loc ≤ loc' := by
  have hbound := firstTried_add_countTried_le l m
  have htried := (tried_iff hm).mpr ⟨hvacant.hasBank, hvacant.bank_eq⟩
  have hfits := hvacant.fitsAt hl
  rw [Location.le_iff]
  rcases lt_trichotomy loc.bank.toNat loc'.bank.toNat with hlt | heq | hgt
  · exact Or.inl hlt
  · -- the search ended in the bank of the place
    rcases searchBanks_eq_ok hbound h with ⟨-, -, n, start, space, hfit, horg, -⟩
    rw [← UInt32.toNat_inj.mp heq] at hfits
    have hle := le_of_fitIn (hl.tidy _) (fun f hf => hl.start_le hf) halign hsize hfit hfits
    rw [horg, UInt16.toNat_ofNat']
    omega
  · -- the search went past the bank of the place
    rcases fitIn_eq_error_of_lt hbound h htried.1 hgt with ⟨k, k', hfail⟩
    exact absurd hfits
      (not_fitsAt_of_fitIn (hl.tidy _) (fun f hf => hl.start_le hf) halign hsize hfail)

/-- A search fails only if no place is vacant. -/
theorem not_vacant_of_searchBanks (hl : l.Accounts done) (hm : Valid l.map m) (hsize : m.size ≠ 0)
    (halign : m.align.toNat ≤ 16) {n : ℕ}
    (h : searchBanks l m (countTried l m) (firstTried l m) 0 = .error n) :
    ¬Vacant l.map done m loc := by
  intro hvacant
  have htried := (tried_iff hm).mpr ⟨hvacant.hasBank, hvacant.bank_eq⟩
  rcases fitIn_eq_error_of_searchBanks (firstTried_add_countTried_le l m) h htried.1 htried.2 with
    ⟨k, k', hfail⟩
  exact not_fitsAt_of_fitIn (hl.tidy _) (fun f hf => hl.start_le hf) halign hsize hfail
    (hvacant.fitsAt hl)

/-- The step: a floating section with addresses goes to the first vacant place, or there is none
and it is refused for that. -/
theorem placeFloating_firstFit (hl : l.Accounts done) (hm : Valid l.map m) (hsize : m.size ≠ 0)
    (halign : m.align.toNat ≤ 16) :
    (∃ loc, (placeFloating l m).map Prod.fst = .ok loc
      ∧ IsLeast {loc | Vacant l.map done m loc} loc)
    ∨ (∃ largest, (placeFloating l m).map Prod.fst = .error (.noSpace m.size largest))
      ∧ ∀ loc, ¬Vacant l.map done m loc := by
  cases hsearch : searchBanks l m (countTried l m) (firstTried l m) 0 with
  | ok placed =>
    rcases placed with ⟨loc, l'⟩
    have hsettled := (settled_of_searchBanks halign hl hm hsearch).2.2
    refine Or.inl ⟨loc, ?_, hsettled.vacant hsize, fun loc' hvacant => ?_⟩
    · rw [placeFloating_eq, hsearch]
      rfl
    · exact le_of_searchBanks hl hm hsize halign hsearch hvacant
  | error n =>
    refine Or.inr ⟨⟨n, ?_⟩, fun loc => not_vacant_of_searchBanks hl hm hsize halign hsearch⟩
    rw [placeFloating_eq, hsearch]
    simp [hsize, Except.map]

/-- **Floating placement is first fit, and complete.** Take a valid floating section with addresses
at its turn in an assignment. If there is a vacant place for it, it goes to the first one by bank
and address; if there is none, it stays without a place and the error is that there is no space. -/
theorem assign_firstFit {sections : List Merged} (h : assign map sections = before ++ o :: after)
    (hvalid : validate map o.subject = .ok ()) (hfloating : isFixed map o.subject = false)
    (hsize : o.subject.size ≠ 0) (halign : o.subject.align.toNat ≤ 16) :
    ((∃ loc, Vacant map before o.subject loc) →
      ∃ loc, o.result = .ok loc ∧ IsLeast {loc | Vacant map before o.subject loc} loc)
    ∧ ((¬∃ loc, Vacant map before o.subject loc) →
      ∃ largest, o.result = .error (.noSpace o.subject.size largest)) := by
  cases turn_of_assign h with
  | rejected invalid => simp [invalid] at hvalid
  | fixed _ _ fixed => simp [fixed] at hfloating
  | floating current valid _ result =>
    have hm := valid_of_validate valid
    rw [← current.map_eq] at hm ⊢
    rw [result]
    rcases placeFloating_firstFit current.accounts hm hsize halign with hplaced | ⟨hrefused, hnone⟩
    · refine ⟨fun _ => hplaced, fun hnone => ?_⟩
      rcases hplaced with ⟨loc, -, hvacant, -⟩
      exact absurd ⟨loc, hvacant⟩ hnone
    · refine ⟨fun hvacant => ?_, fun _ => hrefused⟩
      rcases hvacant with ⟨loc, hvacant⟩
      exact absurd hvacant (hnone loc)

/-- Four bytes at the start of ROM0. -/
def leadingPart : Merged :=
  { id := 0, name := [0x61], kind := .rom0, modifier := .normal, size := 4, orgFixed := true }

/-- A section as large as ROM0. -/
def wholePart : Merged :=
  { id := 1, name := [0x62], kind := .rom0, modifier := .normal, size := 0x4000 }

/-- Sixteen bytes that start three bytes after a multiple of sixteen. -/
def shiftedPart : Merged :=
  { id := 2, name := [0x63], kind := .rom0, modifier := .normal, size := 16, align := 4,
    alignOffset := 3 }

theorem assign_shiftedPart : assign {} [leadingPart, wholePart, shiftedPart]
    = [⟨leadingPart, .ok ⟨0, 0⟩⟩, ⟨wholePart, .error (.noSpace 0x4000 0x3FFC)⟩,
      ⟨shiftedPart, .ok ⟨19, 0⟩⟩] := by
  cbv

/-- After the four bytes no place is left for the large section, and the first one for the shifted
section is at the address 19. -/
theorem assign_firstFit_shiftedPart :
    (¬∃ loc, Vacant {} [⟨leadingPart, .ok ⟨0, 0⟩⟩] wholePart loc)
      ∧ IsLeast {loc | Vacant {} [⟨leadingPart, .ok ⟨0, 0⟩⟩,
        ⟨wholePart, .error (.noSpace 0x4000 0x3FFC)⟩] shiftedPart loc} ⟨19, 0⟩ := by
  have hsecond : assign {} [leadingPart, wholePart, shiftedPart]
      = [⟨leadingPart, .ok ⟨0, 0⟩⟩] ++ ⟨wholePart, .error (.noSpace 0x4000 0x3FFC)⟩
        :: [⟨shiftedPart, .ok ⟨19, 0⟩⟩] := assign_shiftedPart
  have hthird : assign {} [leadingPart, wholePart, shiftedPart]
      = [⟨leadingPart, .ok ⟨0, 0⟩⟩, ⟨wholePart, .error (.noSpace 0x4000 0x3FFC)⟩]
        ++ ⟨shiftedPart, .ok ⟨19, 0⟩⟩ :: [] := assign_shiftedPart
  have hwhole := assign_firstFit hsecond (by cbv) (by decide) (by decide) (by decide)
  have hshifted := assign_firstFit hthird (by cbv) (by decide) (by decide) (by decide)
  constructor
  · intro hvacant
    rcases hwhole.1 hvacant with ⟨loc, hok, -⟩
    cases hok
  · by_cases hvacant : ∃ loc, Vacant {} [⟨leadingPart, .ok ⟨0, 0⟩⟩,
        ⟨wholePart, .error (.noSpace 0x4000 0x3FFC)⟩] shiftedPart loc
    · rcases hshifted.1 hvacant with ⟨loc, hok, hleast⟩
      cases hok
      exact hleast
    · rcases hshifted.2 hvacant with ⟨largest, herror⟩
      cases herror

end Placement

end BankedLinker
