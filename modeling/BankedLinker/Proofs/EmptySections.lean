import BankedLinker.Proofs.Collisions
import BankedLinker.Proofs.FirstFit

/-!
# Sections without addresses

A section of size zero takes no address away from the others: the list without these sections is
placed in the same way. It finds a place of its own however full the banks are, with one exception.
If it asks for an address and has a choice of banks, it is tried like a section of size one: the
address has to be free in one of the banks, and so it is refused behind the last address of its
region, or where all banks are full.

* `Placement.ShutOut` is that exception;
* `Placement.placeFixed_of_empty` and `Placement.placeFloating_empty_iff` are the steps;
* `Placement.Skips` says that empty sections leave the ledger as it is,
  `Placement.filter_placeAll_of_skips` is the run without them;
* `Placement.assign_empty_iff` is the result for all sections.
-/

namespace BankedLinker
namespace Placement

variable {map : MemoryMap} {l l' : Ledger} {m : Merged} {done before : List Outcome} {o : Outcome}
  {placeOne : Ledger → Merged → Except PlacementError (Location × Ledger)}

theorem isEmpty_extent (hsize : m.size = 0) (start : ℕ) : (extent m start).isEmpty = true := by
  simp [Span.isEmpty_iff, extent, hsize]

/-- A section with a choice of banks asks for an address that is free in none of them: it is
behind its region, or all banks use it. -/
structure ShutOut (map : MemoryMap) (done : List Outcome) (m : Merged) : Prop where
  orgFixed_eq : m.orgFixed = true
  floating : isFixed map m = false
  taken : ∀ bank, (map.region m.kind).HasBank bank →
    (map.region m.kind).HasAddress m.org.toNat → Taken done m.kind bank m.org.toNat

/-! ## One section -/

theorem placeFixed_of_empty (hsize : m.size = 0) (l : Ledger) :
    placeFixed l m = .ok (fixedLocation l.map m,
      l.update (fixedKey l.map m) (l.space (fixedKey l.map m))) := by
  rw [placeFixed_eq, BankSpace.reserve_of_isEmpty (isEmpty_extent hsize _)]
  split
  · next x hx =>
    -- nothing overlaps with a section that has no address
    rcases BankSpace.overlapping?_eq_some hx with ⟨-, a, -, ha⟩
    have hempty := Span.isEmpty_iff.mp (isEmpty_extent hsize m.org.toNat)
    simp only [Span.Has] at ha
    omega
  · rfl

/-- An empty section fits wherever it has a candidate. -/
theorem attempt_of_empty (hsize : m.size = 0) (space : BankSpace) (free : Span) :
    attempt space m free = (candidate? m free).map (·, space) := by
  unfold attempt
  cases hcandidate : candidate? m free with
  | none => rfl
  | some start =>
    have hlt := lt_stop_of_candidate? hcandidate
    simp only [Option.bind_some, Option.map_some, hsize, UInt32.toNat_zero,
      BankSpace.reserve_of_isEmpty (isEmpty_extent hsize start)]
    exact if_pos (by omega)

/-- An empty section with a fixed address fits into a bank where this address is free. -/
theorem exists_fitIn_iff (hsize : m.size = 0) (horg : m.orgFixed = true) (space : BankSpace)
    (largest : ℕ) :
    (∃ found, fitIn space m largest space.free = .ok found) ↔ space.IsFree m.org.toNat := by
  have hfirst := toOption_fitIn space m largest space.free
  have hcandidate : ∀ f : Span, attempt space m f = none ↔ ¬f.Has m.org.toNat := by
    intro f
    rw [attempt_of_empty hsize, candidate?_of_fixed horg, Option.map_eq_none_iff]
    simp only [Span.Has]
    split_ifs <;> simp <;> omega
  cases hfit : fitIn space m largest space.free with
  | error n =>
    rw [hfit] at hfirst
    have hnone := List.findSome?_eq_none_iff.mp hfirst.symm
    refine iff_of_false (by simp) fun hfree => ?_
    rcases hfree with ⟨f, hf, hhas⟩
    exact (hcandidate f).mp (hnone f hf) hhas
  | ok found =>
    rw [hfit] at hfirst
    refine iff_of_true ⟨found, rfl⟩ ?_
    rcases List.exists_of_findSome?_eq_some hfirst.symm with ⟨f, hf, hattempt⟩
    refine ⟨f, hf, not_not.mp fun hnot => ?_⟩
    simp [(hcandidate f).mpr hnot] at hattempt

/-- The step: an empty floating section is placed unless it is shut out. -/
theorem placeFloating_empty_iff (hl : l.Accounts done) (hm : Valid l.map m) (hsize : m.size = 0)
    (hfloating : isFixed l.map m = false) :
    (∃ loc, (placeFloating l m).map Prod.fst = .ok loc) ↔ ¬ShutOut l.map done m := by
  have hbound := firstTried_add_countTried_le l m
  rw [placeFloating_eq]
  cases horg : m.orgFixed with
  | false =>
    refine iff_of_true ?_ fun hshut => by simpa [horg] using hshut.orgFixed_eq
    split
    · next placed _ => exact ⟨placed.1, rfl⟩
    · simp [hsize, Except.map]
  | true =>
    have hbank : m.bankFixed = false := by
      simp only [isFixed, horg, Bool.true_and, Bool.or_eq_false_iff] at hfloating
      exact hfloating.1
    cases hsearch : searchBanks l m (countTried l m) (firstTried l m) 0 with
    | ok placed =>
      rcases placed with ⟨loc, l'⟩
      refine iff_of_true ⟨loc, rfl⟩ fun hshut => ?_
      -- the address is free in the bank in which the search ended
      rcases searchBanks_eq_ok hbound hsearch with ⟨hlow, hhigh, n, start, space, hfit, -, -⟩
      have hfree := (exists_fitIn_iff hsize horg _ n).mp ⟨_, hfit⟩
      have haddress := (hl.isFree_iff _ _ _).mp hfree
      exact haddress.2 (hshut.taken _ ((tried_iff hm).mp ⟨hlow, hhigh⟩).1 haddress.1)
    | error n =>
      refine iff_of_false (by simp [Except.map]) (not_not.mpr ⟨horg, hfloating, ?_⟩)
      intro bank hhas haddress
      by_contra huntaken
      have htried := (tried_iff hm).mpr ⟨hhas, by simp [hbank]⟩
      rcases fitIn_eq_error_of_searchBanks hbound hsearch htried.1 htried.2 with ⟨k, k', hfail⟩
      have hfree := (hl.isFree_iff _ _ _).mpr ⟨haddress, huntaken⟩
      rcases (exists_fitIn_iff hsize horg _ k).mpr hfree with ⟨found, hfound⟩
      cases hfail.symm.trans hfound

/-- A valid empty section is placed unless it is shut out. -/
theorem exists_ok_iff_of_empty (h : Turn map before o) (hsize : o.subject.size = 0)
    (hvalid : validate map o.subject = .ok ()) :
    (∃ loc, o.result = .ok loc) ↔ ¬ShutOut map before o.subject := by
  cases h with
  | rejected invalid => simp [invalid] at hvalid
  | fixed _ _ fixed result =>
    refine iff_of_true ?_ fun hshut => ?_
    · rw [result, placeFixed_of_empty hsize]
      exact ⟨_, rfl⟩
    · simp [hshut.floating] at fixed
  | floating current valid floating result =>
    have hm := valid_of_validate valid
    rw [← current.map_eq] at hm floating ⊢
    rw [result]
    exact placeFloating_empty_iff current.accounts hm hsize floating

/-! ## Runs without empty sections -/

/-- Placing an empty section leaves all banks as they are. -/
def Skips (placeOne : Ledger → Merged → Except PlacementError (Location × Ledger)) : Prop :=
  ∀ {l l' : Ledger} {m : Merged} {loc : Location}, m.size = 0 → placeOne l m = .ok (loc, l') →
    ∀ kind, l.AgreeOn kind l'

theorem agreeOn_update_self (l : Ledger) (key : BankKey) (kind : RegionKind) :
    l.AgreeOn kind (l.update key (l.space key)) := by
  refine ⟨rfl, fun bank => ?_⟩
  rw [Ledger.space_update]
  split
  · next hkey => rw [hkey]
  · rfl

theorem skips_placeFixed : Skips placeFixed := by
  intro l l' m loc hsize h kind
  rw [placeFixed_of_empty hsize] at h
  cases h
  exact agreeOn_update_self l _ kind

theorem skips_placeFloating : Skips placeFloating := by
  intro l l' m loc hsize h kind
  rw [placeFloating_eq] at h
  split at h
  · next hsearch =>
    cases h
    rcases searchBanks_eq_ok (firstTried_add_countTried_le l m) hsearch with
      ⟨-, -, n, start, space, hfit, -, rfl⟩
    -- nothing was reserved
    rcases fitIn_eq_ok hfit with ⟨free, -, -, -, hreserve⟩
    rw [BankSpace.reserve_of_isEmpty (isEmpty_extent hsize start)] at hreserve
    rw [← Option.some.inj hreserve]
    exact agreeOn_update_self l _ kind
  · split at h
    · cases h
      exact .refl kind l
    · cases h

/-- The run: empty sections can be left out. -/
theorem filter_placeAll_of_skips (hlocal : Local placeOne) (hskips : Skips placeOne)
    (h : ∀ kind, l.AgreeOn kind l') (ms : List Merged) :
    (placeAll placeOne l ms).1.filter (fun o => o.subject.size ≠ 0)
        = (placeAll placeOne l' (ms.filter fun m => m.size ≠ 0)).1
      ∧ ∀ kind, (placeAll placeOne l ms).2.AgreeOn kind
        (placeAll placeOne l' (ms.filter fun m => m.size ≠ 0)).2 := by
  have hrun := filter_placeAll_of_agree hlocal (fun _ => True) (p := fun m => m.size ≠ 0)
    (fun _ _ => trivial)
    (fun hm hplace kind _ => hskips (by simpa using hm) hplace kind) (fun kind _ => h kind) ms
  exact ⟨hrun.1, fun kind => hrun.2 kind trivial⟩

/-! ## All sections -/

/-- **Sections without addresses, exactly.** At its turn a valid section of size zero is placed
unless it is shut out, which only a fixed address with a choice of banks can do. And without the
sections of size zero every other section has the outcome that it has among them, with the same
address and bank or the same error. -/
theorem assign_empty_iff (map : MemoryMap) (sections : List Merged) :
    (∀ before o after, assign map sections = before ++ o :: after → o.subject.size = 0 →
      validate map o.subject = .ok () →
      ((∃ loc, o.result = .ok loc) ↔ ¬ShutOut map before o.subject))
    ∧ (assign map sections).filter (fun o => o.subject.size ≠ 0)
      = assign map (sections.filter fun m => m.size ≠ 0) := by
  refine ⟨fun before o after h hsize hvalid =>
    exists_ok_iff_of_empty (turn_of_assign h) hsize hvalid, ?_⟩
  rcases filter_placeAll_of_skips local_placeFixed skips_placeFixed (fun kind => .refl kind { map })
    (fixedInOrder map sections) with ⟨hfixed, hagree⟩
  have hfloating := (filter_placeAll_of_skips local_placeFloating skips_placeFloating hagree
    (floatingInOrder map sections)).1
  rw [filter_fixedInOrder] at hfixed hfloating
  rw [filter_floatingInOrder] at hfloating
  rw [assign_eq_stages, assign_eq_stages, List.filter_append, List.filter_append, hfixed,
    hfloating, filter_rejections fun m => m.size ≠ 0]

/-- A section of VRAM. -/
def vramPart (id : ℕ) (org : Option UInt16) (bank : Option UInt32) (size : UInt32) : Merged :=
  { id, name := [0x61 + id.toUInt8], kind := .vram, modifier := .normal, size,
    orgFixed := org.isSome, org := org.getD 0, bankFixed := bank.isSome, bank := bank.getD 0 }

/-- Two sections that fill both banks of VRAM, and three empty ones: with the first address, with
neither address nor bank, and with both. -/
def fullVram : List Merged :=
  [vramPart 0 (some 0x8000) (some 0) 0x2000, vramPart 1 (some 0x8000) (some 1) 0x2000,
    vramPart 2 (some 0x8000) none 0, vramPart 3 none none 0, vramPart 4 (some 0x8000) (some 0) 0]

/-- The outcomes that stand in front of the section that is shut out. -/
def fixedVram : List Outcome :=
  [⟨vramPart 0 (some 0x8000) (some 0) 0x2000, .ok ⟨0x8000, 0⟩⟩,
    ⟨vramPart 1 (some 0x8000) (some 1) 0x2000, .ok ⟨0x8000, 1⟩⟩,
    ⟨vramPart 4 (some 0x8000) (some 0) 0, .ok ⟨0x8000, 0⟩⟩]

theorem assign_fullVram : assign {} fullVram
    = fixedVram ++ ⟨vramPart 2 (some 0x8000) none 0, .error (.noSpace 0 0)⟩
      :: [⟨vramPart 3 none none 0, .ok ⟨0x8000, 0⟩⟩] := by
  cbv

/-- The empty section with an address only is shut out of the full banks, and the other two are
not. The sections that fill the banks do not notice. -/
theorem assign_empty_iff_fullVram : ShutOut {} fixedVram (vramPart 2 (some 0x8000) none 0)
    ∧ ¬ShutOut {} (fixedVram ++ [⟨vramPart 2 (some 0x8000) none 0, .error (.noSpace 0 0)⟩])
      (vramPart 3 none none 0)
    ∧ (assign {} [vramPart 0 (some 0x8000) (some 0) 0x2000,
      vramPart 1 (some 0x8000) (some 1) 0x2000]).map Outcome.result
      = [.ok ⟨0x8000, 0⟩, .ok ⟨0x8000, 1⟩] := by
  rcases assign_empty_iff {} fullVram with ⟨hempty, hothers⟩
  refine ⟨?_, ?_, ?_⟩
  · by_contra hnot
    rcases (hempty _ _ _ assign_fullVram rfl (by cbv)).mpr hnot with ⟨loc, hok⟩
    cases hok
  · refine (hempty _ ⟨vramPart 3 none none 0, .ok ⟨0x8000, 0⟩⟩ [] ?_ rfl (by cbv)).mp ⟨_, rfl⟩
    simpa using assign_fullVram
  · have hfull : fullVram.filter (fun m => m.size ≠ 0)
        = [vramPart 0 (some 0x8000) (some 0) 0x2000, vramPart 1 (some 0x8000) (some 1) 0x2000] :=
      rfl
    rw [← hfull, ← hothers, assign_fullVram]
    rfl

/-- Not every valid section of size zero is placed: the one with an address only is not. -/
theorem not_forall_empty_placed :
    ¬∀ (map : MemoryMap) (sections : List Merged), (sections.map Merged.name).Nodup →
      (sections.map Merged.id).Nodup → (∀ m ∈ sections, m.align.toNat ≤ 16) →
      ∀ o ∈ assign map sections, o.subject.size = 0 → validate map o.subject = .ok () →
        ∃ loc, o.result = .ok loc := by
  intro h
  have hplaced := h {} fullVram (by decide) (by decide) (by decide)
    ⟨vramPart 2 (some 0x8000) none 0, .error (.noSpace 0 0)⟩ (by simp [assign_fullVram]) rfl
    (by cbv)
  rcases hplaced with ⟨loc, hok⟩
  cases hok

end Placement

end BankedLinker
