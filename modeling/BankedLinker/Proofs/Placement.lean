import BankedLinker.Placement.Assign
import BankedLinker.Proofs.Alignment
import BankedLinker.Proofs.FreeSpace
import BankedLinker.Proofs.Region
import Mathlib.Data.List.Pairwise

/-!
# Placing sections one after the other

Every section that is placed gets addresses of its region that no section before it uses. The
argument follows the run: the ledger always accounts for the outcomes so far, and a section that is
placed takes its addresses out of the free ones.

* `Placement.Taken` are the addresses that outcomes use;
* `Ledger.Accounts`: what is free in the ledger is what the outcomes so far have not taken;
* `Placement.Settled` is what one step guarantees of the location that it finds;
* `Placement.settled_of_placeFixed` and `Placement.settled_of_placeFloating` are the steps,
  `Placement.placeAll_settled` the run and `Placement.assign_settled` the result;
* `Placement.AllSettled.pairwise_apartFrom`: settled places in one bank do not overlap.
-/

namespace BankedLinker

open BankedLinker.Alignment (Suits)

namespace Placement

/-! ## Outcomes -/

/-- The outcome uses an address of a bank. -/
def Outcome.Uses (o : Outcome) (kind : RegionKind) (bank : UInt32) (a : ℕ) : Prop :=
  ∃ loc, o.result = .ok loc ∧ o.subject.kind = kind ∧ loc.bank = bank
    ∧ (extent o.subject loc.org.toNat).Has a

/-- One of the outcomes uses an address of a bank. -/
def Taken (done : List Outcome) (kind : RegionKind) (bank : UInt32) (a : ℕ) : Prop :=
  ∃ o ∈ done, o.Uses kind bank a

theorem taken_append {done more : List Outcome} {kind : RegionKind} {bank : UInt32} {a : ℕ} :
    Taken (done ++ more) kind bank a ↔ Taken done kind bank a ∨ Taken more kind bank a := by
  unfold Taken
  simp only [List.mem_append, or_and_right, exists_or]

theorem taken_singleton {o : Outcome} {kind : RegionKind} {bank : UInt32} {a : ℕ} :
    Taken [o] kind bank a ↔ o.Uses kind bank a := by
  unfold Taken
  simp only [List.mem_singleton, exists_eq_left]

theorem not_uses_error {m : Merged} {e : PlacementError} {kind : RegionKind} {bank : UInt32}
    {a : ℕ} : ¬Outcome.Uses ⟨m, .error e⟩ kind bank a := by
  rintro ⟨loc, h, -⟩
  cases h

theorem uses_ok_iff {m : Merged} {loc : Location} {kind : RegionKind} {bank : UInt32} {a : ℕ} :
    Outcome.Uses ⟨m, .ok loc⟩ kind bank a
      ↔ m.kind = kind ∧ loc.bank = bank ∧ (extent m loc.org.toNat).Has a := by
  unfold Outcome.Uses
  constructor
  · rintro ⟨loc', h, hkind, hbank, ha⟩
    obtain rfl : loc = loc' := by simpa using h
    exact ⟨hkind, hbank, ha⟩
  · rintro ⟨hkind, hbank, ha⟩
    exact ⟨loc, rfl, hkind, hbank, ha⟩

/-! ## Checks -/

/-- What a section asks for is possible in its region. -/
structure Valid (map : MemoryMap) (m : Merged) : Prop where
  bankCount_pos : 0 < (map.region m.kind).bankCount.toNat
  hasBank : m.bankFixed = true → (map.region m.kind).HasBank m.bank
  size_le : m.size.toNat ≤ (map.region m.kind).size.toNat
  start_le : m.orgFixed = true → (map.region m.kind).start.toNat ≤ m.org.toNat
  stop_le : m.orgFixed = true → m.org.toNat + m.size.toNat
    ≤ (map.region m.kind).start.toNat + (map.region m.kind).size.toNat
  suits : m.orgFixed = true → Suits m.align m.alignOffset m.org.toNat

theorem valid_of_validate {map : MemoryMap} {m : Merged} (h : validate map m = .ok ()) :
    Valid map m := by
  unfold validate at h
  dsimp only at h
  -- the five checks in their order, each of which has passed
  split at h
  · cases h
  next hcount =>
  split at h
  · cases h
  next hbank =>
  split at h
  · cases h
  next hsize =>
  split at h
  · cases h
  next hrange =>
  split at h
  · cases h
  next hholds =>
  have hsize' : m.size ≤ (map.region m.kind).size := UInt32.not_lt.mp hsize
  have hrange' : m.orgFixed = true → (map.region m.kind).containsRange m.org m.size = true := by
    intro hfixed
    by_contra hne
    exact hrange ⟨hfixed, by simpa using hne⟩
  constructor
  · rw [Nat.pos_iff_ne_zero]
    exact fun hzero => hcount (UInt32.toNat_inj.mp hzero)
  · intro hfixed
    rw [← MemoryMap.containsBank_iff]
    by_contra hne
    exact hbank ⟨hfixed, by simpa using hne⟩
  · exact UInt32.le_iff_toNat_le.mp hsize'
  · intro hfixed
    exact ((map.containsRange_iff m.kind hsize').mp (hrange' hfixed)).1
  · intro hfixed
    exact ((map.containsRange_iff m.kind hsize').mp (hrange' hfixed)).2
  · intro hfixed
    rw [← UInt16.toNat_toUInt32]
    refine Alignment.suits_of_holds ?_
    by_contra hne
    exact hholds ⟨hfixed, by simpa using hne⟩

/-! ## What a location guarantees -/

/-- A section without addresses for which no suitable address is left in the banks that it may
go to, while the start of its region does not suit it. -/
structure Stranded (map : MemoryMap) (done : List Outcome) (m : Merged) : Prop where
  size_eq : m.size = 0
  orgFixed_eq : m.orgFixed = false
  not_suits : ¬Suits m.align m.alignOffset (map.region m.kind).start.toNat
  taken : ∀ bank, (map.region m.kind).HasBank bank → (m.bankFixed = true → bank = m.bank) →
    ∀ a, (map.region m.kind).HasAddress a → Suits m.align m.alignOffset a →
      Taken done m.kind bank a

/-- A location for a section after the outcomes `done`. -/
structure Settled (map : MemoryMap) (done : List Outcome) (m : Merged) (loc : Location) :
    Prop where
  hasBank : (map.region m.kind).HasBank loc.bank
  start_le : (map.region m.kind).start.toNat ≤ loc.org.toNat
  stop_le : loc.org.toNat + m.size.toNat
    ≤ (map.region m.kind).start.toNat + (map.region m.kind).size.toNat
  org_eq : m.orgFixed = true → loc.org = m.org
  bank_eq : m.bankFixed = true → loc.bank = m.bank
  untaken : ∀ a, (extent m loc.org.toNat).Has a → ¬Taken done m.kind loc.bank a
  suits_iff : Suits m.align m.alignOffset loc.org.toNat ↔ ¬Stranded map done m

theorem not_stranded_of_orgFixed {map : MemoryMap} {done : List Outcome} {m : Merged}
    (h : m.orgFixed = true) : ¬Stranded map done m := by
  rintro ⟨-, hfloat, -⟩
  rw [h] at hfloat
  cases hfloat

/-- A section that is placed after another does not share an address with it. -/
theorem Settled.apart {map : MemoryMap} {done : List Outcome} {m n : Merged} {loc loc' : Location}
    (h : Settled map done n loc') (hm : ⟨m, .ok loc⟩ ∈ done) (hkind : m.kind = n.kind)
    (hbank : loc.bank = loc'.bank) (hsize : m.size.toNat ≠ 0) (hsize' : n.size.toNat ≠ 0) :
    loc.org.toNat + m.size.toNat ≤ loc'.org.toNat
      ∨ loc'.org.toNat + n.size.toNat ≤ loc.org.toNat := by
  by_contra hmeet
  rw [not_or] at hmeet
  -- the higher of the two starts belongs to both
  have hshared : (extent n loc'.org.toNat).Has (max loc.org.toNat loc'.org.toNat)
      ∧ (extent m loc.org.toNat).Has (max loc.org.toNat loc'.org.toNat) := by
    simp only [Span.Has, extent]
    omega
  exact h.untaken _ hshared.1 ⟨_, hm, uses_ok_iff.mpr ⟨hkind, hbank, hshared.2⟩⟩

end Placement

open Placement

/-! ## The ledger along a run -/

/-- The ledger accounts for the outcomes so far: an address is free if it belongs to the region
and none of them has taken it. -/
structure Ledger.Accounts (l : Ledger) (done : List Outcome) : Prop where
  tidy : ∀ key, BankSpace.Tidy (l.space key).free
  inside : ∀ key, ∀ f ∈ (l.space key).free, f.stop ≤ 2 ^ 16
  isFree_iff : ∀ kind bank a, (l.space ⟨kind, bank⟩).IsFree a
    ↔ (l.map.region kind).HasAddress a ∧ ¬Taken done kind bank a

namespace Ledger

theorem accounts_empty (map : MemoryMap) : ({ map } : Ledger).Accounts [] where
  tidy key := by
    rw [space_empty]
    refine BankSpace.tidy_fresh _ ?_
    rw [map.toNat_stop]
    omega
  inside key f hf := by
    rw [space_empty] at hf
    obtain rfl := List.mem_singleton.mp hf
    have := map.region_bounds key.kind
    have := map.toNat_stop key.kind
    dsimp only
    omega
  isFree_iff kind bank a := by
    rw [space_empty, BankSpace.isFree_fresh, map.toNat_stop]
    simp [Taken, Region.HasAddress]

theorem Accounts.start_le {l : Ledger} {done : List Outcome} (hl : l.Accounts done)
    {key : BankKey} {free : Span} (h : free ∈ (l.space key).free) : free.start ≤ 2 ^ 16 :=
  ((hl.tidy key).start_le_stop free h).trans (hl.inside key free h)

/-- An outcome that uses no address changes nothing. -/
theorem Accounts.append_of_not_uses {l : Ledger} {done : List Outcome} (h : l.Accounts done)
    {o : Outcome} (ho : ∀ kind bank a, ¬o.Uses kind bank a) : l.Accounts (done ++ [o]) where
  tidy := h.tidy
  inside := h.inside
  isFree_iff kind bank a := by
    rw [h.isFree_iff, taken_append, taken_singleton]
    simp [ho kind bank a]

/-- Reserving the addresses of a section accounts for its outcome. -/
theorem Accounts.update {l : Ledger} {done : List Outcome} (h : l.Accounts done) (m : Merged)
    (loc : Location) {b : BankSpace}
    (hb : (l.space ⟨m.kind, loc.bank⟩).reserve (extent m loc.org.toNat) m = some b) :
    (l.update ⟨m.kind, loc.bank⟩ b).Accounts (done ++ [⟨m, .ok loc⟩]) := by
  obtain ⟨htidy, hfree, -⟩ := BankSpace.reserve_eq_some hb (h.tidy _)
  constructor
  · intro key
    rw [space_update]
    split_ifs
    · exact htidy
    · exact h.tidy key
  · intro key f hf
    rw [space_update] at hf
    split_ifs at hf
    · obtain ⟨g, hg, -, hle⟩ := BankSpace.mem_free_of_reserve hb hf
      exact hle.trans (h.inside _ g hg)
    · exact h.inside key f hf
  · intro kind bank a
    rw [space_update, taken_append, taken_singleton, uses_ok_iff, map_update]
    split_ifs with hkey
    · obtain ⟨rfl, rfl⟩ := BankKey.mk.inj hkey
      rw [hfree, h.isFree_iff]
      tauto
    · -- the section uses nothing of another bank
      have hne : ¬(m.kind = kind ∧ loc.bank = bank ∧ (extent m loc.org.toNat).Has a) := by
        rintro ⟨rfl, rfl, -⟩
        exact hkey rfl
      rw [h.isFree_iff]
      tauto

/-- The addresses of a section that could be reserved were not taken before. -/
theorem Accounts.not_taken_of_reserve {l : Ledger} {done : List Outcome} (h : l.Accounts done)
    {m : Merged} {bank : UInt32} {s : Span} {b : BankSpace}
    (hb : (l.space ⟨m.kind, bank⟩).reserve s m = some b) :
    ∀ a, s.Has a → ¬Taken done m.kind bank a := by
  intro a ha
  obtain ⟨-, -, hfree⟩ := BankSpace.reserve_eq_some hb (h.tidy _)
  exact ((h.isFree_iff _ _ _).mp (hfree a ha)).2

end Ledger

namespace Placement

/-! ## Fixed sections -/

theorem settled_of_placeFixed {l l' : Ledger} {m : Merged} {loc : Location}
    {done : List Outcome} (hl : l.Accounts done) (hm : Valid l.map m) (hfixed : isFixed l.map m)
    (h : placeFixed l m = .ok (loc, l')) :
    l'.Accounts (done ++ [⟨m, .ok loc⟩]) ∧ l'.map = l.map ∧ Settled l.map done m loc := by
  have horg : m.orgFixed = true := by
    simp only [isFixed, Bool.and_eq_true] at hfixed
    exact hfixed.1
  unfold placeFixed at h
  dsimp only at h
  -- no other section overlaps, and the addresses are free
  split at h
  · cases h
  split at h
  · cases h
  next space hspace =>
  cases h
  have hbank : (l.map.region m.kind).HasBank
      (if m.bankFixed = true then m.bank else (l.map.region m.kind).firstBank) := by
    split_ifs with hb
    · exact hm.hasBank hb
    · have hpos := hm.bankCount_pos
      exact ⟨le_rfl, by omega⟩
  exact ⟨hl.update m ⟨m.org, _⟩ hspace, rfl, hbank, hm.start_le horg, hm.stop_le horg,
    fun _ => rfl, fun hb => if_pos hb, hl.not_taken_of_reserve hspace,
    iff_of_true (hm.suits horg) (not_stranded_of_orgFixed horg)⟩

/-! ## Floating sections -/

theorem candidate?_of_fixed {m : Merged} {free : Span} (h : m.orgFixed = true) :
    candidate? m free = if m.org.toNat < free.start ∨ free.stop ≤ m.org.toNat then none
      else some m.org.toNat := by
  simp [candidate?, h]

theorem candidate?_of_floating {m : Merged} {free : Span} (h : m.orgFixed = false) :
    candidate? m free
      = if free.stop ≤ (Alignment.roundUp free.start.toUInt32 m.align m.alignOffset).toNat then none
        else some (Alignment.roundUp free.start.toUInt32 m.align m.alignOffset).toNat := by
  simp [candidate?, h]

section Candidates

variable {m : Merged} {free : Span} {start : ℕ}

theorem toNat_toUInt32_start (h : free.start ≤ 2 ^ 16) :
    free.start.toUInt32.toNat = free.start := by
  rw [UInt32.toNat_ofNat']
  omega

/-- A candidate lies in the free span and is an address that the section asks for. -/
theorem candidate?_eq_some (halign : m.align.toNat ≤ 16) (hfree : free.start ≤ 2 ^ 16)
    (h : candidate? m free = some start) :
    free.start ≤ start ∧ start < free.stop ∧ (m.orgFixed = true → start = m.org.toNat)
      ∧ (m.orgFixed = false → Suits m.align m.alignOffset start) := by
  cases horg : m.orgFixed with
  | true =>
    rw [candidate?_of_fixed horg] at h
    split_ifs at h with hout
    obtain rfl := Option.some.inj h
    exact ⟨by omega, by omega, fun _ => rfl, nofun⟩
  | false =>
    rw [candidate?_of_floating horg] at h
    split_ifs at h with hout
    obtain rfl := Option.some.inj h
    have hword := toNat_toUInt32_start hfree
    have hle := Alignment.le_roundUp m.alignOffset halign (hword.trans_le hfree)
    rw [hword] at hle
    exact ⟨hle, by omega, nofun,
      fun _ => Alignment.suits_roundUp m.alignOffset halign (hword.trans_le hfree)⟩

/-- A free span without a candidate has no suitable address. -/
theorem not_suits_of_candidate?_eq_none (halign : m.align.toNat ≤ 16)
    (hfree : free.start ≤ 2 ^ 16) (horg : m.orgFixed = false) (h : candidate? m free = none)
    {a : ℕ} (ha : free.Has a) : ¬Suits m.align m.alignOffset a := by
  intro hsuits
  have hword := toNat_toUInt32_start hfree
  have hle := Alignment.roundUp_le m.alignOffset halign (hword.trans_le hfree)
    (hword.trans_le ha.1) hsuits
  rw [candidate?_of_floating horg] at h
  split_ifs at h with hout
  exact absurd ha.2 (by omega)

end Candidates

/-- A section that fits goes to a candidate of one of the spans and reserves its addresses. -/
theorem fitIn_eq_ok {space space' : BankSpace} {m : Merged} {largest start : ℕ}
    {frees : List Span} (h : fitIn space m largest frees = .ok (start, space')) :
    ∃ free ∈ frees, candidate? m free = some start ∧ start + m.size.toNat ≤ free.stop
      ∧ space.reserve (extent m start) m = some space' := by
  induction frees generalizing largest with
  | nil => cases h
  | cons free rest ih =>
    unfold fitIn at h
    split at h
    · obtain ⟨f, hf, hfit⟩ := ih h
      exact ⟨f, List.mem_cons_of_mem _ hf, hfit⟩
    · next start' hstart' =>
      dsimp only at h
      split at h
      · next space'' hspace'' =>
        cases h
        split_ifs at hspace'' with hle
        exact ⟨free, List.mem_cons_self .., hstart', hle, hspace''⟩
      · obtain ⟨f, hf, hfit⟩ := ih h
        exact ⟨f, List.mem_cons_of_mem _ hf, hfit⟩

/-- A section without addresses fits wherever there is a candidate. -/
theorem candidate?_eq_none_of_fitIn {space : BankSpace} {m : Merged} {largest n : ℕ}
    {frees : List Span} (hsize : m.size = 0) (halign : m.align.toNat ≤ 16)
    (hfrees : ∀ free ∈ frees, free.start ≤ 2 ^ 16) (h : fitIn space m largest frees = .error n) :
    ∀ free ∈ frees, candidate? m free = none := by
  induction frees generalizing largest with
  | nil => simp
  | cons free rest ih =>
    have hrest := fun f hf => hfrees f (List.mem_cons_of_mem _ hf)
    unfold fitIn at h
    split at h
    · next hnone =>
      intro f hf
      rcases List.mem_cons.mp hf with rfl | hf
      · exact hnone
      · exact ih hrest h f hf
    · next start hstart =>
      obtain ⟨-, hlt, -⟩ := candidate?_eq_some halign (hfrees free (List.mem_cons_self ..)) hstart
      have hempty : (extent m start).isEmpty = true := by
        rw [Span.isEmpty_iff]
        simp [extent, hsize]
      have hle : start + m.size.toNat ≤ free.stop := by
        simp only [hsize, UInt32.toNat_zero]
        omega
      simp [hle, BankSpace.reserve_of_isEmpty hempty] at h

theorem toNat_nextBank {bank : UInt32} {count : ℕ} (hbound : bank.toNat + (count + 1) ≤ 2 ^ 32)
    (hcount : count ≠ 0) : (bank + 1).toNat = bank.toNat + 1 := by
  rw [UInt32.toNat_add, UInt32.toNat_one]
  omega

/-- A search that succeeds ends in one of the banks that it tries. -/
theorem searchBanks_eq_ok {l l' : Ledger} {m : Merged} {count largest : ℕ} {bank : UInt32}
    {loc : Location} (hbound : bank.toNat + count ≤ 2 ^ 32)
    (h : searchBanks l m count bank largest = .ok (loc, l')) :
    bank.toNat ≤ loc.bank.toNat ∧ loc.bank.toNat < bank.toNat + count
      ∧ ∃ n start space, fitIn (l.space ⟨m.kind, loc.bank⟩) m n (l.space ⟨m.kind, loc.bank⟩).free
          = .ok (start, space)
        ∧ loc.org = start.toUInt16 ∧ l' = l.update ⟨m.kind, loc.bank⟩ space := by
  induction count generalizing bank largest with
  | zero => cases h
  | succ count ih =>
    unfold searchBanks at h
    dsimp only at h
    split at h
    · next start space hfit =>
      cases h
      exact ⟨le_rfl, by dsimp only; omega, largest, start, space, hfit, rfl, rfl⟩
    · next n hfail =>
      by_cases hzero : count = 0
      · subst hzero
        cases h
      · have hnext := toNat_nextBank hbound hzero
        obtain ⟨hlow, hhigh, hrest⟩ := ih (by omega) h
        exact ⟨by omega, by omega, hrest⟩

/-- A search that fails fails in every bank that it tries. -/
theorem fitIn_eq_error_of_searchBanks {l : Ledger} {m : Merged} {count largest n : ℕ}
    {bank : UInt32} (hbound : bank.toNat + count ≤ 2 ^ 32)
    (h : searchBanks l m count bank largest = .error n) {tried : UInt32}
    (hlow : bank.toNat ≤ tried.toNat) (hhigh : tried.toNat < bank.toNat + count) :
    ∃ k k', fitIn (l.space ⟨m.kind, tried⟩) m k (l.space ⟨m.kind, tried⟩).free = .error k' := by
  induction count generalizing bank largest with
  | zero => omega
  | succ count ih =>
    unfold searchBanks at h
    dsimp only at h
    split at h
    · cases h
    · next k hfail =>
      by_cases htried : tried = bank
      · exact ⟨largest, k, htried ▸ hfail⟩
      · have hne : tried.toNat ≠ bank.toNat := fun heq => htried (UInt32.toNat_inj.mp heq)
        have hnext := toNat_nextBank hbound (by omega)
        exact ih (by omega) h (by omega) (by omega)

section Floating

variable {l l' : Ledger} {m : Merged} {loc : Location} {done : List Outcome}

/-- The banks from `firstTried l m` on that a floating section is tried in. -/
def firstTried (l : Ledger) (m : Merged) : UInt32 :=
  if m.bankFixed then m.bank else (l.map.region m.kind).firstBank

def countTried (l : Ledger) (m : Merged) : ℕ :=
  if m.bankFixed then 1 else (l.map.region m.kind).bankCount.toNat

theorem firstTried_add_countTried_le (l : Ledger) (m : Merged) :
    (firstTried l m).toNat + countTried l m ≤ 2 ^ 32 := by
  have hbounds := l.map.region_bounds m.kind
  have hbank := m.bank.toNat_lt
  unfold firstTried countTried
  split_ifs <;> omega

/-- The banks that are tried are those that the section may go to. -/
theorem tried_iff (hm : Valid l.map m) {bank : UInt32} :
    (firstTried l m).toNat ≤ bank.toNat
        ∧ bank.toNat < (firstTried l m).toNat + countTried l m
      ↔ (l.map.region m.kind).HasBank bank ∧ (m.bankFixed = true → bank = m.bank) := by
  unfold firstTried countTried
  cases hfixed : m.bankFixed with
  | true =>
    have hbank := hm.hasBank hfixed
    simp only [if_true, forall_const]
    constructor
    · rintro ⟨hlow, hhigh⟩
      obtain rfl : bank = m.bank := UInt32.toNat_inj.mp (by omega)
      exact ⟨hbank, rfl⟩
    · rintro ⟨-, rfl⟩
      omega
  | false => simp [Region.HasBank]

/-- A section that finds room is settled there. -/
theorem settled_of_searchBanks (halign : m.align.toNat ≤ 16) (hl : l.Accounts done)
    (hm : Valid l.map m)
    (h : searchBanks l m (countTried l m) (firstTried l m) 0 = .ok (loc, l')) :
    l'.Accounts (done ++ [⟨m, .ok loc⟩]) ∧ l'.map = l.map ∧ Settled l.map done m loc := by
  have hbounds := l.map.region_bounds m.kind
  obtain ⟨hlow, hhigh, n, start, space, hfit, horg, rfl⟩ :=
    searchBanks_eq_ok (firstTried_add_countTried_le l m) h
  obtain ⟨hbank, hfixedBank⟩ := (tried_iff hm).mp ⟨hlow, hhigh⟩
  obtain ⟨free, hfree, hcandidate, hroom, hreserve⟩ := fitIn_eq_ok hfit
  obtain ⟨hfrom, hto, hfixedOrg, hsuits⟩ :=
    candidate?_eq_some halign (hl.start_le hfree) hcandidate
  have hstop := hl.inside _ free hfree
  have hstart : loc.org.toNat = start := by
    rw [horg, UInt16.toNat_ofNat']
    omega
  rw [← hstart] at hreserve hfrom hto hroom hfixedOrg hsuits
  -- the free span lies in the region
  have hinside : ∀ a, free.Has a → (l.map.region m.kind).HasAddress a := fun a ha =>
    ((hl.isFree_iff m.kind loc.bank a).mp ⟨free, hfree, ha⟩).1
  have hfirst := hinside loc.org.toNat ⟨hfrom, hto⟩
  have hlast := hinside (free.stop - 1) ⟨by omega, by omega⟩
  refine ⟨hl.update m loc hreserve, rfl, hbank, hfirst.1, ?_, ?_, hfixedBank,
    hl.not_taken_of_reserve hreserve, ?_⟩
  · unfold Region.HasAddress at hlast
    omega
  · intro hf
    exact UInt16.toNat_inj.mp (hfixedOrg hf)
  · cases hf : m.orgFixed with
    | true =>
      rw [hfixedOrg hf]
      exact iff_of_true (hm.suits hf) (not_stranded_of_orgFixed hf)
    | false =>
      -- the place that was found is a suitable address that nobody had taken
      refine iff_of_true (hsuits hf) ?_
      intro hstranded
      have htaken := hstranded.taken loc.bank hbank hfixedBank _ hfirst (hsuits hf)
      exact ((hl.isFree_iff _ _ _).mp ⟨free, hfree, hfrom, hto⟩).2 htaken

/-- If the search fails for a section without addresses, every suitable address is taken. -/
theorem taken_of_searchBanks (halign : m.align.toNat ≤ 16) (hl : l.Accounts done)
    (hm : Valid l.map m) {n : ℕ} (hsize : m.size = 0) (hfloat : m.orgFixed = false)
    (h : searchBanks l m (countTried l m) (firstTried l m) 0 = .error n) :
    ∀ bank, (l.map.region m.kind).HasBank bank → (m.bankFixed = true → bank = m.bank) →
      ∀ a, (l.map.region m.kind).HasAddress a → Suits m.align m.alignOffset a →
        Taken done m.kind bank a := by
  intro bank hbank hfixed a ha hsuits
  by_contra hfree
  -- a free span with the address would have had a candidate
  obtain ⟨free, hmem, hhas⟩ := (hl.isFree_iff m.kind bank a).mpr ⟨ha, hfree⟩
  obtain ⟨hlow, hhigh⟩ := (tried_iff hm).mpr ⟨hbank, hfixed⟩
  obtain ⟨k, k', hfail⟩ :=
    fitIn_eq_error_of_searchBanks (firstTried_add_countTried_le l m) h hlow hhigh
  have hnone := candidate?_eq_none_of_fitIn hsize halign
    (fun f hf => hl.start_le hf) hfail free hmem
  exact not_suits_of_candidate?_eq_none halign (hl.start_le hmem) hfloat hnone
    hhas hsuits

theorem settled_of_placeFloating (halign : m.align.toNat ≤ 16) (hl : l.Accounts done)
    (hm : Valid l.map m) (h : placeFloating l m = .ok (loc, l')) :
    l'.Accounts (done ++ [⟨m, .ok loc⟩]) ∧ l'.map = l.map ∧ Settled l.map done m loc := by
  unfold placeFloating at h
  dsimp only at h
  split at h
  · next placed hsearch =>
    cases h
    exact settled_of_searchBanks halign hl hm hsearch
  next n hsearch =>
  split at h
  · next hzero =>
    -- a section without addresses goes to the start of the region, and nothing is reserved
    cases h
    obtain ⟨hsize, hfloat⟩ := hzero
    have hfloat' : m.orgFixed = false := by simpa using hfloat
    have htaken := taken_of_searchBanks halign hl hm hsize hfloat' hsearch
    have hpos : 0 < countTried l m := by
      have := hm.bankCount_pos
      unfold countTried
      split_ifs <;> omega
    obtain ⟨hbank, hfixedBank⟩ := (tried_iff hm).mp ⟨le_rfl, Nat.lt_add_of_pos_right hpos⟩
    have hno : ∀ a, ¬(extent m (l.map.region m.kind).start.toNat).Has a := by
      intro a ha
      simp only [Span.Has, extent, hsize, UInt32.toNat_zero] at ha
      omega
    refine ⟨hl.append_of_not_uses ?_, rfl, hbank, le_rfl, by simp [hsize], ?_, hfixedBank,
      fun a ha => absurd ha (hno a), ?_⟩
    · intro kind bank a huses
      exact hno a (uses_ok_iff.mp huses).2.2
    · intro hf
      rw [hfloat'] at hf
      cases hf
    · refine ⟨fun hsuits hstranded => hstranded.not_suits hsuits, fun hnot => ?_⟩
      by_contra hsuits
      exact hnot ⟨hsize, hfloat', hsuits, htaken⟩
  · cases h

end Floating

/-! ## Runs -/

/-- Every location of a list of outcomes is settled after those before it. -/
def AllSettled (map : MemoryMap) : (done outcomes : List Outcome) → Prop
  | _, [] => True
  | done, o :: rest =>
    (∀ loc, o.result = .ok loc → Settled map done o.subject loc) ∧ AllSettled map (done ++ [o]) rest

theorem allSettled_append {map : MemoryMap} {done first second : List Outcome} :
    AllSettled map done (first ++ second)
      ↔ AllSettled map done first ∧ AllSettled map (done ++ first) second := by
  induction first generalizing done with
  | nil => simp [AllSettled]
  | cons o rest ih =>
    simp only [List.cons_append, AllSettled, ih, List.append_assoc, List.nil_append, and_assoc]

/-- A location is settled after the outcomes in front of it. -/
theorem AllSettled.settled {map : MemoryMap} {before after : List Outcome} {m : Merged}
    {loc : Location} (h : AllSettled map [] (before ++ ⟨m, .ok loc⟩ :: after)) :
    Settled map before m loc :=
  (allSettled_append.mp h).2.1 loc rfl

/-- If both outcomes found a place in one bank, the two places do not overlap. -/
def Outcome.ApartFrom (o p : Outcome) : Prop :=
  ∀ loc loc', o.result = .ok loc → p.result = .ok loc' → o.subject.kind = p.subject.kind →
    loc.bank = loc'.bank → o.subject.size ≠ 0 → p.subject.size ≠ 0 →
    loc.org.toNat + o.subject.size.toNat ≤ loc'.org.toNat
      ∨ loc'.org.toNat + p.subject.size.toNat ≤ loc.org.toNat

instance : Std.Symm Outcome.ApartFrom where
  symm _ _ h loc loc' hp ho hkind hbank hpsize hosize :=
    (h loc' loc ho hp hkind.symm hbank.symm hosize hpsize).symm

/-- Of two places that were found the later one keeps clear of the earlier one. -/
theorem AllSettled.pairwise_apartFrom {map : MemoryMap} {done outcomes : List Outcome}
    (h : AllSettled map done outcomes) : outcomes.Pairwise Outcome.ApartFrom := by
  induction outcomes generalizing done with
  | nil => exact List.Pairwise.nil
  | cons o rest ih =>
    refine List.Pairwise.cons (fun p hp loc loc' ho hok hkind hbank hsize hsize' => ?_) (ih h.2)
    obtain ⟨before, after, rfl⟩ := List.append_of_mem hp
    have hsettled := (allSettled_append.mp h.2).2.1 loc' hok
    have hmem : (⟨o.subject, .ok loc⟩ : Outcome) ∈ done ++ [o] ++ before := by
      rw [← ho]
      simp
    exact hsettled.apart hmem hkind hbank (fun hzero => hsize (UInt32.toNat_inj.mp hzero))
      fun hzero => hsize' (UInt32.toNat_inj.mp hzero)

theorem allSettled_of_error {map : MemoryMap} {done outcomes : List Outcome}
    (h : ∀ o ∈ outcomes, ∃ e, o.result = .error e) : AllSettled map done outcomes := by
  induction outcomes generalizing done with
  | nil => trivial
  | cons o rest ih =>
    refine ⟨fun loc hloc => ?_, ih fun o' ho' => h o' (List.mem_cons_of_mem _ ho')⟩
    obtain ⟨e, he⟩ := h o (List.mem_cons_self ..)
    rw [he] at hloc
    cases hloc

theorem accounts_of_error {l : Ledger} {done outcomes : List Outcome} (hl : l.Accounts done)
    (h : ∀ o ∈ outcomes, ∃ e, o.result = .error e) : l.Accounts (done ++ outcomes) := by
  induction outcomes generalizing done with
  | nil => simpa using hl
  | cons o rest ih =>
    obtain ⟨e, he⟩ := h o (List.mem_cons_self ..)
    have hnot : ∀ kind bank a, ¬o.Uses kind bank a := by
      rintro kind bank a ⟨loc, hloc, -⟩
      rw [he] at hloc
      cases hloc
    have := ih (hl.append_of_not_uses hnot) fun o' ho' => h o' (List.mem_cons_of_mem _ ho')
    rwa [List.append_assoc] at this

/-- What a step guarantees holds along the run, and the ledger accounts for it at the end. -/
theorem placeAll_settled {map : MemoryMap}
    {placeOne : Ledger → Merged → Except PlacementError (Location × Ledger)} {P : Merged → Prop}
    (hstep : ∀ {l l' : Ledger} {done : List Outcome} {m : Merged} {loc : Location}, l.map = map →
      l.Accounts done → P m → placeOne l m = .ok (loc, l') →
      l'.Accounts (done ++ [⟨m, .ok loc⟩]) ∧ l'.map = map ∧ Settled map done m loc)
    {l : Ledger} {done : List Outcome} {ms : List Merged} (hmap : l.map = map)
    (hl : l.Accounts done) (hP : ∀ m ∈ ms, P m) :
    (placeAll placeOne l ms).2.Accounts (done ++ (placeAll placeOne l ms).1)
      ∧ (placeAll placeOne l ms).2.map = map
      ∧ AllSettled map done (placeAll placeOne l ms).1 := by
  induction ms generalizing l done with
  | nil => exact ⟨by simpa [placeAll] using hl, hmap, trivial⟩
  | cons m rest ih =>
    have hrest := fun m' hm' => hP m' (List.mem_cons_of_mem _ hm')
    unfold placeAll
    split
    · next e he =>
      -- the ledger is as it was, and the outcome uses nothing
      have hl' : l.Accounts (done ++ [⟨m, .error e⟩]) :=
        hl.append_of_not_uses fun _ _ _ => not_uses_error
      obtain ⟨haccounts, hmap', hsettled⟩ := ih hmap hl' hrest
      rw [List.append_assoc] at haccounts
      exact ⟨haccounts, hmap', nofun, hsettled⟩
    · next loc l' hok =>
      obtain ⟨hl', hmap', hthis⟩ := hstep hmap hl (hP m (List.mem_cons_self ..)) hok
      obtain ⟨haccounts, hmap'', hsettled⟩ := ih hmap' hl' hrest
      rw [List.append_assoc] at haccounts
      refine ⟨haccounts, hmap'', fun loc' hloc' => ?_, hsettled⟩
      obtain rfl : loc = loc' := by simpa using hloc'
      exact hthis

theorem subjects_placeAll
    (placeOne : Ledger → Merged → Except PlacementError (Location × Ledger)) (l : Ledger)
    (ms : List Merged) : (placeAll placeOne l ms).1.map Outcome.subject = ms := by
  induction ms generalizing l with
  | nil => rfl
  | cons m rest ih =>
    unfold placeAll
    split
    · simp [ih l]
    · next loc l' _ => simp [ih l']

/-! ## All sections -/

theorem rejection?_eq_some {map : MemoryMap} {m : Merged} {o : Outcome}
    (h : rejection? map m = some o) : o.subject = m ∧ ∃ e, o.result = .error e := by
  unfold rejection? at h
  split at h
  · next e he =>
    obtain rfl := Option.some.inj h
    exact ⟨rfl, e, rfl⟩
  · cases h

theorem validate_of_rejection?_isNone {map : MemoryMap} {m : Merged}
    (h : (rejection? map m).isNone = true) : validate map m = .ok () := by
  unfold rejection? at h
  split at h
  · cases h
  · next hok => exact hok

theorem placeAll_placeFixed_settled {map : MemoryMap} {l : Ledger} {done : List Outcome}
    {ms : List Merged} (hmap : l.map = map) (hl : l.Accounts done)
    (hms : ∀ m ∈ ms, Valid map m ∧ isFixed map m = true) :
    (placeAll placeFixed l ms).2.Accounts (done ++ (placeAll placeFixed l ms).1)
      ∧ (placeAll placeFixed l ms).2.map = map
      ∧ AllSettled map done (placeAll placeFixed l ms).1 := by
  refine placeAll_settled ?_ hmap hl hms
  rintro l l' done m loc rfl hl ⟨hvalid, hfixed⟩ hok
  exact settled_of_placeFixed hl hvalid hfixed hok

theorem placeAll_placeFloating_settled {map : MemoryMap} {l : Ledger} {done : List Outcome}
    {ms : List Merged} (hmap : l.map = map) (hl : l.Accounts done)
    (hms : ∀ m ∈ ms, Valid map m ∧ m.align.toNat ≤ 16) :
    (placeAll placeFloating l ms).2.Accounts (done ++ (placeAll placeFloating l ms).1)
      ∧ (placeAll placeFloating l ms).2.map = map
      ∧ AllSettled map done (placeAll placeFloating l ms).1 := by
  refine placeAll_settled ?_ hmap hl hms
  rintro l l' done m loc rfl hl ⟨hvalid, halign⟩ hok
  exact settled_of_placeFloating halign hl hvalid hok

/-- Every location that an assignment gives is settled after the outcomes before it. -/
theorem assign_settled {map : MemoryMap} {sections : List Merged}
    (halign : ∀ m ∈ sections, m.align.toNat ≤ 16) : AllSettled map [] (assign map sections) := by
  have hvalid : ∀ m ∈ sections.filter (fun m => (rejection? map m).isNone),
      Valid map m ∧ m.align.toNat ≤ 16 := by
    intro m hm
    obtain ⟨hmem, hnone⟩ := List.mem_filter.mp hm
    exact ⟨valid_of_validate (validate_of_rejection?_isNone hnone), halign m hmem⟩
  have hrejected : ∀ o ∈ sections.filterMap (rejection? map), ∃ e, o.result = .error e := by
    intro o ho
    obtain ⟨m, -, hm⟩ := List.mem_filterMap.mp ho
    exact (rejection?_eq_some hm).2
  unfold assign
  simp only [List.partition_eq_filter_filter]
  set valid := sections.filter fun m => (rejection? map m).isNone
  -- the ledger is empty after the rejections, and accounts for the fixed sections after these
  have hstart : ({ map } : Ledger).Accounts (sections.filterMap (rejection? map)) := by
    simpa using accounts_of_error (Ledger.accounts_empty map) hrejected
  have hfixed : ∀ m ∈ (valid.filter (isFixed map)).mergeSort fun a b => (compareFixed a b).isLE,
      Valid map m ∧ isFixed map m = true := by
    intro m hm
    obtain ⟨hmem, hfix⟩ := List.mem_filter.mp (List.mem_mergeSort.mp hm)
    exact ⟨(hvalid m hmem).1, hfix⟩
  have hfloating : ∀ m ∈ (valid.filter (not ∘ isFixed map)).mergeSort
      fun a b => (compareFloating a b).isLE, Valid map m ∧ m.align.toNat ≤ 16 := by
    intro m hm
    exact hvalid m (List.mem_filter.mp (List.mem_mergeSort.mp hm)).1
  obtain ⟨haccounts, hmap, hsettledFixed⟩ := placeAll_placeFixed_settled rfl hstart hfixed
  obtain ⟨-, -, hsettledFloating⟩ := placeAll_placeFloating_settled hmap haccounts hfloating
  refine allSettled_append.mpr ⟨allSettled_append.mpr ⟨allSettled_of_error hrejected, ?_⟩, ?_⟩
  · rwa [List.nil_append]
  · rwa [List.nil_append]

/-- An assignment has one outcome for each section. -/
theorem subjects_assign (map : MemoryMap) (sections : List Merged) :
    ((assign map sections).map Outcome.subject).Perm sections := by
  have hrejected : (sections.filterMap (rejection? map)).map Outcome.subject
      = sections.filter fun m => !(rejection? map m).isNone := by
    induction sections with
    | nil => rfl
    | cons m rest ih =>
      cases h : rejection? map m with
      | none => simp [h, ih]
      | some o => simp [h, ih, (rejection?_eq_some h).1]
  unfold assign
  simp only [List.partition_eq_filter_filter, List.map_append, subjects_placeAll, hrejected]
  set valid := sections.filter fun m => (rejection? map m).isNone
  -- sections are rejected, fixed or floating, and sorting moves them only
  have hsplit : (((valid.filter (isFixed map)).mergeSort fun a b => (compareFixed a b).isLE)
      ++ (valid.filter (not ∘ isFixed map)).mergeSort fun a b => (compareFloating a b).isLE).Perm
      valid :=
    ((List.mergeSort_perm _ _).append (List.mergeSort_perm _ _)).trans
      (List.filter_append_perm (isFixed map) valid)
  rw [List.append_assoc]
  exact ((List.Perm.refl _).append hsplit).trans (List.perm_append_comm.trans
    (List.filter_append_perm (fun m => (rejection? map m).isNone) sections))

theorem subject_mem_of_mem_assign {sections : List Merged} {o : Outcome}
    (ho : o ∈ assign map sections) : o.subject ∈ sections :=
  (subjects_assign map sections).mem_iff.mp (List.mem_map_of_mem ho)

theorem exists_mem_assign (map : MemoryMap) {sections : List Merged} (hm : m ∈ sections) :
    ∃ o ∈ assign map sections, o.subject = m :=
  List.mem_map.mp ((subjects_assign map sections).mem_iff.mpr hm)

/-- What tells the sections apart tells the outcomes apart. -/
theorem nodup_map_assign {α : Type} {f : Merged → α} {sections : List Merged}
    (h : (sections.map f).Nodup) : ((assign map sections).map fun o => f o.subject).Nodup := by
  have hperm := (subjects_assign map sections).map f
  rw [List.map_map] at hperm
  exact hperm.nodup_iff.mpr h

end Placement

end BankedLinker
