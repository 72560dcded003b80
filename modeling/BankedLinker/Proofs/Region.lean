import BankedLinker.Region
import Mathlib.Algebra.Group.Nat.Defs
import Mathlib.Order.Nat
import Mathlib.Tactic.SplitIfs

/-!
# The extent of the regions

Addresses and banks of every region of every memory map are small, so that the word arithmetic on
them is that of the natural numbers.

* `Region.HasBank` and `Region.HasAddress` are banks and addresses of a region as numbers;
* `MemoryMap.region_bounds` bounds them for all regions;
* `MemoryMap.size_region_pos` and `MemoryMap.region_of_not_isKnown`: known regions have addresses,
  and others have nothing;
* `MemoryMap.containsBank_iff` and `MemoryMap.containsRange_iff` read the tests of a region.
-/

namespace BankedLinker

namespace Region

/-- The bank is one of the region's. -/
def HasBank (r : Region) (bank : UInt32) : Prop :=
  r.firstBank.toNat ≤ bank.toNat ∧ bank.toNat < r.firstBank.toNat + r.bankCount.toNat

/-- The address is one of the region's. -/
def HasAddress (r : Region) (a : ℕ) : Prop :=
  r.start.toNat ≤ a ∧ a < r.start.toNat + r.size.toNat

end Region

theorem RegionKind.mem_all_of_isKnown {k : RegionKind} (hk : k.isKnown = true) :
    k ∈ RegionKind.all := by
  rcases k with ⟨tag⟩
  have htag : tag.toNat < 8 := of_decide_eq_true hk
  simp only [all, wram0, vram, romx, rom0, hram, wramx, sram, oam, List.mem_cons, List.not_mem_nil,
    or_false, mk.injEq, ← UInt8.toNat_inj]
  show tag.toNat = 0 ∨ tag.toNat = 1 ∨ tag.toNat = 2 ∨ tag.toNat = 3 ∨ tag.toNat = 4
    ∨ tag.toNat = 5 ∨ tag.toNat = 6 ∨ tag.toNat = 7
  omega

namespace MemoryMap

variable (map : MemoryMap) (k : RegionKind)

/-- Every region ends before the address space does and has fewer than 1024 banks. -/
theorem region_bounds : (map.region k).start.toNat + (map.region k).size.toNat < 2 ^ 16
    ∧ (map.region k).firstBank.toNat + (map.region k).bankCount.toNat < 2 ^ 10 := by
  unfold region
  obtain ⟨tiny, wram0, dmg⟩ := map
  split
  all_goals
    revert tiny wram0 dmg
    decide

/-- A known region has addresses. -/
theorem size_region_pos {k : RegionKind} (hk : k.isKnown = true) :
    0 < (map.region k).size.toNat := by
  have hall : ∀ tiny wram0 dmg, ∀ k ∈ RegionKind.all,
      0 < ((⟨tiny, wram0, dmg⟩ : MemoryMap).region k).size.toNat := by decide
  exact hall map.tiny map.wram0 map.dmg k (RegionKind.mem_all_of_isKnown hk)

/-- A tag that names no region has neither addresses nor banks. -/
theorem region_of_not_isKnown {k : RegionKind} (hk : ¬k.isKnown = true) :
    map.region k = ⟨0, 0, 0, 0⟩ := by
  have htag : 8 ≤ k.tag.toNat := by
    unfold RegionKind.isKnown at hk
    rw [decide_eq_true_eq, UInt8.lt_iff_toNat_lt] at hk
    exact Nat.not_lt.mp hk
  unfold region
  split
  all_goals first
    | omega
    | rfl

theorem toNat_stop :
    (map.region k).stop.toNat = (map.region k).start.toNat + (map.region k).size.toNat := by
  have hbounds := map.region_bounds k
  unfold Region.stop
  rw [UInt32.toNat_add, UInt16.toNat_toUInt32]
  omega

theorem containsBank_iff {bank : UInt32} :
    (map.region k).containsBank bank = true ↔ (map.region k).HasBank bank := by
  have hbounds := map.region_bounds k
  unfold Region.containsBank Region.HasBank Region.lastBank
  simp only [Bool.and_eq_true, decide_eq_true_eq, UInt32.lt_iff_toNat_lt, UInt32.le_iff_toNat_le,
    UInt32.toNat_zero]
  by_cases hzero : (map.region k).bankCount = 0
  · rw [hzero, UInt32.toNat_zero]
    omega
  · have hpos : 0 < (map.region k).bankCount.toNat := by
      rw [Nat.pos_iff_ne_zero]
      exact fun h => hzero (UInt32.toNat_inj.mp h)
    have hlast : ((map.region k).firstBank + (map.region k).bankCount - 1).toNat
        = (map.region k).firstBank.toNat + (map.region k).bankCount.toNat - 1 := by
      rw [UInt32.toNat_sub, UInt32.toNat_add, UInt32.toNat_one]
      omega
    rw [if_neg hzero, hlast]
    omega

/-- The test for a range is that of its two ends, as long as the range is not larger than the
region. -/
theorem containsRange_iff {address : UInt16} {size : UInt32} (h : size ≤ (map.region k).size) :
    (map.region k).containsRange address size = true
      ↔ (map.region k).start.toNat ≤ address.toNat
        ∧ address.toNat + size.toNat ≤ (map.region k).start.toNat + (map.region k).size.toNat := by
  have hbounds := map.region_bounds k
  have haddress := address.toNat_lt
  rw [UInt32.le_iff_toNat_le] at h
  unfold Region.containsRange
  simp only [Bool.and_eq_true, decide_eq_true_eq, UInt16.le_iff_toNat_le, UInt32.le_iff_toNat_le,
    toNat_stop, UInt32.toNat_add, UInt16.toNat_toUInt32]
  omega

end MemoryMap

end BankedLinker
