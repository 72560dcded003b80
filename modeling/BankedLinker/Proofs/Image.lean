import BankedLinker.Output.Rom
import BankedLinker.Proofs.Patching
import BankedLinker.Proofs.Region
import Mathlib.Order.Bounds.Basic

/-!
# The bytes of the image

The image is made of banks, one after the other, and a section in a bank stands where its address
says. Sections that do not overlap in their banks do not overlap in the image, so each of them
keeps its bytes there and everything else is padding.

* `Rom.toNat_romOffset`: positions in the image, by bank and address;
* `Rom.IsBankTotal` is the number of ROMX banks, `Rom.toNat_size` the size of the image;
* `Rom.Seated`: a section lies in a bank of its region, with all its bytes;
* `Rom.getElem?_image_of_occupied` and `Rom.getElem?_image_of_not_occupied` are the bytes of the
  image.
-/

namespace BankedLinker.Rom

variable {map : MemoryMap} {kind kind' : RegionKind} {bank bank' : UInt32}

/-! ## Banks in the image -/

theorem hasData_iff : kind.hasData = true ↔ kind = .rom0 ∨ kind = .romx := by
  unfold RegionKind.hasData
  rw [Bool.or_eq_true, decide_eq_true_iff, decide_eq_true_iff]

/-- The position in the image at which a bank of a ROM region starts. -/
def bankStart (map : MemoryMap) (kind : RegionKind) (bank : UInt32) : ℕ :=
  if kind = .rom0 then 0
  else (map.region .rom0).size.toNat
    + (bank.toNat - (map.region .romx).firstBank.toNat) * (map.region .romx).size.toNat

theorem bankStart_rom0 : bankStart map .rom0 bank = 0 := rfl

theorem bankStart_romx :
    bankStart map .romx bank = (map.region .rom0).size.toNat + (bank.toNat - 1) * 0x4000 := rfl

theorem size_romx (map : MemoryMap) : (map.region .romx).size.toNat = 0x4000 := rfl

theorem start_romx (map : MemoryMap) : (map.region .romx).start.toNat = 0x4000 := rfl

theorem size_rom0_le (map : MemoryMap) : (map.region .rom0).size.toNat ≤ 0x8000 := by
  obtain ⟨tiny, wram0, dmg⟩ := map
  revert tiny wram0 dmg
  decide

theorem hasBank_rom0 (h : (map.region .rom0).HasBank bank) : bank.toNat = 0 := by
  have hbank : 0 ≤ bank.toNat ∧ bank.toNat < 0 + 1 := h
  omega

theorem hasBank_romx (h : (map.region .romx).HasBank bank) :
    1 ≤ bank.toNat ∧ bank.toNat ≤ 511 := by
  have hcount : (map.region .romx).bankCount.toNat ≤ 511 := by
    clear h
    obtain ⟨tiny, wram0, dmg⟩ := map
    revert tiny wram0 dmg
    decide
  have hbank : 1 ≤ bank.toNat ∧ bank.toNat < 1 + (map.region .romx).bankCount.toNat := h
  omega

/-- The position of an address of a bank in the image. -/
theorem toNat_romOffset (hdata : kind.hasData = true) (hbank : (map.region kind).HasBank bank)
    {address : UInt16} (hstart : (map.region kind).start.toNat ≤ address.toNat) :
    (map.romOffset kind bank address).toNat
      = bankStart map kind bank + (address.toNat - (map.region kind).start.toNat) := by
  have haddress := address.toNat_lt
  rcases hasData_iff.mp hdata with rfl | rfl
  · show (address - 0).toUInt32.toNat = 0 + (address.toNat - 0)
    rw [UInt16.toNat_toUInt32, UInt16.toNat_sub, UInt16.toNat_zero]
    omega
  · -- there are at most 511 banks of 16 KiB, so the word does not wrap
    have hsize := size_rom0_le map
    have hbank' := hasBank_romx hbank
    rw [start_romx] at hstart
    rw [bankStart_romx, start_romx]
    show ((map.region .rom0).size + (bank - 1) * 0x4000 + (address - 0x4000).toUInt32).toNat = _
    have hbank'' : (bank - 1).toNat = bank.toNat - 1 := by
      rw [UInt32.toNat_sub, UInt32.toNat_one]
      omega
    have haddress' : (address - 0x4000).toNat = address.toNat - 0x4000 := by
      rw [UInt16.toNat_sub, show (0x4000 : UInt16).toNat = 0x4000 from rfl]
      omega
    rw [UInt32.toNat_add, UInt32.toNat_add, UInt32.toNat_mul, UInt16.toNat_toUInt32, hbank'',
      haddress', show (0x4000 : UInt32).toNat = 0x4000 from rfl]
    omega

/-- Two banks do not overlap in the image. -/
theorem bankStart_apart (hdata : kind.hasData = true) (hdata' : kind'.hasData = true)
    (hbank : (map.region kind).HasBank bank) (hbank' : (map.region kind').HasBank bank')
    (hne : kind = kind' → bank ≠ bank') :
    bankStart map kind bank + (map.region kind).size.toNat ≤ bankStart map kind' bank'
      ∨ bankStart map kind' bank' + (map.region kind').size.toNat ≤ bankStart map kind bank := by
  have hne' : kind = kind' → bank.toNat ≠ bank'.toNat :=
    fun h heq => hne h (UInt32.toNat_inj.mp heq)
  rcases hasData_iff.mp hdata with rfl | rfl <;> rcases hasData_iff.mp hdata' with rfl | rfl
  · have hzero := hasBank_rom0 hbank
    have hzero' := hasBank_rom0 hbank'
    exact absurd (hzero.trans hzero'.symm) (hne' rfl)
  · rw [bankStart_rom0, bankStart_romx]
    omega
  · rw [bankStart_rom0, bankStart_romx]
    omega
  · have hone := hasBank_romx hbank
    have hone' := hasBank_romx hbank'
    have hdiffer := hne' rfl
    rw [bankStart_romx, bankStart_romx, size_romx]
    omega

/-! ## The size of the image -/

variable {sections : List Merged} {m n : Merged}

/-- The number of ROMX banks in the image: none if the region is not available, and otherwise the
greatest of one and the numbers, counted from one, of the banks of placed sections. -/
def IsBankTotal (map : MemoryMap) (sections : List Merged) (total : ℕ) : Prop :=
  if (map.region .romx).bankCount = 0 then total = 0
  else IsGreatest {b | b = 1 ∨ ∃ m ∈ sections, m.kind = .romx ∧ m.placed = true
    ∧ b = m.bank.toNat - (map.region .romx).firstBank.toNat + 1} total

theorem toNat_max (a b : UInt32) : (max a b).toNat = max a.toNat b.toNat := by
  have hmax : max a b = if a ≤ b then b else a := rfl
  rw [hmax]
  split_ifs with h
  · rw [UInt32.le_iff_toNat_le] at h
    omega
  · rw [UInt32.le_iff_toNat_le] at h
    omega

/-- The greatest of some words and a first one. -/
theorem isGreatest_foldl_max (words : List UInt32) (first : UInt32) :
    IsGreatest {b | b = first.toNat ∨ ∃ w ∈ words, b = w.toNat}
      (words.foldl max first).toNat := by
  induction words generalizing first with
  | nil =>
    refine ⟨Or.inl rfl, ?_⟩
    rintro b (rfl | ⟨w, hw, -⟩)
    · exact le_refl _
    · cases hw
  | cons w words ih =>
    obtain ⟨hmem, hupper⟩ := ih (max first w)
    have hfirst : (max first w).toNat ≤ (words.foldl max (max first w)).toNat :=
      hupper (Or.inl rfl)
    have hmax := toNat_max first w
    -- the fold goes on from the greater one of the first two words
    constructor
    · rcases hmem with heq | ⟨v, hv, heq⟩
      · rw [hmax] at heq
        rcases Nat.le_total first.toNat w.toNat with hle | hle
        · exact Or.inr ⟨w, List.mem_cons_self .., by rw [List.foldl_cons]; omega⟩
        · exact Or.inl (by rw [List.foldl_cons]; omega)
      · exact Or.inr ⟨v, List.mem_cons_of_mem _ hv, heq⟩
    · rintro b (rfl | ⟨v, hv, rfl⟩)
      · rw [List.foldl_cons]
        omega
      · rcases List.mem_cons.mp hv with rfl | hv
        · rw [List.foldl_cons]
          omega
        · exact hupper (Or.inr ⟨v, hv, rfl⟩)

/-- The bank count, when every placed section is in a bank of its region. -/
theorem isBankTotal_bankCount
    (hbank : ∀ m ∈ sections, m.kind = .romx → m.placed = true →
      (map.region .romx).HasBank m.bank) :
    IsBankTotal map sections (bankCount map sections).toNat := by
  unfold IsBankTotal bankCount
  dsimp only
  split_ifs with hcount
  · rfl
  · -- the words of the fold are the numbers of the banks
    have hset : {b | b = 1 ∨ ∃ m ∈ sections, m.kind = .romx ∧ m.placed = true
          ∧ b = m.bank.toNat - (map.region .romx).firstBank.toNat + 1}
        = {b | b = (1 : UInt32).toNat ∨ ∃ w ∈ (sections.filter
          fun m => m.kind = .romx && m.placed).map
            fun m => m.bank - (map.region .romx).firstBank + 1, b = w.toNat} := by
      have hword : ∀ m ∈ sections, m.kind = .romx → m.placed = true →
          (m.bank - (map.region .romx).firstBank + 1).toNat
            = m.bank.toNat - (map.region .romx).firstBank.toNat + 1 := by
        intro m hm hkind hplaced
        have hrange := hasBank_romx (hbank m hm hkind hplaced)
        show (m.bank - 1 + 1).toNat = m.bank.toNat - 1 + 1
        rw [UInt32.toNat_add, UInt32.toNat_sub, UInt32.toNat_one]
        omega
      ext b
      refine or_congr Iff.rfl ⟨?_, ?_⟩
      · rintro ⟨m, hm, hkind, hplaced, rfl⟩
        refine ⟨_, List.mem_map_of_mem (List.mem_filter.mpr ⟨hm, ?_⟩),
          (hword m hm hkind hplaced).symm⟩
        rw [Bool.and_eq_true]
        exact ⟨decide_eq_true hkind, hplaced⟩
      · rintro ⟨w, hw, rfl⟩
        obtain ⟨m, hm, rfl⟩ := List.mem_map.mp hw
        obtain ⟨hmem, hstored⟩ := List.mem_filter.mp hm
        rw [Bool.and_eq_true, decide_eq_true_iff] at hstored
        exact ⟨m, hmem, hstored.1, hstored.2, hword m hmem hstored.1 hstored.2⟩
    rw [hset]
    exact isGreatest_foldl_max _ 1

theorem bankCount_le
    (hbank : ∀ m ∈ sections, m.kind = .romx → m.placed = true →
      (map.region .romx).HasBank m.bank) : (bankCount map sections).toNat ≤ 511 := by
  have htotal := isBankTotal_bankCount hbank
  unfold IsBankTotal at htotal
  split_ifs at htotal with hcount
  · omega
  · rcases htotal.1 with hone | ⟨m, hm, hkind, hplaced, heq⟩
    · omega
    · have hrange := hasBank_romx (hbank m hm hkind hplaced)
      have hfirst : (map.region .romx).firstBank.toNat = 1 := rfl
      omega

/-- The size of the image: ROM0 and the ROMX banks. -/
theorem toNat_size
    (hbank : ∀ m ∈ sections, m.kind = .romx → m.placed = true →
      (map.region .romx).HasBank m.bank) :
    (size map sections).toNat = (map.region .rom0).size.toNat
      + (bankCount map sections).toNat * (map.region .romx).size.toNat := by
  have hcount := bankCount_le hbank
  have hsize := size_rom0_le map
  have hromx := size_romx map
  unfold size
  rw [UInt32.toNat_add, UInt32.toNat_mul, hromx]
  omega

/-! ## Sections in the image -/

/-- A section lies inside of a bank of its region, and in ROM all its bytes are there. -/
structure Seated (map : MemoryMap) (m : Merged) : Prop where
  hasBank : (map.region m.kind).HasBank m.bank
  start_le : (map.region m.kind).start.toNat ≤ m.org.toNat
  stop_le : m.org.toNat + m.size.toNat
    ≤ (map.region m.kind).start.toNat + (map.region m.kind).size.toNat
  data_size : m.kind.hasData = true → m.data.size = m.size.toNat

/-- A section is stored at a position of the image. -/
def Occupies (map : MemoryMap) (m : Merged) (k : ℕ) : Prop :=
  isStored m = true ∧ position map m ≤ k ∧ k < position map m + m.data.size

theorem hasData_of_isStored (h : isStored m = true) : m.kind.hasData = true := by
  unfold isStored at h
  rw [Bool.and_eq_true] at h
  exact h.1

theorem placed_of_isStored (h : isStored m = true) : m.placed = true := by
  unfold isStored at h
  rw [Bool.and_eq_true] at h
  exact h.2

theorem Seated.position_eq (h : Seated map m) (hdata : m.kind.hasData = true) :
    position map m
      = bankStart map m.kind m.bank + (m.org.toNat - (map.region m.kind).start.toNat) :=
  toNat_romOffset hdata h.hasBank h.start_le

/-- Stored bytes lie inside of the image. -/
theorem Seated.stop_le_size (hseated : ∀ m ∈ sections, Seated map m) (hm : m ∈ sections)
    (hstored : isStored m = true) :
    position map m + m.data.size ≤ (size map sections).toNat := by
  have hdata := hasData_of_isStored hstored
  have hbank : ∀ m ∈ sections, m.kind = .romx → m.placed = true →
      (map.region .romx).HasBank m.bank := by
    intro n hn hkind _
    have hbank := (hseated n hn).hasBank
    rwa [hkind] at hbank
  have hseat := hseated m hm
  have hstart := hseat.start_le
  have hstop := hseat.stop_le
  rw [hseat.position_eq hdata, hseat.data_size hdata, toNat_size hbank]
  rcases hasData_iff.mp hdata with hkind | hkind
  · rw [hkind] at hstart hstop ⊢
    rw [bankStart_rom0]
    omega
  · -- the bank of the section is one of those that are counted
    have htotal := isBankTotal_bankCount hbank
    have hrange := hbank m hm hkind (placed_of_isStored hstored)
    have hrange' := hasBank_romx hrange
    have hcount : (map.region .romx).bankCount ≠ 0 := by
      intro hzero
      have hlt := hrange.2
      rw [hzero] at hlt
      exact absurd hrange.1 (by simpa using hlt)
    unfold IsBankTotal at htotal
    rw [if_neg hcount] at htotal
    have hle : m.bank.toNat - 1 + 1 ≤ (bankCount map sections).toNat :=
      htotal.2 (Or.inr ⟨m, hm, hkind, placed_of_isStored hstored, rfl⟩)
    rw [hkind] at hstart hstop ⊢
    rw [start_romx, size_romx] at *
    rw [bankStart_romx]
    omega

/-- Sections that do not overlap in a bank do not overlap in the image. -/
theorem Seated.not_occupies_both (hm : Seated map m) (hn : Seated map n)
    (hapart : m.size ≠ 0 → n.size ≠ 0 → m.kind = n.kind → m.bank = n.bank → Linker.Apart m n)
    (k : ℕ) : ¬(Occupies map m k ∧ Occupies map n k) := by
  rintro ⟨⟨hmstored, hmlow, hmhigh⟩, hnstored, hnlow, hnhigh⟩
  have hmdata := hasData_of_isStored hmstored
  have hndata := hasData_of_isStored hnstored
  rw [hm.position_eq hmdata] at hmlow hmhigh
  rw [hn.position_eq hndata] at hnlow hnhigh
  rw [hm.data_size hmdata] at hmhigh
  rw [hn.data_size hndata] at hnhigh
  have hmstart := hm.start_le
  have hmstop := hm.stop_le
  have hnstart := hn.start_le
  have hnstop := hn.stop_le
  by_cases hsame : m.kind = n.kind ∧ m.bank = n.bank
  · -- in one bank positions differ as addresses do
    obtain ⟨hkind, hbank⟩ := hsame
    have hmsize : m.size ≠ 0 := by
      intro hzero
      rw [hzero, UInt32.toNat_zero] at hmhigh
      omega
    have hnsize : n.size ≠ 0 := by
      intro hzero
      rw [hzero, UInt32.toNat_zero] at hnhigh
      omega
    have happart := hapart hmsize hnsize hkind hbank
    unfold Linker.Apart at happart
    rw [hkind, hbank] at hmlow hmhigh
    rw [hkind] at hmstart
    omega
  · have hne : m.kind = n.kind → m.bank ≠ n.bank := fun h h' => hsame ⟨h, h'⟩
    have hbanks := bankStart_apart hmdata hndata hm.hasBank hn.hasBank hne
    omega

/-! ## The bytes of the image -/

theorem size_store (image : Array UInt8) : (store map image m).size = image.size := by
  unfold store
  split
  · rw [size_overwrite]
  · rfl

theorem getElem?_store {image : Array UInt8}
    (hfits : isStored m = true → position map m + m.data.size ≤ image.size) {k : ℕ} :
    (Occupies map m k → (store map image m)[k]? = m.data[k - position map m]?)
      ∧ (¬Occupies map m k → (store map image m)[k]? = image[k]?) := by
  unfold store
  by_cases hstored : isStored m = true
  · have hlength : m.data.toList.length = m.data.size := Array.length_toList
    rw [if_pos hstored, getElem?_overwrite (by rw [hlength]; exact hfits hstored), hlength,
      Array.getElem?_toList]
    exact ⟨fun hk => if_pos hk.2, fun hk => if_neg fun h => hk ⟨hstored, h⟩⟩
  · rw [if_neg hstored]
    exact ⟨fun hk => absurd hk.1 hstored, fun _ => rfl⟩

/-- Storing sections leaves alone what none of them occupies. -/
theorem getElem?_foldl_store_of_not_occupied {buffer : Array UInt8}
    (hfits : ∀ m ∈ sections, isStored m = true → position map m + m.data.size ≤ buffer.size)
    {k : ℕ} (hk : ∀ m ∈ sections, ¬Occupies map m k) :
    (sections.foldl (store map) buffer)[k]? = buffer[k]? := by
  induction sections generalizing buffer with
  | nil => rfl
  | cons m rest ih =>
    rw [List.foldl_cons, ih ?_ fun n hn => hk n (List.mem_cons_of_mem _ hn)]
    · exact (getElem?_store (hfits m (List.mem_cons_self ..))).2 (hk m (List.mem_cons_self ..))
    · intro n hn hstored
      rw [size_store]
      exact hfits n (List.mem_cons_of_mem _ hn) hstored

/-- A section that is stored keeps its bytes if no later one is stored over it. -/
theorem getElem?_foldl_store_of_occupied {buffer : Array UInt8}
    (hfits : ∀ m ∈ sections, isStored m = true → position map m + m.data.size ≤ buffer.size)
    (hapart : sections.Pairwise fun m n => ∀ k, ¬(Occupies map m k ∧ Occupies map n k))
    (hm : m ∈ sections) {k : ℕ} (hk : Occupies map m k) :
    (sections.foldl (store map) buffer)[k]? = m.data[k - position map m]? := by
  induction sections generalizing buffer with
  | nil => cases hm
  | cons n rest ih =>
    rw [List.pairwise_cons] at hapart
    have hfits' : ∀ m ∈ rest, isStored m = true →
        position map m + m.data.size ≤ (store map buffer n).size := by
      intro m hm hstored
      rw [size_store]
      exact hfits m (List.mem_cons_of_mem _ hm) hstored
    rw [List.foldl_cons]
    rcases List.mem_cons.mp hm with rfl | hm
    · -- no later section occupies the position
      rw [getElem?_foldl_store_of_not_occupied hfits'
        fun n hn hocc => hapart.1 n hn k ⟨hk, hocc⟩]
      exact (getElem?_store (hfits m (List.mem_cons_self ..))).1 hk
    · exact ih hfits' hapart.2 hm

theorem size_image (map : MemoryMap) (pad : UInt8) (sections : List Merged) :
    (image map pad sections).size = (size map sections).toNat := by
  unfold image
  have hfold : ∀ (rest : List Merged) (buffer : Array UInt8),
      (rest.foldl (store map) buffer).size = buffer.size := by
    intro rest
    induction rest with
    | nil => exact fun _ => rfl
    | cons m rest ih =>
      intro buffer
      rw [List.foldl_cons, ih, size_store]
  rw [hfold, Array.size_replicate]

section Image

variable (hseated : ∀ m ∈ sections, Seated map m)

include hseated

theorem stop_le_size_replicate {pad : UInt8} : ∀ m ∈ sections, isStored m = true →
    position map m + m.data.size ≤ (Array.replicate (size map sections).toNat pad).size := by
  intro m hm hstored
  rw [Array.size_replicate]
  exact Seated.stop_le_size hseated hm hstored

/-- A position of the image that a section occupies holds its byte. -/
theorem getElem?_image_of_occupied {pad : UInt8}
    (hapart : sections.Pairwise fun m n => ∀ k, ¬(Occupies map m k ∧ Occupies map n k))
    (hm : m ∈ sections) {k : ℕ} (hk : Occupies map m k) :
    (image map pad sections)[k]? = m.data[k - position map m]? :=
  getElem?_foldl_store_of_occupied (stop_le_size_replicate hseated) hapart hm hk

/-- A position of the image that no section occupies holds the pad byte. -/
theorem getElem?_image_of_not_occupied {pad : UInt8} {k : ℕ}
    (hsize : k < (size map sections).toNat) (hk : ∀ m ∈ sections, ¬Occupies map m k) :
    (image map pad sections)[k]? = some pad := by
  unfold image
  rw [getElem?_foldl_store_of_not_occupied (stop_le_size_replicate hseated) hk,
    Array.getElem?_replicate, if_pos hsize]

end Image

end BankedLinker.Rom
