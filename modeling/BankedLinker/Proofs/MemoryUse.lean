import BankedLinker.Output.MapFile
import BankedLinker.Proofs.Arithmetic
import BankedLinker.Proofs.Printing
import BankedLinker.Proofs.Priority
import BankedLinker.Proofs.Verification
import Mathlib.Order.Interval.Finset.Nat

/-!
# The map file accounts for the memory

The map file groups the placed sections by region and bank and subtracts what they use from what
there is. After an assignment no section is lost or listed twice, and no subtraction wraps: the
sections of a bank lie inside of the region and apart from each other, so that what is shown as free
is the number of addresses that no section has.

* `MapFile.Block` and `MapFile.Usage` are what a block and a line of the summary show, in numbers;
  `MapFile.blocks` and `MapFile.usages` are those of the placed sections;
* `MapFile.report`: the lines that show them, one for each section and label;
* `MapFile.flatMap_filter_perm`: grouping by keys keeps every section once;
* `MapFile.card_vacancy_add`: the addresses of a region are vacant or used;
* `MapFile.Disposed.prints_listing`: what is printed shows these lines;
* `MapFile.Accounts` says what the blocks and the summary have to account for;
* `MapFile.listing_of_assign` is the result.
-/

namespace BankedLinker

/-- The address is one of the section's. -/
def Merged.HasAddress (m : Merged) (a : ℕ) : Prop :=
  m.org.toNat ≤ a ∧ a < m.org.toNat + m.size.toNat

instance (m : Merged) (a : ℕ) : Decidable (m.HasAddress a) :=
  inferInstanceAs (Decidable (_ ∧ _))

namespace MapFile

open Numeral (decimalDigits upperDigits)
open Placement (Outcome assign)

variable {map : MemoryMap} {sections : List Merged} {k : RegionKind} {bank : UInt32}

/-! ## What the map file shows -/

/-- The number of bytes of some sections. -/
def bytesOf (sections : List Merged) : ℕ :=
  (sections.map (·.size.toNat)).sum

/-- The line of a section: its first and its last address, as far as it has one, the number of its
bytes and its name. -/
def lineOfSection (m : Merged) : Line where
  purpose := "writing map section"
  pieces :=
    if m.size.toNat = 0 then
      [.text "\tSECTION: $", .number upperDigits 4 m.org.toNat, .text " ($0000 bytes) [\"",
        .text m.name, .text "\"]\n"]
    else
      [.text "\tSECTION: $", .number upperDigits 4 m.org.toNat, .text "-$",
        .number upperDigits 4 (m.org.toNat + m.size.toNat - 1), .text " ($",
        .number upperDigits 4 m.size.toNat, .text " bytes) [\"", .text m.name, .text "\"]\n"]

/-- The line of a label: the low 16 bits of its address, and its name. -/
def lineOfLabel (l : PlacedLabel) : Line where
  purpose := "writing map label"
  pieces := [.text "\t         $", .number upperDigits 4 (l.value.toInt % 2 ^ 16).toNat, .text " = ",
    .text l.name, .text "\n"]

/-- The line of a section, and those of the labels of its members in the order of the members. -/
def linesOfSection (labels : List PlacedLabel) (m : Merged) : List Line :=
  lineOfSection m :: m.members.toList.flatMap fun x =>
    (labels.filter fun l => l.owner = ⟨x.file.index, x.content.id⟩).map lineOfLabel

/-- What the block of a bank shows: the sections that it lists, and how many bytes it says are
left. -/
structure Block where
  kind : RegionKind
  bank : UInt32
  sections : List Merged
  free : ℕ

namespace Block

/-- The number of bytes that the sections of a block use. -/
def used (b : Block) : ℕ :=
  bytesOf b.sections

/-- The blocks stand in the order of their regions, or in that of their banks in one region. -/
def Before (b c : Block) : Prop :=
  regionOrder.idxOf b.kind < regionOrder.idxOf c.kind ∨ (b.kind = c.kind ∧ b.bank < c.bank)

/-- The lines of a block: the bank, its sections with their labels, and what is left. -/
def lines (labels : List PlacedLabel) (b : Block) : List Line :=
  { purpose := "writing map bank header"
    pieces := [.text b.kind.name, .text " bank #", .number decimalDigits 1 b.bank.toNat,
      .text ":\n"] } ::
    b.sections.flatMap (linesOfSection labels) ++
    [{ purpose := "writing map bank footer"
       pieces := [.text "\tTOTAL EMPTY: $", .number upperDigits 4 b.free, .text " bytes\n\n"] }]

end Block

/-- What a line of the summary shows. -/
structure Usage where
  kind : RegionKind
  used : ℕ
  free : ℕ
  banks : ℕ

def Usage.line (u : Usage) : Line where
  purpose := "writing map summary"
  pieces := [.text "\t", .text u.kind.name, .text ": $", .number upperDigits 4 u.used,
    .text " bytes used / $", .number upperDigits 4 u.free, .text " free in ",
    .number decimalDigits 1 u.banks, .text " bank(s)\n"]

/-- The lines of a map file with this summary and these blocks. -/
def report (labels : List PlacedLabel) (usages : List Usage) (blocks : List Block) : List Line :=
  { purpose := "writing map summary", pieces := [.text "SUMMARY:\n"] } :: usages.map Usage.line ++
    [{ purpose := "writing map summary", pieces := [.text "\n"] }] ++
    blocks.flatMap (Block.lines labels)

/-- The block of a bank. -/
def block (map : MemoryMap) (sections : List Merged) (k : RegionKind) (bank : UInt32) : Block :=
  { kind := k, bank, sections := inBank sections k bank,
    free := (map.region k).size.toNat - bytesOf (inBank sections k bank) }

/-- The blocks of a region. -/
def blocksOf (map : MemoryMap) (sections : List Merged) (k : RegionKind) : List Block :=
  (usedBanks sections k).map (block map sections k)

/-- All blocks. -/
def blocks (map : MemoryMap) (sections : List Merged) : List Block :=
  regionOrder.flatMap (blocksOf map sections)

/-- The line of a region. -/
def usage (map : MemoryMap) (sections : List Merged) (k : RegionKind) : Usage :=
  let used := ((blocksOf map sections k).map Block.used).sum
  let banks := max (blocksOf map sections k).length 1
  { kind := k, used, free := (map.region k).size.toNat * banks - used, banks }

/-- The lines of all available regions. -/
def usages (map : MemoryMap) (sections : List Merged) : List Usage :=
  (regionOrder.filter fun k => (map.region k).bankCount ≠ 0).map (usage map sections)

/-- The placed sections of a bank. -/
def placedAt (sections : List Merged) (k : RegionKind) (bank : UInt32) : List Merged :=
  sections.filter fun m => m.placed && m.kind = k && m.bank = bank

/-- The addresses of a region that belong to none of the sections. -/
def vacancy (r : Region) (sections : List Merged) : Finset ℕ :=
  {a ∈ Finset.Ico r.start.toNat (r.start.toNat + r.size.toNat) |
    ∀ m ∈ sections, ¬m.HasAddress a}

/-- The summary and the blocks account for all placed sections and for all bytes. -/
structure Accounts (map : MemoryMap) (sections : List Merged) (usages : List Usage)
    (blocks : List Block) : Prop where
  /-- Every placed section is listed, and none is listed twice. -/
  listed : (blocks.flatMap Block.sections).Perm (sections.filter Merged.placed)
  /-- A section stands in the block of its own region and bank. -/
  own : ∀ b ∈ blocks, ∀ m ∈ b.sections, m.kind = b.kind ∧ m.bank = b.bank
  /-- The blocks are ordered, with no two for one bank. -/
  ordered : blocks.Pairwise Block.Before
  /-- There is a block only for a bank that has something to list. -/
  nonempty : ∀ b ∈ blocks, b.sections ≠ []
  /-- The sections of a block are listed by address. -/
  ascending : ∀ b ∈ blocks, b.sections.Pairwise fun m n => m.org ≤ n.org
  /-- What is free in a bank is the number of its addresses that no section has. -/
  free_eq : ∀ b ∈ blocks, b.free = (vacancy (map.region b.kind)
    (placedAt sections b.kind b.bank)).card
  /-- Nothing was subtracted that was not there. -/
  used_add_free : ∀ b ∈ blocks, b.used + b.free = (map.region b.kind).size.toNat
  /-- Every available region has its line. -/
  lines : usages.map Usage.kind = regionOrder.filter fun k => (map.region k).bankCount ≠ 0
  /-- A line counts the blocks of its region, if there are any. -/
  banks_eq : ∀ u ∈ usages, u.banks = max (blocks.filter (·.kind = u.kind)).length 1
  /-- A line sums up what the blocks of its region use. -/
  used_eq : ∀ u ∈ usages, u.used = ((blocks.filter (·.kind = u.kind)).map Block.used).sum
  /-- Used and free bytes are those of the banks that were counted. -/
  total_eq : ∀ u ∈ usages, u.used + u.free = (map.region u.kind).size.toNat * u.banks

/-! ## Groups -/

section Groups

variable {α κ : Type*} [DecidableEq κ] {keys : List κ} {key : α → κ}

/-- Grouping by keys keeps every element once. -/
theorem flatMap_filter_perm (hkeys : keys.Nodup) {xs : List α} (hxs : ∀ x ∈ xs, key x ∈ keys) :
    (keys.flatMap fun k => xs.filter (key · = k)).Perm xs := by
  induction keys generalizing xs with
  | nil =>
    have hnil : xs = [] := List.eq_nil_iff_forall_not_mem.mpr fun x hx => nomatch hxs x hx
    rw [hnil]
    exact List.Perm.nil
  | cons k rest ih =>
    rw [List.nodup_cons] at hkeys
    -- the groups of the other keys are taken from what does not have the first key
    have hothers : (rest.flatMap fun l => xs.filter (key · = l))
        = rest.flatMap fun l => (xs.filter fun x => !decide (key x = k)).filter (key · = l) := by
      apply List.flatMap_congr
      intro l hl
      rw [List.filter_filter]
      apply List.filter_congr
      intro x _
      have hne : key x = l → key x ≠ k := by
        intro h h'
        exact hkeys.1 (h'.symm.trans h ▸ hl)
      by_cases h : key x = l
      · simp [h, h ▸ hne h]
      · simp [h]
    rw [List.flatMap_cons, hothers]
    refine ((ih hkeys.2 ?_).append_left _).trans (List.filter_append_perm _ xs)
    intro x hx
    rw [List.mem_filter] at hx
    have hne : key x ≠ k := by simpa using hx.2
    exact List.mem_of_ne_of_mem hne (hxs x hx.1)

/-- The elements with a key are those of its group. -/
theorem filter_flatMap_eq (hkeys : keys.Nodup) {group : κ → List α}
    (hgroup : ∀ k, ∀ x ∈ group k, key x = k) {k : κ} :
    (keys.flatMap group).filter (key · = k) = if k ∈ keys then group k else [] := by
  induction keys with
  | nil => rfl
  | cons l rest ih =>
    rw [List.nodup_cons] at hkeys
    rw [List.flatMap_cons, List.filter_append, ih hkeys.2]
    by_cases hlk : l = k
    · have hall : (group l).filter (key · = k) = group l := by
        apply List.filter_eq_self.mpr
        intro x hx
        exact decide_eq_true ((hgroup l x hx).trans hlk)
      rw [hall, ← hlk, if_neg hkeys.1, if_pos List.mem_cons_self, List.append_nil]
    · have hnone : (group l).filter (key · = k) = [] := by
        apply List.filter_eq_nil_iff.mpr
        intro x hx h
        exact hlk ((hgroup l x hx).symm.trans (of_decide_eq_true h))
      have hmem : k ∈ l :: rest ↔ k ∈ rest := by
        rw [List.mem_cons, or_iff_right fun h => hlk h.symm]
      rw [hnone, List.nil_append, if_congr hmem rfl rfl]

end Groups

theorem nodup_eraseDups {α : Type*} [DecidableEq α] (xs : List α) : xs.eraseDups.Nodup := by
  induction hn : xs.length using Nat.strong_induction_on generalizing xs with
  | _ n ih =>
    cases xs with
    | nil => exact List.nodup_nil
    | cons x rest =>
      rw [List.eraseDups_cons, List.nodup_cons]
      have hlt : (rest.filter fun y => !y == x).length < n := by
        rw [← hn]
        exact Nat.lt_succ_of_le (List.length_filter_le _ rest)
      refine ⟨?_, ih _ hlt _ rfl⟩
      simp [List.mem_eraseDups]

/-! ## Used banks -/

theorem mem_placedIn {m : Merged} :
    m ∈ placedIn sections k ↔ m ∈ sections ∧ m.placed = true ∧ m.kind = k := by
  unfold placedIn
  rw [List.mem_filter, Bool.and_eq_true, decide_eq_true_eq]

theorem mem_usedBanks : bank ∈ usedBanks sections k ↔ ∃ m ∈ placedIn sections k, m.bank = bank := by
  unfold usedBanks
  rw [List.mem_mergeSort, List.mem_eraseDups, List.mem_map]

/-- The banks of a region come in ascending order, and none of them twice. -/
theorem pairwise_usedBanks : (usedBanks sections k).Pairwise (· < ·) := by
  have hle : (usedBanks sections k).Pairwise fun a b => decide (a ≤ b) = true := by
    apply List.pairwise_mergeSort
    · intro a b c hab hbc
      exact decide_eq_true (UInt32.le_trans (of_decide_eq_true hab) (of_decide_eq_true hbc))
    · intro a b
      rw [Bool.or_eq_true, decide_eq_true_eq, decide_eq_true_eq]
      exact UInt32.le_total a b
  have hnodup : (usedBanks sections k).Nodup :=
    (List.mergeSort_perm _ _).nodup_iff.mpr (nodup_eraseDups _)
  refine (hle.and hnodup).imp ?_
  intro a b h
  exact UInt32.lt_of_le_of_ne (of_decide_eq_true h.1) h.2

theorem nodup_usedBanks : (usedBanks sections k).Nodup :=
  pairwise_usedBanks.imp UInt32.ne_of_lt

/-- The list of a bank has the placed sections of the bank. -/
theorem inBank_perm : (inBank sections k bank).Perm (placedAt sections k bank) := by
  have hfilter : (placedIn sections k).filter (·.bank = bank) = placedAt sections k bank := by
    unfold placedIn placedAt
    rw [List.filter_filter]
    apply List.filter_congr
    intro m _
    exact Bool.and_comm _ _
  unfold inBank
  rw [hfilter]
  exact List.mergeSort_perm _ _

theorem mem_inBank {m : Merged} : m ∈ inBank sections k bank
    ↔ m ∈ sections ∧ m.placed = true ∧ m.kind = k ∧ m.bank = bank := by
  rw [inBank_perm.mem_iff, placedAt, List.mem_filter]
  simp only [Bool.and_eq_true, decide_eq_true_eq, and_assoc]

theorem pairwise_inBank : (inBank sections k bank).Pairwise fun m n => m.org ≤ n.org := by
  have hsorted : (inBank sections k bank).Pairwise
      fun m n => (Placement.compareFixed m n).isLE = true :=
    pairwise_mergeSort_isLE Placement.compareFixed _
  refine hsorted.imp ?_
  intro m n h
  have horg : (compare m.org n.org).isLE = true := (Ordering.isLE_then_iff_and.mp h).1
  exact Std.isLE_compare.mp horg

theorem banks_usage (map : MemoryMap) (sections : List Merged) (k : RegionKind) :
    (usage map sections k).banks = max (usedBanks sections k).length 1 := by
  unfold usage blocksOf
  rw [List.length_map]

/-! ## Bytes -/

/-- As long as a sum fits into a word, adding words is adding numbers. -/
theorem toNat_foldl_add (words : List UInt32) {n : UInt32}
    (h : n.toNat + (words.map UInt32.toNat).sum < 2 ^ 32) :
    (words.foldl (· + ·) n).toNat = n.toNat + (words.map UInt32.toNat).sum := by
  induction words generalizing n with
  | nil => rfl
  | cons w rest ih =>
    rw [List.map_cons, List.sum_cons, ← Nat.add_assoc] at h ⊢
    have hadd : (n + w).toNat = n.toNat + w.toNat := by
      rw [UInt32.toNat_add]
      omega
    rw [List.foldl_cons, ih (by rwa [hadd]), hadd]

theorem toNat_usedBytes (h : bytesOf sections < 2 ^ 32) :
    (usedBytes sections).toNat = bytesOf sections := by
  have hmap : bytesOf sections = ((sections.map (·.size)).map UInt32.toNat).sum := by
    rw [List.map_map]
    rfl
  have hadd := toNat_foldl_add (sections.map (·.size)) (n := 0)
  rw [UInt32.toNat_zero, Nat.zero_add, ← hmap] at hadd
  exact hadd h

theorem mem_vacancy {r : Region} {a : ℕ} :
    a ∈ vacancy r sections ↔ r.HasAddress a ∧ ∀ m ∈ sections, ¬m.HasAddress a := by
  unfold vacancy
  rw [Finset.mem_filter, Finset.mem_Ico]
  rfl

/-- Each address of a region is vacant or belongs to one section, if the sections lie inside of the
region and apart from each other. -/
theorem card_vacancy_add {r : Region} (hinside : ∀ m ∈ sections, r.start.toNat ≤ m.org.toNat
      ∧ m.org.toNat + m.size.toNat ≤ r.start.toNat + r.size.toNat)
    (hapart : sections.Pairwise fun m n => m.size ≠ 0 → n.size ≠ 0 → Linker.Apart m n) :
    (vacancy r sections).card + bytesOf sections = r.size.toNat := by
  induction sections with
  | nil => simp [vacancy, bytesOf]
  | cons m rest ih =>
    rw [List.forall_mem_cons] at hinside
    rw [List.pairwise_cons] at hapart
    -- one more section takes its addresses out of what the others left
    have hsplit : vacancy r (m :: rest)
        = vacancy r rest \ Finset.Ico m.org.toNat (m.org.toNat + m.size.toNat) := by
      ext a
      rw [Finset.mem_sdiff, mem_vacancy, mem_vacancy, List.forall_mem_cons, Finset.mem_Ico]
      unfold Merged.HasAddress
      tauto
    have hleft : Finset.Ico m.org.toNat (m.org.toNat + m.size.toNat) ⊆ vacancy r rest := by
      intro a ha
      rw [Finset.mem_Ico] at ha
      rw [mem_vacancy]
      constructor
      · unfold Region.HasAddress
        omega
      · intro n hn hna
        have hmsize : m.size ≠ 0 := by
          intro hzero
          rw [hzero, UInt32.toNat_zero] at ha
          omega
        have hnsize : n.size ≠ 0 := by
          intro hzero
          unfold Merged.HasAddress at hna
          rw [hzero, UInt32.toNat_zero] at hna
          omega
        have haway := hapart.1 n hn hmsize hnsize
        unfold Linker.Apart at haway
        unfold Merged.HasAddress at hna
        omega
    have hcard := Finset.card_sdiff_add_card_eq_card hleft
    have hrest := ih hinside.2 hapart.2
    have hbytes : bytesOf (m :: rest) = m.size.toNat + bytesOf rest := by
      unfold bytesOf
      rw [List.map_cons, List.sum_cons]
    rw [Nat.card_Ico] at hcard
    rw [hsplit, hbytes]
    omega

/-! ## Lines -/

/-- The line of a label shows the low half of its value. -/
theorem prints_labelLine (l : PlacedLabel) : (lineOfLabel l).Prints (labelLine l) := by
  have hvalue := toInt_emod l.value
  have haddress : (l.value.toInt % 2 ^ 16).toNat = l.address.toNat := by
    unfold PlacedLabel.address
    rw [UInt32.toNat_toUInt16]
    omega
  refine ⟨rfl, ?_⟩
  unfold lineOfLabel labelLine
  rw [haddress]
  apply prints_concat
  simp [hex, Numeral.shows_hexUpper]

theorem forall₂_flatMap {α β γ : Type*} {r : β → γ → Prop} {xs : List α} {f : α → List β}
    {g : α → List γ} (h : ∀ x ∈ xs, List.Forall₂ r (f x) (g x)) :
    List.Forall₂ r (xs.flatMap f) (xs.flatMap g) := by
  have hsame : List.Forall₂ (fun x y => x = y ∧ x ∈ xs) xs xs :=
    List.forall₂_same.mpr fun x hx => ⟨rfl, hx⟩
  refine List.rel_flatMap hsame ?_
  intro x y hxy
  rw [← hxy.1]
  exact h x hxy.2

/-! ## Placed sections -/

/-- The placed sections are in banks of their regions, and those of one bank lie apart. -/
structure Disposed (map : MemoryMap) (sections : List Merged) : Prop where
  safe : ∀ m' ∈ sections, m'.placed = true → ∃ m, Linker.PlacedSafely map m m'
  apart : sections.Pairwise fun m n => m.placed = true → n.placed = true → m.kind = n.kind →
    m.bank = n.bank → m.size ≠ 0 → n.size ≠ 0 → Linker.Apart m n

theorem disposed_of_assign {outcomes : List Outcome} (hperm : outcomes.Perm (assign map sections))
    (halign : ∀ m ∈ sections, m.align.toNat ≤ 16)
    (hplaced : ∀ o ∈ outcomes, o.after.placed = true → ∃ loc, o.result = .ok loc) :
    Disposed map (outcomes.map Outcome.after) where
  safe m' hm' h := by
    rcases List.mem_map.mp hm' with ⟨o, ho, rfl⟩
    rcases hplaced o ho h with ⟨loc, hok⟩
    rcases Placement.exists_settled hperm halign ho hok with ⟨done, hsettled⟩
    rw [Outcome.after_of_ok hok]
    exact ⟨o.subject, Linker.placedSafely_of_settled hsettled⟩
  apart := by
    rw [List.pairwise_map]
    refine (Placement.pairwise_apartFrom_assign hperm halign).imp_of_mem ?_
    intro o p ho hp hapart hoplaced hpplaced
    rcases hplaced o ho hoplaced with ⟨loc, hok⟩
    rcases hplaced p hp hpplaced with ⟨loc', hok'⟩
    rw [Outcome.after_of_ok hok, Outcome.after_of_ok hok']
    exact hapart loc loc' hok hok'

namespace Disposed

variable (h : Disposed map sections)

include h

theorem hasBank {m : Merged} (hm : m ∈ sections) (hplaced : m.placed = true) :
    (map.region m.kind).HasBank m.bank := by
  rcases h.safe m hm hplaced with ⟨_, hsafe⟩
  exact hsafe.hasBank

/-- A bank is filled up by what its sections use and what no section has. -/
theorem card_vacancy_add (k : RegionKind) (bank : UInt32) :
    (vacancy (map.region k) (placedAt sections k bank)).card + bytesOf (inBank sections k bank)
      = (map.region k).size.toNat := by
  have hbytes : bytesOf (inBank sections k bank) = bytesOf (placedAt sections k bank) :=
    (inBank_perm.map fun m : Merged => m.size.toNat).sum_eq
  rw [hbytes]
  apply MapFile.card_vacancy_add
  · intro m hm
    rw [← inBank_perm.mem_iff, mem_inBank] at hm
    rcases hm with ⟨hmem, hplaced, rfl, -⟩
    rcases h.safe m hmem hplaced with ⟨_, hsafe⟩
    exact ⟨hsafe.start_le, hsafe.stop_le⟩
  · have hsub : (placedAt sections k bank).Sublist sections := List.filter_sublist
    refine (h.apart.sublist hsub).imp_of_mem ?_
    intro m n hm hn hapart
    rw [← inBank_perm.mem_iff, mem_inBank] at hm hn
    rcases hm with ⟨-, hmplaced, hmkind, hmbank⟩
    rcases hn with ⟨-, hnplaced, hnkind, hnbank⟩
    exact hapart hmplaced hnplaced (hmkind.trans hnkind.symm) (hmbank.trans hnbank.symm)

theorem bytesOf_le (k : RegionKind) (bank : UInt32) :
    bytesOf (inBank sections k bank) ≤ (map.region k).size.toNat := by
  have hcard := h.card_vacancy_add k bank
  omega

/-- No more banks are in use than the region has. -/
theorem length_usedBanks_le (k : RegionKind) :
    (usedBanks sections k).length ≤ (map.region k).bankCount.toNat := by
  have hnodup : ((usedBanks sections k).map UInt32.toNat).Nodup :=
    nodup_usedBanks.map fun _ _ => UInt32.toNat_inj.mp
  have hsub : ((usedBanks sections k).map UInt32.toNat).toFinset
      ⊆ Finset.Ico (map.region k).firstBank.toNat
        ((map.region k).firstBank.toNat + (map.region k).bankCount.toNat) := by
    intro n hn
    rw [List.mem_toFinset, List.mem_map] at hn
    rcases hn with ⟨bank, hbank, rfl⟩
    rcases mem_usedBanks.mp hbank with ⟨m, hm, rfl⟩
    rcases mem_placedIn.mp hm with ⟨hmem, hplaced, rfl⟩
    exact Finset.mem_Ico.mpr (h.hasBank hmem hplaced)
  have hcard := Finset.card_le_card hsub
  rw [List.toFinset_card_of_nodup hnodup, List.length_map, Nat.card_Ico] at hcard
  omega

/-- A section is placed in a region of the map file. -/
theorem kind_mem {m : Merged} (hm : m ∈ sections) (hplaced : m.placed = true) :
    m.kind ∈ regionOrder := by
  have hall : ∀ k ∈ RegionKind.all, k ∈ regionOrder := by decide
  apply hall
  apply RegionKind.mem_all_of_isKnown
  by_contra hunknown
  have hbank := h.hasBank hm hplaced
  rw [map.region_of_not_isKnown hunknown] at hbank
  exact absurd hbank.2 (Nat.not_lt_zero _)

/-! ### Blocks -/

/-- A section is listed with its own addresses, the last of which does not wrap around. -/
theorem prints_sectionLine {m : Merged} (hm : m ∈ sections) (hplaced : m.placed = true) :
    (lineOfSection m).Prints (sectionLine m) := by
  rcases h.safe m hm hplaced with ⟨_, hsafe⟩
  have hstop := hsafe.stop_le
  have hbounds := map.region_bounds m.kind
  have hsize : m.size = 0 ↔ m.size.toNat = 0 := UInt32.toNat_inj (b := 0).symm
  refine ⟨rfl, ?_⟩
  unfold lineOfSection sectionLine
  dsimp only
  by_cases hzero : m.size = 0
  · rw [if_pos hzero, if_pos (hsize.mp hzero)]
    apply prints_concat
    simp [hex, Numeral.shows_hexUpper]
  · have hone : (1 : UInt32).toNat = 1 := rfl
    have hstop : m.stop.toNat = m.org.toNat + m.size.toNat := by
      unfold Merged.stop
      rw [UInt32.toNat_add, UInt16.toNat_toUInt32]
      omega
    have hlast : (m.stop - 1).toNat = m.org.toNat + m.size.toNat - 1 := by
      have hpos : m.size.toNat ≠ 0 := fun h => hzero (hsize.mpr h)
      rw [UInt32.toNat_sub_of_le _ _ (UInt32.le_iff_toNat_le.mpr (by omega)), hstop, hone]
    rw [if_neg hzero, if_neg fun h => hzero (hsize.mpr h)]
    apply prints_concat
    simp [hex, hlast, Numeral.shows_hexUpper]

theorem prints_sectionBlock (labels : List PlacedLabel) {m : Merged} (hm : m ∈ sections)
    (hplaced : m.placed = true) :
    List.Forall₂ Line.Prints (linesOfSection labels m) (sectionBlock labels m) := by
  apply List.Forall₂.cons (h.prints_sectionLine hm hplaced)
  apply forall₂_flatMap
  intro x _
  rw [List.forall₂_map_left_iff, List.forall₂_map_right_iff]
  exact List.forall₂_same.mpr fun l _ => prints_labelLine l

/-- The block of a bank is listed with the right number of free bytes. -/
theorem prints_bankBlock (labels : List PlacedLabel) (k : RegionKind) (bank : UInt32) :
    List.Forall₂ Line.Prints ((block map sections k bank).lines labels)
      (bankBlock map sections labels k bank) := by
  have hle := h.bytesOf_le k bank
  have hbounds := (map.region_bounds k).1
  have hused : (usedBytes (inBank sections k bank)).toNat = bytesOf (inBank sections k bank) :=
    toNat_usedBytes (by omega)
  have hfree : ((map.region k).size - usedBytes (inBank sections k bank)).toNat
      = (block map sections k bank).free := by
    rw [UInt32.toNat_sub_of_le _ _ (UInt32.le_iff_toNat_le.mpr (hused ▸ hle)), hused]
    rfl
  unfold bankBlock Block.lines
  refine List.Forall₂.cons ⟨rfl, ?_⟩ (List.rel_append ?_ ?_)
  · apply prints_concat
    simp [block, Numeral.shows_decimal]
  · apply forall₂_flatMap
    intro m hm
    rcases mem_inBank.mp hm with ⟨hmem, hplaced, -⟩
    exact h.prints_sectionBlock labels hmem hplaced
  · refine List.Forall₂.cons ⟨rfl, ?_⟩ List.Forall₂.nil
    apply prints_concat
    simp [hex, hfree, Numeral.shows_hexUpper]

/-- The blocks of a region use no more than its banks have. -/
theorem sum_used_le (k : RegionKind) : ((blocksOf map sections k).map Block.used).sum
    ≤ (map.region k).size.toNat * (blocksOf map sections k).length := by
  have hle : ∀ n ∈ (blocksOf map sections k).map Block.used, n ≤ (map.region k).size.toNat := by
    intro n hn
    rcases List.mem_map.mp hn with ⟨b, hb, rfl⟩
    rcases List.mem_map.mp hb with ⟨bank, -, rfl⟩
    exact h.bytesOf_le k bank
  have hsum := List.sum_le_card_nsmul _ _ hle
  rwa [List.length_map, smul_eq_mul, Nat.mul_comm] at hsum

theorem usage_used_le (k : RegionKind) : (usage map sections k).used
    ≤ (map.region k).size.toNat * (usage map sections k).banks :=
  (h.sum_used_le k).trans (Nat.mul_le_mul_left _ (le_max_left _ 1))

/-- What a region has in the banks that are counted fits into a word. -/
theorem size_mul_banks_lt (k : RegionKind) : (usage map sections k).banks ≤ 2 ^ 10
    ∧ (map.region k).size.toNat * (usage map sections k).banks < 2 ^ 32 := by
  have hbounds := map.region_bounds k
  have hcount := h.length_usedBanks_le k
  have hbanks := banks_usage map sections k
  have hfew : (usage map sections k).banks ≤ 2 ^ 10 := by omega
  refine ⟨hfew, ?_⟩
  calc (map.region k).size.toNat * (usage map sections k).banks
    _ ≤ 2 ^ 16 * 2 ^ 10 := Nat.mul_le_mul (by omega) hfew
    _ < 2 ^ 32 := by decide

theorem toNat_used (k : RegionKind) :
    (((usedBanks sections k).map fun b => usedBytes (inBank sections k b)).foldl (· + ·) 0).toNat
      = (usage map sections k).used := by
  have hle := h.usage_used_le k
  have htotal := (h.size_mul_banks_lt k).2
  have hbounds := (map.region_bounds k).1
  have hwords : (((usedBanks sections k).map fun b => usedBytes (inBank sections k b)).map
      UInt32.toNat).sum = (usage map sections k).used := by
    show _ = ((blocksOf map sections k).map Block.used).sum
    unfold blocksOf
    rw [List.map_map, List.map_map]
    congr 1
    apply List.map_congr_left
    intro bank _
    have hbank := h.bytesOf_le k bank
    exact toNat_usedBytes (by omega)
  have hadd := toNat_foldl_add
    ((usedBanks sections k).map fun b => usedBytes (inBank sections k b)) (n := 0)
  rw [hwords, UInt32.toNat_zero, Nat.zero_add] at hadd
  exact hadd (by omega)

theorem toNat_total (k : RegionKind) :
    ((map.region k).size * (max (usedBanks sections k).length 1).toUInt32).toNat
      = (map.region k).size.toNat * (usage map sections k).banks := by
  rcases h.size_mul_banks_lt k with ⟨hfew, htotal⟩
  rw [UInt32.toNat_mul, ← banks_usage map, Nat.toUInt32_eq,
    UInt32.toNat_ofNat_of_lt' (lt_of_le_of_lt hfew (by decide)), Nat.mod_eq_of_lt htotal]

/-- The line of a region shows the sums without wrapping around. -/
theorem prints_summaryLine (k : RegionKind) :
    (usage map sections k).line.Prints (summaryLine map sections k) := by
  have hused := h.toNat_used k
  have htotal := h.toNat_total k
  have hle : ((usedBanks sections k).map fun b => usedBytes (inBank sections k b)).foldl (· + ·) 0
      ≤ (map.region k).size * (max (usedBanks sections k).length 1).toUInt32 := by
    rw [UInt32.le_iff_toNat_le, hused, htotal]
    exact h.usage_used_le k
  have hkind : (usage map sections k).kind = k := rfl
  have hfree : (usage map sections k).free = (map.region k).size.toNat
      * (usage map sections k).banks - (usage map sections k).used := rfl
  refine ⟨rfl, ?_⟩
  unfold summaryLine Usage.line hex
  dsimp only
  rw [UInt32.toNat_sub_of_le _ _ hle, hused, htotal, ← banks_usage map, hfree, hkind]
  apply prints_concat
  simp [Numeral.shows_hexUpper, Numeral.shows_decimal]

/-- The map file shows these lines and blocks. -/
theorem prints_listing (labels : List PlacedLabel) :
    List.Forall₂ Line.Prints (report labels (usages map sections) (blocks map sections))
      (listing map sections labels) := by
  have hblocks : (blocks map sections).flatMap (Block.lines labels)
      = regionOrder.flatMap fun k => (usedBanks sections k).flatMap fun bank =>
        (block map sections k bank).lines labels := by
    unfold blocks blocksOf
    rw [List.flatMap_assoc]
    apply List.flatMap_congr
    intro k _
    rw [List.flatMap_map]
  unfold listing summary report usages
  rw [hblocks]
  refine List.rel_append (List.rel_append (List.Forall₂.cons ⟨rfl, prints_text _⟩ ?_) ?_) ?_
  · rw [List.map_map, List.forall₂_map_left_iff, List.forall₂_map_right_iff]
    exact List.forall₂_same.mpr fun k _ => h.prints_summaryLine k
  · exact List.Forall₂.cons ⟨rfl, prints_text _⟩ List.Forall₂.nil
  · exact forall₂_flatMap fun k _ => forall₂_flatMap fun bank _ => h.prints_bankBlock labels k bank

/-! ### The account -/

/-- No placed section is lost, and none is listed twice. -/
theorem listed : ((blocks map sections).flatMap Block.sections).Perm
    (sections.filter Merged.placed) := by
  have hflat : (blocks map sections).flatMap Block.sections
      = regionOrder.flatMap fun k => (usedBanks sections k).flatMap (inBank sections k) := by
    unfold blocks blocksOf
    rw [List.flatMap_assoc]
    apply List.flatMap_congr
    intro k _
    rw [List.flatMap_map]
    rfl
  have hregion : ∀ k, ((usedBanks sections k).flatMap (inBank sections k)).Perm
      ((sections.filter Merged.placed).filter (·.kind = k)) := by
    intro k
    have hplaced : (sections.filter Merged.placed).filter (·.kind = k) = placedIn sections k := by
      unfold placedIn
      rw [List.filter_filter]
      exact List.filter_congr fun m _ => Bool.and_comm _ _
    rw [hplaced]
    have hgroups := flatMap_filter_perm nodup_usedBanks
      fun m (hm : m ∈ placedIn sections k) => mem_usedBanks.mpr ⟨m, hm, rfl⟩
    refine (List.Perm.flatMap_left _ ?_).trans hgroups
    intro bank _
    exact List.mergeSort_perm _ _
  have hkinds : regionOrder.Nodup := by decide
  -- the sections are grouped by region, and those of a region by bank
  rw [hflat]
  refine (List.Perm.flatMap_left _ fun k _ => hregion k).trans ?_
  apply flatMap_filter_perm hkinds
  intro m hm
  rw [List.mem_filter] at hm
  exact h.kind_mem hm.1 hm.2

end Disposed

theorem mem_blocks {b : Block} : b ∈ blocks map sections
    ↔ ∃ k ∈ regionOrder, ∃ bank ∈ usedBanks sections k, block map sections k bank = b := by
  unfold blocks blocksOf
  simp only [List.mem_flatMap, List.mem_map]

/-- The blocks of a region are found in the map file by their kind. -/
theorem filter_blocks (hk : k ∈ regionOrder) :
    (blocks map sections).filter (·.kind = k) = blocksOf map sections k := by
  have hkinds : regionOrder.Nodup := by decide
  have hkind : ∀ l, ∀ b ∈ blocksOf map sections l, b.kind = l := by
    intro l b hb
    rcases List.mem_map.mp hb with ⟨bank, -, rfl⟩
    rfl
  unfold blocks
  rw [filter_flatMap_eq hkinds hkind, if_pos hk]

theorem pairwise_blocks : (blocks map sections).Pairwise Block.Before := by
  unfold blocks
  rw [List.pairwise_flatMap]
  constructor
  · intro k _
    unfold blocksOf
    rw [List.pairwise_map]
    exact pairwise_usedBanks.imp fun hlt => Or.inr ⟨rfl, hlt⟩
  · have hkinds : regionOrder.Pairwise fun k l =>
        regionOrder.idxOf k < regionOrder.idxOf l := by decide
    refine hkinds.imp ?_
    intro k l hlt b hb c hc
    rcases List.mem_map.mp hb with ⟨_, -, rfl⟩
    rcases List.mem_map.mp hc with ⟨_, -, rfl⟩
    exact Or.inl hlt

theorem Disposed.accounts (h : Disposed map sections) :
    Accounts map sections (usages map sections) (blocks map sections) where
  listed := h.listed
  own b hb m hm := by
    rcases mem_blocks.mp hb with ⟨k, -, bank, -, rfl⟩
    exact (mem_inBank.mp hm).2.2
  ordered := pairwise_blocks
  nonempty b hb := by
    rcases mem_blocks.mp hb with ⟨k, -, bank, hbank, rfl⟩
    rcases mem_usedBanks.mp hbank with ⟨m, hm, hmbank⟩
    rcases mem_placedIn.mp hm with ⟨hmem, hplaced, hkind⟩
    exact List.ne_nil_of_mem (mem_inBank.mpr ⟨hmem, hplaced, hkind, hmbank⟩)
  ascending b hb := by
    rcases mem_blocks.mp hb with ⟨k, -, bank, -, rfl⟩
    exact pairwise_inBank
  free_eq b hb := by
    rcases mem_blocks.mp hb with ⟨k, -, bank, -, rfl⟩
    have hcard := h.card_vacancy_add k bank
    show (map.region k).size.toNat - bytesOf (inBank sections k bank)
      = (vacancy (map.region k) (placedAt sections k bank)).card
    omega
  used_add_free b hb := by
    rcases mem_blocks.mp hb with ⟨k, -, bank, -, rfl⟩
    exact Nat.add_sub_of_le (h.bytesOf_le k bank)
  lines := by
    unfold usages
    rw [List.map_map]
    exact List.map_id _
  banks_eq u hu := by
    rcases List.mem_map.mp hu with ⟨k, hk, rfl⟩
    show _ = max ((blocks map sections).filter (·.kind = k)).length 1
    rw [filter_blocks (List.mem_of_mem_filter hk)]
    rfl
  used_eq u hu := by
    rcases List.mem_map.mp hu with ⟨k, hk, rfl⟩
    show _ = (((blocks map sections).filter (·.kind = k)).map Block.used).sum
    rw [filter_blocks (List.mem_of_mem_filter hk)]
    rfl
  total_eq u hu := by
    rcases List.mem_map.mp hu with ⟨k, -, rfl⟩
    exact Nat.add_sub_of_le (h.usage_used_le k)

/-- **The map file accounts for every byte.** Let an assignment go through sections, whatever the
memory map is, and let no section count as placed but by it. The map file of these sections, in
whatever order they stand and whatever labels they have, lists each placed one once in the block of
its bank; it shows as free in a bank as many bytes as the bank has addresses without a section; and
what the summary shows as used and as free in a region adds up to what the banks of the region
have. -/
theorem listing_of_assign {outcomes : List Outcome} (hperm : outcomes.Perm (assign map sections))
    (halign : ∀ m ∈ sections, m.align.toNat ≤ 16)
    (hplaced : ∀ o ∈ outcomes, o.after.placed = true → ∃ loc, o.result = .ok loc)
    (labels : List PlacedLabel) :
    List.Forall₂ Line.Prints
        (report labels (usages map (outcomes.map Outcome.after))
          (blocks map (outcomes.map Outcome.after)))
        (listing map (outcomes.map Outcome.after) labels)
      ∧ Accounts map (outcomes.map Outcome.after) (usages map (outcomes.map Outcome.after))
        (blocks map (outcomes.map Outcome.after)) := by
  have hdisposed := disposed_of_assign hperm halign hplaced
  exact ⟨hdisposed.prints_listing labels, hdisposed.accounts⟩

/-- The two sections of the pair leave a gap of 13 bytes, which is free like the rest of ROM0. -/
theorem listing_of_assign_romPair : ∃ placed,
    (assign {} Linker.romPair.sections).map Outcome.after = placed
      ∧ (blocks {} placed).map (fun b => (b.kind, b.bank, b.sections.map (·.org), b.free))
        = [(.rom0, 0, [0, 16], 0x3FED)]
      ∧ (usages {} placed).map (fun u => (u.used, u.banks)) =
        [(19, 1), (0, 1), (0, 1), (0, 1), (0, 1), (0, 1), (0, 1), (0, 1)]
      ∧ (listing {} placed []).filter (fun p => p.purpose = ("writing map section" : Bytes)) = [
        ⟨"writing map section", "\tSECTION: $0000-$0002 ($0003 bytes) [\"a\"]\n"⟩,
        ⟨"writing map section", "\tSECTION: $0010-$001F ($0010 bytes) [\"b\"]\n"⟩]
      ∧ List.Forall₂ Line.Prints (report [] (usages {} placed) (blocks {} placed))
        (listing {} placed [])
      ∧ Accounts {} placed (usages {} placed) (blocks {} placed) := by
  have hsections : Linker.romPair.sections.map (fun m => (m.align, m.placed))
      = [(0, false), (4, false)] := by cbv
  have hplain : ∀ m ∈ Linker.romPair.sections, m.align.toNat ≤ 16 ∧ m.placed = false := by
    intro m hm
    have hmem := List.mem_map_of_mem (f := fun m : Merged => (m.align, m.placed)) hm
    rw [hsections, List.mem_pair] at hmem
    rcases hmem with h | h
    · rw [(Prod.mk.inj h).1, (Prod.mk.inj h).2]
      decide
    · rw [(Prod.mk.inj h).1, (Prod.mk.inj h).2]
      decide
  have hvia := listing_of_assign (List.Perm.refl (assign {} Linker.romPair.sections))
    (fun m hm => (hplain m hm).1) (fun o ho => Outcome.exists_ok_of_placed ?_) []
  · exact ⟨_, rfl, by cbv, by cbv, by cbv, hvia⟩
  · have hmem := (Placement.subjects_assign {} Linker.romPair.sections).mem_iff.mp
      (List.mem_map_of_mem ho)
    exact (hplain _ hmem).2

end MapFile

end BankedLinker
