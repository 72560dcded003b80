import BankedLinker.Proofs.RoundTrip
import BankedLinker.Proofs.Success

/-!
# The size of a section of fragments

Fragments follow each other, so that their merged section is as large as all of them together. It
counts its size in a word, and a region is compared with that count. So fragments that are too
large together are found as long as their sum fits into a word; a sum beyond that starts again from
zero, and a section that is far too large may look small enough.

* `namedSize`: how large the sections of a name are together;
* `Registry.Tallied` is the invariant of merging without a conflict, `Registry.tallied_add` its
  step and `Registry.tallied_addAll` its run;
* `Linker.fragments_fit_of_link`: how large a section of fragments is after a successful run, and
  which ones make a run fail;
* `Linker.exists_link_of_loose`: fragments without wishes whose sums are multiples of the word are
  linked, however large they are.
-/

namespace BankedLinker

/-! ## Sums of sizes -/

/-- The number of bytes of all sections of a name. -/
def namedSize (calls : List (ObjectFile × Section)) (name : Bytes) : ℕ :=
  totalSize (calls.filter fun call => call.2.name = name)

section NamedSize

variable {calls : List (ObjectFile × Section)} {f : ObjectFile} {s : Section} {name : Bytes}

theorem namedSize_concat_of_eq (h : s.name = name) :
    namedSize (calls ++ [(f, s)]) name = namedSize calls name + s.size.toNat := by
  simp [namedSize, totalSize, h]

theorem namedSize_concat_of_ne (h : s.name ≠ name) :
    namedSize (calls ++ [(f, s)]) name = namedSize calls name := by
  simp [namedSize, h]

end NamedSize

namespace Merged

variable {m : Merged} {f : ObjectFile} {s : Section}

@[simp] theorem size_newMember (m : Merged) (f : ObjectFile) (s : Section) :
    (m.newMember f s).content.size = s.size := by
  unfold newMember
  split <;> rfl

/-- A fragment adds its size to that of its merged section, as far as a word can hold it. -/
theorem toNat_size_joined (h : m.modifier = .fragment) :
    (m.joined f s).size.toNat = (m.size.toNat + s.size.toNat) % 2 ^ 32 := by
  have hunion : m.modifier ≠ .union := by
    rw [h]
    decide
  rw [size_joined, size_newMember, grownSize, if_neg hunion, nextOffset, if_pos h,
    UInt32.toNat_add]

end Merged

/-! ## Sequences of merges -/

namespace Registry

/-- What merges without a conflict make of sizes: every section has a merged section of its sort,
and a section of fragments counts what its fragments have together in a word. -/
structure Tallied (calls : List (ObjectFile × Section)) (r : Registry) : Prop where
  indexed : r.Indexed
  nonempty : ∀ m ∈ r.sections, m.members ≠ #[]
  size_eq : ∀ m ∈ r.sections, m.modifier = .fragment →
    m.size.toNat = namedSize calls m.name % 2 ^ 32
  present : ∀ call ∈ calls, ∃ m ∈ r.sections,
    m.name = call.2.name ∧ m.kind = call.2.kind ∧ m.modifier = call.2.modifier

theorem tallied_empty : Tallied [] {} where
  indexed := indexed_empty
  nonempty m hm := by simp at hm
  size_eq m hm := by simp at hm
  present call hcall := by cases hcall

variable {calls : List (ObjectFile × Section)} {r : Registry} {f : ObjectFile} {s : Section}

theorem Tallied.size_slot (hr : r.Tallied calls) {i : ℕ} {m : Merged} (hslot : r.Slot s i m)
    (hm : m.modifier = .fragment) : m.size.toNat = namedSize calls m.name % 2 ^ 32 := by
  cases hslot with
  | known position present _ => exact hr.size_eq m (Array.mem_of_getElem? present) hm
  | fresh position last empty =>
    subst empty
    have hpresent : ∀ call ∈ calls, ∃ m ∈ r.sections, m.name = call.2.name := by
      intro call hcall
      obtain ⟨m, hm, hname, -⟩ := hr.present call hcall
      exact ⟨m, hm, hname⟩
    have hnone := filter_eq_nil_of_fresh hr.indexed hpresent position
    show 0 = totalSize (calls.filter fun call => call.2.name = s.name) % 2 ^ 32
    rw [hnone]
    rfl

/-- The step: one more section is merged. -/
theorem tallied_add (hr : r.Tallied calls) (hadd : (r.add f s).2 = none) :
    (r.add f s).1.Tallied (calls ++ [(f, s)]) := by
  have hindexed := indexed_add hr.indexed f s
  obtain ⟨conflict, -, h⟩ | ⟨i, m, r', hslot, hadmits, ⟨wish, -, h, -⟩ | ⟨-, h, hputs⟩⟩ :=
    add_cases hr.indexed f s
  · rw [h] at hadd
    cases hadd
  · rw [h] at hadd
    cases hadd
  rw [h] at hindexed ⊢
  have hkin := kindred_of_slot hr.nonempty hslot hadmits
  refine ⟨hindexed, ?_, ?_, ?_⟩
  · intro n hn
    obtain rfl | ⟨hn, -⟩ := hputs.mem_cases hindexed hn
    · rw [Merged.members_joined]
      exact Array.push_ne_empty
    · exact hr.nonempty n hn
  · intro n hn hfragment
    obtain rfl | ⟨hn, hne⟩ := hputs.mem_cases hindexed hn
    · rw [Merged.modifier_joined] at hfragment
      rw [Merged.toNat_size_joined hfragment, hr.size_slot hslot hfragment, Merged.name_joined,
        namedSize_concat_of_eq hkin.name_eq.symm, Nat.mod_add_mod]
    · rw [Merged.name_joined, hkin.name_eq] at hne
      rw [hr.size_eq n hn hfragment, namedSize_concat_of_ne hne.symm]
  · intro call hcall
    rcases List.mem_append.mp hcall with hcall | hcall
    · obtain ⟨n, hn, hname, hkind, hmodifier⟩ := hr.present call hcall
      obtain hn' | rfl := hputs.mem_or_eq hslot hn
      · exact ⟨n, hn', hname, hkind, hmodifier⟩
      · exact ⟨n.joined f s, hputs.mem, by simp [hname], by simp [hkind], by simp [hmodifier]⟩
    · rw [List.mem_singleton.mp hcall]
      exact ⟨m.joined f s, hputs.mem, by simp [hkin.name_eq], by simp [hkin.kind_eq],
        by simp [hkin.modifier_eq]⟩

/-- The run: all sections of a sequence are merged. -/
theorem tallied_addAll (hmerged : AllMerged {} calls) : (addAll {} calls).Tallied calls :=
  addAll_induction (P := fun done r => r.Tallied done) hmerged tallied_empty
    fun _ _ _ _ _ hr hadd => tallied_add hr hadd

end Registry

/-! ## Fragments without wishes -/

/-- A fragment that may be placed anywhere in its region. -/
structure Section.IsLoose (kind : RegionKind) (s : Section) : Prop where
  kind_eq : s.kind = kind
  modifier_eq : s.modifier = .fragment
  org_eq : s.org = none
  bank_eq : s.bank = none
  align_eq : s.align = 0

/-- A section of fragments that may be placed anywhere in its region. -/
structure Merged.IsLoose (kind : RegionKind) (m : Merged) : Prop where
  kind_eq : m.kind = kind
  modifier_eq : m.modifier = .fragment
  toConstraints_eq : m.toConstraints = {}

theorem Constraints.absorb_of_loose {kind : RegionKind} {s : Section} (hs : s.IsLoose kind)
    (c : Constraints) (offset : UInt32) : c.absorb s offset = (c, none) := by
  have halign : ¬0 < s.align := by
    rw [hs.align_eq]
    decide
  unfold absorb absorbBank absorbPlace
  rw [hs.bank_eq, hs.org_eq]
  dsimp only
  rw [if_neg halign]

namespace Merged

variable {kind : RegionKind} {m : Merged} {f : ObjectFile} {s : Section}

theorem isLoose_newMember (hs : s.IsLoose kind) : (m.newMember f s).content.IsLoose kind := by
  unfold newMember
  split
  · exact hs
  · refine ⟨hs.kind_eq, hs.modifier_eq, ?_, ?_, hs.align_eq⟩
    · show s.org.map _ = none
      rw [hs.org_eq, Option.map_none]
    · show s.bank.map _ = none
      rw [hs.bank_eq, Option.map_none]

theorem unmetWish?_of_loose (hs : s.IsLoose kind) : m.unmetWish? f s = none := by
  unfold unmetWish?
  dsimp only
  rw [Constraints.absorb_of_loose (isLoose_newMember hs)]

theorem IsLoose.refused (hm : m.IsLoose kind) (hs : s.IsLoose kind) :
    (m.refused f s).IsLoose kind := by
  refine ⟨hm.kind_eq, hm.modifier_eq, ?_⟩
  show (m.absorb _ _).1 = {}
  rw [Constraints.absorb_of_loose (isLoose_newMember hs)]
  exact hm.toConstraints_eq

theorem IsLoose.joined (hm : m.IsLoose kind) (hs : s.IsLoose kind) :
    (m.joined f s).IsLoose kind := by
  refine ⟨?_, ?_, ?_⟩
  · rw [kind_joined, hm.kind_eq]
  · rw [modifier_joined, hm.modifier_eq]
  · show (m.absorb _ _).1 = {}
    rw [Constraints.absorb_of_loose (isLoose_newMember hs)]
    exact hm.toConstraints_eq

/-- Loose fragments are of one sort. -/
theorem IsLoose.checkKinship_eq (hm : m.IsLoose kind) (hs : s.IsLoose kind) :
    Registry.checkKinship m s = none := by
  have hnormal : s.modifier ≠ .normal := by
    rw [hs.modifier_eq]
    decide
  unfold Registry.checkKinship
  split
  · rfl
  · rw [if_neg (not_not.mpr (hm.kind_eq.trans hs.kind_eq.symm)),
      if_neg (not_not.mpr (hm.modifier_eq.trans hs.modifier_eq.symm)), if_neg hnormal]

end Merged

namespace Registry

variable {kind : RegionKind} {calls : List (ObjectFile × Section)} {r : Registry} {f : ObjectFile}
  {s : Section}

/-- The step: a loose fragment can always be merged, and what it joins stays loose. -/
theorem add_of_loose (hr : r.Indexed) (hloose : ∀ m ∈ r.sections, m.IsLoose kind)
    (hs : s.IsLoose kind) :
    (r.add f s).2 = none ∧ ∀ m ∈ (r.add f s).1.sections, m.IsLoose kind := by
  refine ⟨?_, forall_add hr hloose ⟨hs.kind_eq, hs.modifier_eq, rfl⟩
    (fun m hm _ => hm.refused hs) fun m hm _ _ => hm.joined hs⟩
  obtain ⟨conflict, hrefuses, -⟩ | ⟨i, m, r', -, -, ⟨wish, hwish, -⟩ | ⟨-, h, -⟩⟩ :=
    add_cases hr f s
  · cases hrefuses with
    | unstorable union _ =>
      rw [hs.modifier_eq] at union
      exact absurd union (by decide)
    | unrelated mem _ kinship =>
      rw [(hloose _ mem).checkKinship_eq hs] at kinship
      cases kinship
  · rw [Merged.unmetWish?_of_loose hs] at hwish
    cases hwish
  · rw [h]

/-- The run: loose fragments of one region can always be merged. -/
theorem allMerged_of_loose (hcalls : ∀ call ∈ calls, call.2.IsLoose kind) (hr : r.Indexed)
    (hloose : ∀ m ∈ r.sections, m.IsLoose kind) :
    r.AllMerged calls ∧ ∀ m ∈ (r.addAll calls).sections, m.IsLoose kind := by
  induction calls generalizing r with
  | nil => exact ⟨trivial, hloose⟩
  | cons call rest ih =>
    obtain ⟨hadd, hloose'⟩ := add_of_loose (f := call.1) hr hloose (hcalls call List.mem_cons_self)
    obtain ⟨hrest, hloose''⟩ := ih (fun c hc => hcalls c (List.mem_cons_of_mem _ hc))
      (indexed_add hr _ _) hloose'
    exact ⟨⟨hadd, hrest⟩, hloose''⟩

end Registry

namespace Placement

variable {kind : RegionKind} {map : MemoryMap} {m : Merged}

theorem rejection?_of_loose (hbanks : (map.region kind).bankCount ≠ 0) (hm : m.IsLoose kind)
    (hsize : m.size = 0) : rejection? map m = none := by
  have hvalid : validate map m = .ok () := by
    unfold validate
    simp [hm.kind_eq, hm.toConstraints_eq, hbanks, hsize]
  unfold rejection?
  rw [hvalid]

/-- A section without addresses and wishes finds a place, whatever is free. -/
theorem placeFloating_of_loose (hm : m.IsLoose kind) (hsize : m.size = 0) (l : Ledger) :
    ∃ placed, placeFloating l m = .ok placed := by
  have hfallback : m.size = 0 ∧ (!m.orgFixed) = true := by
    rw [hm.toConstraints_eq]
    exact ⟨hsize, rfl⟩
  unfold placeFloating
  dsimp only
  split
  · exact ⟨_, rfl⟩
  · rw [if_pos hfallback]
    exact ⟨_, rfl⟩

theorem placeAll_of_placeOne
    {placeOne : Ledger → Merged → Except PlacementError (Location × Ledger)} {ms : List Merged}
    (h : ∀ m ∈ ms, ∀ l, ∃ placed, placeOne l m = .ok placed) (l : Ledger) :
    ∀ o ∈ (placeAll placeOne l ms).1, ∃ loc, o.result = .ok loc := by
  induction ms generalizing l with
  | nil => exact fun o ho => nomatch ho
  | cons m rest ih =>
    obtain ⟨⟨loc, l'⟩, hplaced⟩ := h m List.mem_cons_self l
    intro o ho
    unfold placeAll at ho
    rw [hplaced] at ho
    rcases List.mem_cons.mp ho with rfl | ho
    · exact ⟨loc, rfl⟩
    · exact ih (fun n hn => h n (List.mem_cons_of_mem _ hn)) l' o ho

/-- Sections without addresses and wishes are all placed. -/
theorem assign_of_loose {sections : List Merged} (hbanks : (map.region kind).bankCount ≠ 0)
    (hsections : ∀ m ∈ sections, m.IsLoose kind ∧ m.size = 0) :
    ∀ o ∈ assign map sections, ∃ loc, o.result = .ok loc := by
  have hrejected : sections.filterMap (rejection? map) = [] := by
    rw [List.filterMap_eq_nil_iff]
    intro m hm
    exact rejection?_of_loose hbanks (hsections m hm).1 (hsections m hm).2
  have hfixed : (sections.filter fun m => (rejection? map m).isNone).filter (isFixed map) = [] := by
    rw [List.filter_eq_nil_iff]
    intro m hm
    rw [isFixed, (hsections m (List.mem_filter.mp hm).1).1.toConstraints_eq]
    exact Bool.false_ne_true
  unfold assign
  simp only [List.partition_eq_filter_filter, hrejected, hfixed, List.mergeSort_nil, placeAll,
    List.nil_append]
  refine placeAll_of_placeOne (fun m hm l => ?_) _
  have hmem := (List.mem_filter.mp (List.mem_filter.mp (List.mem_mergeSort.mp hm)).1).1
  exact placeFloating_of_loose (hsections m hmem).1 (hsections m hmem).2 l

end Placement

namespace Linker

variable {map : MemoryMap} {warnings : WarningOptions} {files : List ObjectFile}

/-! ## Fragments that are found -/

/-- After a successful run there is one merged section for all fragments of a name. It fits into its
region and has the size that a word holds of the sum of the fragments. -/
theorem exists_section_of_fragment {pad : UInt8} {cancellation : Cancellation} {looks : ℕ}
    {lk : Linker} {program : Program} (hfiles : ∀ f ∈ files, f.WellFormed)
    (hlink : (start map warnings files).link pad cancellation looks = (lk, .ok program))
    {f : ObjectFile} {s : Section} (hcall : (f, s) ∈ callsOf files)
    (hfragment : s.modifier = .fragment) :
    ∃ m ∈ program.sections, m.name = s.name ∧ m.kind = s.kind ∧ m.modifier = .fragment
      ∧ (∀ n ∈ program.sections, n.name = s.name → n = m)
      ∧ m.size.toNat = namedSize (callsOf files) s.name % 2 ^ 32
      ∧ m.size.toNat ≤ (map.region s.kind).size.toNat := by
  obtain ⟨collected, hregistry, hmerged, rfl, hclean, houtline, -, hsections, -⟩ :=
    run_of_link hlink
  have htallied : collected.registry.Tallied (callsOf files) := by
    rw [hregistry]
    exact Registry.tallied_addAll hmerged
  have hassignable : collected.Assignable := by
    refine assignable_of_addAll hregistry ?_
    rintro ⟨g, t⟩ hcall
    obtain ⟨hg, ht⟩ := mem_callsOf.mp hcall
    exact ((hfiles g hg).wellFormed t ht).align_le
  have hresult : lk.registry.outline = collected.assign.registry.outline :=
    congrArg Linker.registry houtline
  -- the merged section of the name is placed, and patches change its bytes only
  obtain ⟨m, hm, hname, hkind, hmodifier⟩ := htallied.present (f, s) hcall
  obtain ⟨i, hi⟩ := Array.mem_iff_getElem?.mp hm
  obtain ⟨before, loc, hplaced, -⟩ := placed_of_clean hassignable hclean hi
  obtain ⟨n, data, tail, hn, -⟩ := Registry.section_of_outline_eq hresult.symm hplaced
  obtain ⟨m', before, loc, data, tail, hm', -, hsettled, rfl⟩ :=
    section_of_result hassignable hclean hresult hn
  obtain rfl : m' = m := Option.some.inj (hm'.symm.trans hi)
  refine ⟨{ m'.place loc.org loc.bank with data, tail }, ?_, hname, hkind,
    hmodifier.trans hfragment, ?_, ?_, ?_⟩
  · rw [hsections]
    exact Array.mem_toList_iff.mpr (Array.mem_of_getElem? hn)
  · intro other hother hsame
    rw [hsections] at hother
    obtain ⟨j, hj⟩ := Array.mem_iff_getElem?.mp (Array.mem_toList_iff.mp hother)
    obtain ⟨c, _, loc', data', tail', hc, -, -, rfl⟩ :=
      section_of_result hassignable hclean hresult hj
    -- a name has one position
    have hposition := htallied.indexed.position_eq hc
    rw [show c.name = m'.name from hsame.trans hname.symm, htallied.indexed.position_eq hi]
      at hposition
    obtain rfl := Option.some.inj hposition
    exact Option.some.inj (hj.symm.trans hn)
  · show m'.size.toNat = _
    rw [htallied.size_eq m' hm (hmodifier.trans hfragment), hname]
  · have hstart := hsettled.start_le
    have hstop := hsettled.stop_le
    have hregion : collected.map.region m'.kind = collected.map.region s.kind := by rw [hkind]
    rw [hregion] at hstart hstop
    show m'.size.toNat ≤ _
    omega

/-! ## Fragments that are missed -/

/-- Files with nothing but loose fragments of one region are linked if the sums of their sizes are
multiples of what a word can hold: their merged sections look empty. -/
theorem exists_link_of_loose {kind : RegionKind} (hbanks : (map.region kind).bankCount ≠ 0)
    (hfiles : ∀ f ∈ files, f.symbols = [] ∧ f.assertions = []
      ∧ ∀ s ∈ f.sections, s.IsLoose kind ∧ s.patches = [])
    (hsums : ∀ name, 2 ^ 32 ∣ namedSize (callsOf files) name)
    (pad : UInt8) (looks : ℕ) :
    ∃ lk program, (start map warnings files).link pad {} looks = (lk, .ok program) := by
  have hpatches : ∀ f ∈ files, ∀ s ∈ f.sections, ∀ p, p ∉ s.patches := by
    intro f hf s hs p
    rw [((hfiles f hf).2.2 s hs).2]
    exact List.not_mem_nil
  have hassertions : ∀ f ∈ files, ∀ a, a ∉ f.assertions := by
    intro f hf a
    rw [(hfiles f hf).2.1]
    exact List.not_mem_nil
  have hadded : SymbolTable.AllAdded {} (definitionsOf files) := by
    have hnone : definitionsOf files = [] := by
      refine List.flatMap_eq_nil_iff.mpr fun f hf => ?_
      rw [(hfiles f hf).1, List.map_nil]
    rw [hnone]
    trivial
  have hcalls : ∀ call ∈ callsOf files, call.2.IsLoose kind := by
    rintro ⟨f, s⟩ hcall
    obtain ⟨hf, hs⟩ := mem_callsOf.mp hcall
    exact ((hfiles f hf).2.2 s hs).1
  obtain ⟨hmerged, hloose⟩ :=
    Registry.allMerged_of_loose hcalls Registry.indexed_empty (by simp)
  have hclean : (files.foldl addFile (start map warnings files)).Clean :=
    clean_merged_iff.mpr ⟨hadded, hmerged⟩
  -- what is left of the sums in a word is nothing, so the merged sections take up no addresses
  have hplaced : (start map warnings files).afterMerging.noteUnresolved.assign.Clean := by
    obtain ⟨hregistry, hmap, -, -, hunresolved⟩ := unresolved_of_clean hclean
    refine clean_foldl_settle_iff.mpr ⟨hunresolved, ?_⟩
    rw [hmap]
    refine Placement.assign_of_loose hbanks fun m hm => ?_
    unfold sections at hm
    rw [hregistry, Array.mem_toList_iff] at hm
    refine ⟨hloose m hm, UInt32.toNat_inj.mp ?_⟩
    rw [(Registry.tallied_addAll hmerged).size_eq m hm (hloose m hm).modifier_eq]
    exact Nat.mod_eq_zero_of_dvd (hsums m.name)
  refine exists_link_iff_flawless_and_inside.mpr ⟨⟨hadded, hmerged, ?_, ?_, ?_, ?_⟩, ?_⟩
  · exact (clean_assigned_iff hclean).mp hplaced
  · exact fun f hf s hs p hp => absurd hp (hpatches f hf s hs p)
  · exact fun f hf a ha => absurd ha (hassertions f hf a)
  · rintro w (⟨f, hf, s, hs, p, hp, -⟩ | ⟨f, hf, a, ha, -⟩)
    · exact absurd hp (hpatches f hf s hs p)
    · exact absurd ha (hassertions f hf a)
  · exact fun f hf s hs p hp => absurd hp (hpatches f hf s hs p)

/-- A fragment of the size of the address space, which may be placed anywhere in WRAM0. -/
def crowdPart (id : UInt32) : Section :=
  { id, name := [], source := some ⟨none, 0⟩, kind := .wram0, modifier := .fragment,
    size := 0x10000, org := none, bank := none, align := 0, alignOffset := 0, data := [],
    patches := [] }

/-- The file with a number `index` that holds `count` such fragments. -/
def crowdFile (count index : ℕ) : ObjectFile :=
  { name := "a.o", index, sections := (List.range count).map fun i => crowdPart i.toUInt32 }

/-- The same fragments in several files. -/
def crowd (files count : ℕ) : List ObjectFile :=
  (List.range files).map (crowdFile count)

theorem isLoose_crowdPart (id : UInt32) : (crowdPart id).IsLoose .wram0 :=
  ⟨rfl, rfl, rfl, rfl, rfl⟩

theorem exists_crowdPart_eq {count index : ℕ} {s : Section}
    (hs : s ∈ (crowdFile count index).sections) : ∃ id, s = crowdPart id := by
  obtain ⟨i, -, rfl⟩ := List.mem_map.mp hs
  exact ⟨i.toUInt32, rfl⟩

theorem crowdPart_mem {files count : ℕ} (hfiles : 0 < files) (hcount : 0 < count) :
    (crowdFile count 0, crowdPart 0) ∈ callsOf (crowd files count) :=
  mem_callsOf.mpr ⟨List.mem_map_of_mem (List.mem_range.mpr hfiles),
    List.mem_map.mpr ⟨0, List.mem_range.mpr hcount, rfl⟩⟩

theorem inFormat_crowdPart {nodes sections index : ℕ} (hindex : index < 2 ^ 32) :
    (crowdPart index.toUInt32).InFormat nodes sections index where
  size_le := Nat.le_refl 0x10000
  align_le := Nat.zero_le 16
  modifier_mem := Or.inr (Or.inr rfl)
  length_data h := by cases h
  patches_eq _ := rfl
  patch_le p hp := by cases hp
  id_eq := UInt32.toNat_ofNat_of_lt' hindex
  text_name := List.not_mem_nil
  source_within := ⟨_, rfl, fun _ h => by cases h⟩
  known_kind := rfl
  bank_ne h := by cases h
  data_eq _ := rfl
  patch_inFormat p hp := by cases hp
  length_patches := Nat.two_pow_pos 32

theorem inFormat_crowdFile {count index : ℕ} (hcount : count < 2 ^ 32) :
    (crowdFile count index).InFormat where
  node_inFormat i n hn := by simp [crowdFile] at hn
  symbol_inFormat s hs := by cases hs
  section_inFormat i s hs := by
    obtain ⟨j, hj, rfl⟩ : ∃ j, (List.range count)[i]? = some j ∧ crowdPart j.toUInt32 = s := by
      simpa [crowdFile] using hs
    obtain ⟨hi, rfl⟩ := List.getElem?_eq_some_iff.mp hj
    rw [List.length_range] at hi
    rw [List.getElem_range]
    exact inFormat_crowdPart (hi.trans hcount)
  assertion_inFormat a ha := by cases ha
  size_nodes := Nat.two_pow_pos 32
  length_symbols := Nat.two_pow_pos 32
  length_sections := by simpa [crowdFile] using hcount
  length_assertions := Nat.two_pow_pos 32

/-- The files are what decoding reads from their written form. -/
theorem exists_decode_crowd {files count : ℕ} (hcount : count < 2 ^ 32) :
    ∀ f ∈ crowd files count, ∃ name input rest,
      Object.decode name f.index input = .ok (f, rest) := by
  intro f hf
  obtain ⟨index, -, rfl⟩ := List.mem_map.mp hf
  have hformat : (crowdFile count index).InFormat := inFormat_crowdFile hcount
  obtain ⟨used, hused⟩ := Object.exists_encode_of_inFormat hformat
  refine ⟨(crowdFile count index).name, used ++ [], [], ?_⟩
  rw [Object.decode_eq_ok_iff_file, Object.Decoder.file_eq_ok_iff]
  exact ⟨⟨rfl, rfl⟩, hformat, used, hused, rfl⟩

theorem namedSize_crowd (files count : ℕ) (name : Bytes) :
    namedSize (callsOf (crowd files count)) name
      = if name = [] then files * count * 0x10000 else 0 := by
  have hparts : ∀ call ∈ callsOf (crowd files count), ∃ id, call.2 = crowdPart id := by
    rintro ⟨f, s⟩ hcall
    obtain ⟨hf, hs⟩ := mem_callsOf.mp hcall
    obtain ⟨index, -, rfl⟩ := List.mem_map.mp hf
    exact exists_crowdPart_eq hs
  have hlength : (callsOf (crowd files count)).length = files * count := by
    simp [callsOf, crowd, crowdFile, List.length_flatMap, Function.comp_def]
  unfold namedSize
  split
  · next hname =>
    have hfilter : (callsOf (crowd files count)).filter (fun call => call.2.name = name)
        = callsOf (crowd files count) := by
      refine List.filter_eq_self.mpr fun call hcall => ?_
      obtain ⟨id, hid⟩ := hparts call hcall
      rw [hid, hname]
      rfl
    have hsizes : (callsOf (crowd files count)).map (fun call => call.2.size.toNat)
        = (callsOf (crowd files count)).map fun _ => 0x10000 := by
      refine List.map_congr_left fun call hcall => ?_
      obtain ⟨id, hid⟩ := hparts call hcall
      rw [hid]
      rfl
    rw [hfilter, totalSize, hsizes, List.map_const', List.sum_replicate, smul_eq_mul, hlength]
  · next hname =>
    have hfilter : (callsOf (crowd files count)).filter (fun call => call.2.name = name) = [] := by
      refine List.filter_eq_nil_iff.mpr fun call hcall => ?_
      obtain ⟨id, hid⟩ := hparts call hcall
      rw [hid, decide_eq_true_iff]
      exact Ne.symm hname
    rw [hfilter]
    rfl

theorem namedSize_crowdPart (files count : ℕ) :
    namedSize (callsOf (crowd files count)) (crowdPart 0).name = files * count * 0x10000 :=
  (namedSize_crowd files count []).trans (if_pos rfl)

/-- The fragments of 256 files have two to the power of 32 bytes together, and are linked. -/
theorem exists_link_crowd :
    ∃ lk program, (start {} {} (crowd 256 256)).link 0xFF {} 0 = (lk, .ok program) := by
  have hbanks : (({} : MemoryMap).region .wram0).bankCount ≠ 0 := by decide
  refine exists_link_of_loose hbanks ?_ ?_ 0xFF 0
  · intro f hf
    obtain ⟨index, -, rfl⟩ := List.mem_map.mp hf
    refine ⟨rfl, rfl, fun s hs => ?_⟩
    obtain ⟨id, rfl⟩ := exists_crowdPart_eq hs
    exact ⟨isLoose_crowdPart id, rfl⟩
  · intro name
    rw [namedSize_crowd]
    split
    · exact Nat.dvd_refl (2 ^ 32)
    · exact Nat.dvd_zero _

/-! ## Fragments and their region -/

/-- **The size of fragments.** Let the files be decoded, and take a name of fragments. If the files
are linked, there is one merged section of that name, it fits into its region, and it has the size
that a word holds of the sum of its fragments, which is the sum itself exactly if the sum is below
two to the power of 32. So a sum that is larger than the region and below that bound makes a run
fail. -/
theorem fragments_fit_of_link {pad : UInt8} {cancellation : Cancellation} {looks : ℕ}
    (hdecoded : ∀ f ∈ files, ∃ name input rest,
      Object.decode name f.index input = .ok (f, rest))
    {f : ObjectFile} {s : Section} (hcall : (f, s) ∈ callsOf files)
    (hfragment : s.modifier = .fragment) :
    (∀ lk program,
      (start map warnings files).link pad cancellation looks = (lk, .ok program) →
      ∃ m ∈ program.sections, m.name = s.name ∧ m.kind = s.kind ∧ m.modifier = .fragment
        ∧ (∀ n ∈ program.sections, n.name = s.name → n = m)
        ∧ m.size.toNat = namedSize (callsOf files) s.name % 2 ^ 32
        ∧ m.size.toNat ≤ (map.region s.kind).size.toNat
        ∧ (m.size.toNat = namedSize (callsOf files) s.name
          ↔ namedSize (callsOf files) s.name < 2 ^ 32))
    ∧ ((map.region s.kind).size.toNat < namedSize (callsOf files) s.name →
      namedSize (callsOf files) s.name < 2 ^ 32 →
      ∃ e, ((start map warnings files).link pad cancellation looks).2 = .error e) := by
  have hfiles : ∀ f ∈ files, f.WellFormed := Object.wellFormed_of_decoded hdecoded
  refine ⟨?_, ?_⟩
  · intro lk program hlink
    obtain ⟨m, hm, hname, hkind, hmodifier, honly, hsize, hle⟩ :=
      exists_section_of_fragment hfiles hlink hcall hfragment
    refine ⟨m, hm, hname, hkind, hmodifier, honly, hsize, hle, ?_⟩
    rw [hsize]
    omega
  · intro hlarge hword
    cases hresult : (start map warnings files).link pad cancellation looks with
    | mk lk result =>
      cases result with
      | error e => exact ⟨e, rfl⟩
      | ok program =>
        -- the sum is the size, which fits
        obtain ⟨m, -, -, -, -, -, hsize, hle⟩ :=
          exists_section_of_fragment hfiles hresult hcall hfragment
        omega

/-- The fragments of 255 files are too large for their region, and the run fails. With one file more
the run succeeds, and their merged section has no addresses. -/
theorem fragments_fit_of_link_crowd :
    (∃ e, ((start {} {} (crowd 255 256)).link 0xFF {} 0).2 = .error e)
    ∧ ∃ lk program, (start {} {} (crowd 256 256)).link 0xFF {} 0 = (lk, .ok program)
      ∧ ∃ m ∈ program.sections, m.name = [] ∧ m.modifier = .fragment ∧ m.size.toNat = 0
        ∧ namedSize (callsOf (crowd 256 256)) [] = 2 ^ 32 := by
  have hfound := namedSize_crowdPart 255 256
  have hmissed := namedSize_crowdPart 256 256
  refine ⟨?_, ?_⟩
  · refine (fragments_fit_of_link (exists_decode_crowd (by decide))
      (crowdPart_mem (by decide) (by decide)) rfl).2 ?_ ?_
    · rw [hfound]
      decide
    · rw [hfound]
      decide
  · obtain ⟨lk, program, hlink⟩ := exists_link_crowd
    obtain ⟨m, hm, hname, -, hmodifier, -, hsize, -, -⟩ :=
      (fragments_fit_of_link (exists_decode_crowd (by decide))
        (crowdPart_mem (by decide) (by decide)) rfl).1 lk program hlink
    rw [hmissed] at hsize
    exact ⟨lk, program, hlink, m, hm, hname, hmodifier, hsize, hmissed⟩

/-- Not all fragments that are too large for their region are found: those of 256 files are
linked. -/
theorem not_forall_oversize_fails :
    ¬∀ files : List ObjectFile,
      (∀ f ∈ files, ∃ name input rest, Object.decode name f.index input = .ok (f, rest)) →
      ∀ f s, (f, s) ∈ callsOf files → s.modifier = .fragment →
        (({} : MemoryMap).region s.kind).size.toNat < namedSize (callsOf files) s.name →
        ∃ e, ((start {} {} files).link 0xFF {} 0).2 = .error e := by
  intro h
  have hlarge : (({} : MemoryMap).region (crowdPart 0).kind).size.toNat
      < namedSize (callsOf (crowd 256 256)) (crowdPart 0).name := by
    rw [namedSize_crowdPart]
    decide
  obtain ⟨e, he⟩ := h (crowd 256 256) (exists_decode_crowd (by decide)) _ _
    (crowdPart_mem (by decide) (by decide)) rfl hlarge
  obtain ⟨lk, program, hlink⟩ := exists_link_crowd
  rw [hlink] at he
  cases he

end Linker

end BankedLinker
