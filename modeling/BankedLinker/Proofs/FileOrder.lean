import BankedLinker.Proofs.Execution
import BankedLinker.Proofs.Reordering
import BankedLinker.Proofs.Tally

/-!
# The order of files does not reach the output

Compares a link run with the run of the same files in another order that keeps the sections of each
name in theirs. Expressions get the same answers in both runs, so patches write the same bytes and
raise the same warnings, and sections and labels have the same places. What is left is the order of
merged sections, of labels and of warnings, and neither the image nor the symbol file nor the number
of warnings shows it.

* `PlacedLabel.entries_sorted`: sorting labels leaves nothing of their order in the symbol file;
* `Linker.ByteAfter.unique`: the last patch of a byte decides what it becomes;
* `Rom.bankCount_mono`: the banks in use decide the size of the image;
* `Linker.image_of_reordered`, `Linker.symbolFile_of_reordered`, `Linker.warnings_of_reordered`: the
  outputs of two runs;
* `Linker.output_of_swap` is the result for two neighbours that are exchanged.
-/

namespace BankedLinker

/-! ## Labels -/

namespace PlacedLabel

/-- What the symbol file shows of a label: bank, address and name. -/
abbrev Entry := UInt32 × UInt16 × Bytes

/-- The order of entries. -/
def Entry.compare (e e' : Entry) : Ordering :=
  (Ord.compare e.1 e'.1).then ((Ord.compare e.2.1 e'.2.1).then (Ord.compare e.2.2 e'.2.2))

instance : Std.TransCmp Entry.compare :=
  inferInstanceAs (Std.TransCmp (compareLex (compareOn fun e : Entry => e.1)
    (compareLex (compareOn fun e : Entry => e.2.1) (compareOn fun e : Entry => e.2.2))))

theorem Entry.eq_of_isLE {e e' : Entry} (h : (compare e e').isLE = true)
    (h' : (compare e' e).isLE = true) : e = e' := by
  have heq : compare e e' = .eq := Std.OrientedCmp.isLE_antisymm h h'
  unfold compare at heq
  simp only [Ordering.then_eq_eq, Std.compare_eq_iff_eq] at heq
  exact Prod.ext heq.1 (Prod.ext heq.2.1 heq.2.2)

def entry (l : PlacedLabel) : Entry :=
  (l.bank, l.address, l.name)

/-- Labels in whatever order have the same entries once they are sorted. -/
theorem entries_sorted {ls ls' : List PlacedLabel} (h : ls.Perm ls') :
    (ls'.mergeSort fun a b => (compare a b).isLE).map entry
      = (ls.mergeSort fun a b => (compare a b).isLE).map entry := by
  have hmap : ∀ ls : List PlacedLabel, (ls.mergeSort fun a b => (compare a b).isLE).map entry
      = (ls.map entry).mergeSort fun e e' => (e.compare e').isLE :=
    fun ls => List.map_mergeSort fun _ _ _ _ => rfl
  rw [hmap, hmap]
  refine List.Perm.eq_of_pairwise (fun e e' _ _ => Entry.eq_of_isLE)
    (pairwise_mergeSort_isLE Entry.compare _) (pairwise_mergeSort_isLE Entry.compare _) ?_
  exact (List.mergeSort_perm _ _).trans ((h.symm.map entry).trans (List.mergeSort_perm _ _).symm)

/-- The labels of definitions depend on the places of sections only. -/
theorem ofDefinition?_congr {r r' : Registry} (hbank : ∀ f s, r'.bank f s = r.bank f s)
    (haddress : ∀ d, r'.address d = r.address d) : ofDefinition? r' = ofDefinition? r := by
  funext d
  unfold ofDefinition?
  simp only [hbank, haddress]

end PlacedLabel

namespace SymbolFile

/-- The text of an entry. -/
def lineText (e : PlacedLabel.Entry) : Bytes :=
  Bytes.concat [Numeral.hexLower 2 e.1.toNat, ":", Numeral.hexLower 4 e.2.1.toNat, " ", e.2.2, "\n"]

/-- The symbol file shows the entries of its labels and nothing else. -/
theorem text_listing (labels : List PlacedLabel) :
    (listing labels).text = header.text ++ (labels.map PlacedLabel.entry).flatMap lineText := by
  unfold listing Listing.text
  rw [List.flatMap_cons, List.flatMap_map, List.flatMap_map]
  rfl

end SymbolFile

/-! ## Bytes -/

namespace Linker

variable {lk lk' : Linker} {f : ObjectFile} {s : Section} {i k : ℕ} {files : List ObjectFile}

theorem Encodes.unique {p : Patch} {bytes bytes' : Bytes} (h : lk.Encodes f p bytes)
    (h' : lk.Encodes f p bytes') : bytes' = bytes := by
  obtain ⟨value, number, hvalue, hnumber, rfl⟩ := h
  obtain ⟨value', number', hvalue', hnumber', rfl⟩ := h'
  obtain rfl := Except.ok.inj (hvalue.symm.trans hvalue')
  obtain rfl := Except.ok.inj (hnumber.symm.trans hnumber')
  rfl

/-- The last patch of a byte decides what it becomes. -/
theorem ByteAfter.unique {old new new' : Option UInt8} {ps qs : List Patch}
    (h : lk.ByteAfter f k old ps new) (h' : lk.ByteAfter f k old qs new')
    (hlast : lastAt k qs = lastAt k ps) : new' = new := by
  obtain ⟨hnone, rfl⟩ | ⟨p, bytes, hsome, hencodes, rfl⟩ := h.lastAt_cases
  · rw [hnone] at hlast
    obtain ⟨-, rfl⟩ | ⟨q, bytes', hsome', -, -⟩ := h'.lastAt_cases
    · rfl
    · rw [hlast] at hsome'
      cases hsome'
  · rw [hsome] at hlast
    obtain ⟨hnone', -⟩ | ⟨q, bytes', hsome', hencodes', rfl⟩ := h'.lastAt_cases
    · rw [hlast] at hnone'
      cases hnone'
    · obtain rfl : p = q := Option.some.inj (hlast.symm.trans hsome')
      rw [hencodes.unique hencodes']

/-- What a byte becomes depends on the answers to expressions. -/
theorem ByteAfter.of_sameAnswers {old new : Option UInt8} {patches : List Patch}
    (h : lk.ByteAfter f k old patches new) (hanswers : SameAnswers lk lk') :
    lk'.ByteAfter f k old patches new := by
  cases h with
  | kept uncovered => exact .kept uncovered
  | written covers last encodes =>
    exact .written covers last ((hanswers.encodes_iff f _ _).mpr encodes)

/-- Permuted files raise the same warnings, in some order. -/
theorem SameAnswers.perm_raisedIn {files' : List ObjectFile} (h : SameAnswers lk lk')
    (hperm : files.Perm files') : (lk.raisedIn files).Perm (lk'.raisedIn files') := by
  have hraised : ∀ f, lk'.raisedBy f = lk.raisedBy f := by
    intro f
    funext a
    unfold raisedBy
    rw [h.cautionsOf_eq, h.valueOf_eq]
  unfold raisedIn
  simp only [h.cautionsOf_eq, hraised]
  exact (hperm.flatMap_right _).append (hperm.flatMap_right _)

/-! ## The image -/

namespace Laid

variable (h : lk.Laid files)

include h

theorem seated_sections : ∀ m ∈ lk.sections, Rom.Seated lk.map m :=
  fun m hm => h.seated m (Array.mem_toList_iff.mp hm)

theorem hasBank_romx : ∀ m ∈ lk.sections, m.kind = .romx → m.placed = true →
    (lk.map.region .romx).HasBank m.bank := by
  intro m hm hkind _
  have hbank := (h.seated_sections m hm).hasBank
  rwa [hkind] at hbank

/-- A position that a section covers holds the byte of the section. -/
theorem getElem?_image (pad : UInt8) (hcovers : lk.Covers files f s i k) :
    (Rom.image lk.map pad lk.sections)[k]? = lk.registry.byteAt f s i := by
  obtain ⟨j, m, x, hw, hk, hocc⟩ := h.exists_window hcovers
  have hindex : k - Rom.position lk.map m = x.offset.toNat + i := by omega
  rw [Rom.getElem?_image_of_occupied h.seated_sections h.pairwise_sections
    (Array.mem_toList_iff.mpr hw.mem_sections) hocc, hindex, hw.byteAt_eq]

/-- A position that no section covers holds the pad byte. -/
theorem getElem?_image_of_not_covered (pad : UInt8)
    (hk : k < (Rom.size lk.map lk.sections).toNat) (hcovers : ∀ f s i, ¬lk.Covers files f s i k) :
    (Rom.image lk.map pad lk.sections)[k]? = some pad := by
  refine Rom.getElem?_image_of_not_occupied h.seated_sections hk fun m hm hocc => ?_
  obtain ⟨f, s, i, hcover⟩ := h.exists_covers (Array.mem_toList_iff.mp hm) hocc
  exact hcovers f s i hcover

end Laid

end Linker

/-- If each section has its like among others, the image of the others has as many banks. -/
theorem Rom.bankCount_mono {map : MemoryMap} {sections sections' : List Merged}
    (hbank : ∀ m ∈ sections, m.kind = .romx → m.placed = true →
      (map.region .romx).HasBank m.bank)
    (hbank' : ∀ m ∈ sections', m.kind = .romx → m.placed = true →
      (map.region .romx).HasBank m.bank)
    (hlike : ∀ m ∈ sections, ∃ m' ∈ sections',
      m'.kind = m.kind ∧ m'.placed = m.placed ∧ m'.bank = m.bank) :
    bankCount map sections ≤ bankCount map sections' := by
  have htotal := isBankTotal_bankCount hbank
  have htotal' := isBankTotal_bankCount hbank'
  unfold IsBankTotal at htotal htotal'
  rw [UInt32.le_iff_toNat_le]
  split_ifs at htotal htotal' with hcount
  · omega
  · obtain hone | ⟨m, hm, hkind, hplaced, hnumber⟩ := htotal.1
    · exact htotal'.2 (Or.inl hone)
    · obtain ⟨m', hm', hkind', hplaced', hbank⟩ := hlike m hm
      refine htotal'.2 (Or.inr ⟨m', hm', hkind'.trans hkind, hplaced'.trans hplaced, ?_⟩)
      rw [hbank]
      exact hnumber

/-! ## Two runs -/

/-- In a registry that was placed sections are found by their names. -/
theorem Registry.Places.find?_eq {r r' : Registry} (h : r.Places r') (hr : r.Indexed) {i : ℕ}
    {m : Merged} (hm : r'.sections[i]? = some m) : r'.find? m.name = some m := by
  obtain ⟨n, org, bank, hn, rfl⟩ := h.section_of hm
  have hposition : r'.positions[(n.place org bank).name]? = some i := by
    rw [h.positions_eq]
    exact hr.position_eq (m := n) hn
  unfold find?
  rw [hposition]
  exact hm

namespace Linker

/-- A successful run has collected the labels of all files. -/
theorem table_labels_of_link {map : MemoryMap} {warnings : WarningOptions} {pad : UInt8}
    {cancellation : Cancellation} {looks : ℕ} {files : List ObjectFile} {lk : Linker}
    {program : Program}
    (hlink : (start map warnings files).link pad cancellation looks = (lk, .ok program)) :
    lk.table.labels.toList = (definitionsOf files).filter Definition.isKept := by
  obtain ⟨hmerged, -⟩ := exists_link_iff_stages.mp ⟨_, _, (link_eq_ok_iff_spares.mp hlink).2⟩
  have htable : lk.table = (start map warnings files).afterAssigning.table := by
    show lk.outline.table = _
    rw [outline_of_link hlink]
    generalize (start map warnings files).afterAssigning = placed
    rfl
  rw [htable, table_afterAssigning, SymbolTable.labels_addAll (clean_merged_iff.mp hmerged).1]

section TwoRuns

variable {map : MemoryMap} {warnings : WarningOptions} {pad : UInt8}
  {cancellation : Cancellation} {looks : ℕ} {files files' : List ObjectFile} {lk lk' : Linker}
  {program program' : Program}
  (hre : Reordered files files') (hwell : ∀ f ∈ files, f.WellFormed)

include hre hwell

/-- A run succeeds if it does so in another order. -/
theorem exists_link_of_reordered (hindex : (files.map ObjectFile.index).Nodup)
    (htotal : totalSize (callsOf files) < 2 ^ 32)
    (h : ∃ lk program,
      (start map warnings files).link pad cancellation looks = (lk, .ok program)) :
    ∃ lk program,
      (start map warnings files').link pad cancellation looks = (lk, .ok program) := by
  rw [exists_link_iff_spares, exists_link_iff_flawless_and_inside] at h ⊢
  obtain ⟨hspares, hflawless, -⟩ := h
  have hflawless' := hflawless.reordered hre hwell
  rw [← hre.totalSize_eq] at htotal
  exact ⟨hspares, hflawless', inside_of_flawless (hre.wellFormed hwell) (hre.nodup_index hindex)
    htotal hflawless'⟩

variable (hlink : (start map warnings files).link pad cancellation looks = (lk, .ok program))
  (hlink' : (start map warnings files').link pad cancellation looks = (lk', .ok program'))

include hlink

theorem sameAnswers_of_link : SameAnswers (start map warnings files).afterAssigning
    (start map warnings files').afterAssigning := by
  obtain ⟨hmerged, hassigned, -⟩ :=
    exists_link_iff_stages.mp ⟨_, _, (link_eq_ok_iff_spares.mp hlink).2⟩
  exact (sameAnswers_reordered hre hwell hmerged hassigned).2

include hlink'

/-- Both runs show the same warnings, in some order. -/
theorem warnings_of_reordered : program'.warnings = program.warnings := by
  have hanswers := sameAnswers_of_link hre hwell hlink
  rw [warnings_of_link hlink, warnings_of_link hlink']
  exact ((hanswers.perm_raisedIn hre.perm).countP_eq _).symm

/-- Both runs end with the symbols and places of linkers that give the same answers. -/
theorem exists_sameAnswers : ∃ placed placed', SameAnswers placed placed'
    ∧ lk.outline = placed.outline ∧ lk'.outline = placed'.outline
    ∧ ∀ {i : ℕ} {m : Merged}, placed.registry.sections[i]? = some m →
      placed.registry.find? m.name = some m := by
  refine ⟨_, _, sameAnswers_of_link hre hwell hlink, outline_of_link hlink,
    outline_of_link hlink', ?_⟩
  obtain ⟨hmerged, hassigned, -⟩ :=
    exists_link_iff_stages.mp ⟨_, _, (link_eq_ok_iff_spares.mp hlink).2⟩
  have hassignable := assignable_collected hwell hmerged
  rw [(afterAssigning_spec (start map warnings files)).1]
  intro i m hm
  exact (places_of_clean hassignable hassigned).find?_eq hassignable.indexed hm

/-- Sections are at the same places. -/
theorem place_of_reordered (f : ObjectFile) (s : Section) :
    lk'.registry.org f s = lk.registry.org f s ∧ lk'.registry.bank f s = lk.registry.bank f s := by
  obtain ⟨placed, placed', hanswers, houtline, houtline', -⟩ :=
    exists_sameAnswers hre hwell hlink hlink'
  have hregistry : lk.registry.outline = placed.registry.outline :=
    congrArg Linker.registry houtline
  have hregistry' : lk'.registry.outline = placed'.registry.outline :=
    congrArg Linker.registry houtline'
  rw [← lk.registry.org_outline, ← lk'.registry.org_outline, ← lk.registry.bank_outline,
    ← lk'.registry.bank_outline, hregistry, hregistry']
  simp only [Registry.org_outline, Registry.bank_outline]
  exact ⟨hanswers.registry.org_eq f s, hanswers.registry.bank_eq f s⟩

/-- The labels are those of the same symbols, in some order. -/
theorem labels_of_reordered :
    lk'.labels.map PlacedLabel.entry = lk.labels.map PlacedLabel.entry := by
  have hplace := place_of_reordered hre hwell hlink hlink'
  have hlabel : PlacedLabel.ofDefinition? lk'.registry = PlacedLabel.ofDefinition? lk.registry := by
    refine PlacedLabel.ofDefinition?_congr (fun f s => (hplace f s).2) fun d => ?_
    unfold Registry.address
    simp only [(hplace _ _).1]
  unfold labels PlacedLabel.sorted
  rw [table_labels_of_link hlink, table_labels_of_link hlink', hlabel]
  exact PlacedLabel.entries_sorted ((hre.perm_definitionsOf.filter _).filterMap _)

/-- The symbol files have the same text. -/
theorem symbolFile_of_reordered : program'.symbolFile.text = program.symbolFile.text := by
  unfold Program.symbolFile
  rw [SymbolFile.text_listing, SymbolFile.text_listing, labels_of_link hlink,
    labels_of_link hlink', labels_of_reordered hre hwell hlink hlink']

/-- Each merged section has its like in the other run. -/
theorem exists_like_of_reordered : ∀ m ∈ lk.sections, ∃ m' ∈ lk'.sections,
    m'.kind = m.kind ∧ m'.placed = m.placed ∧ m'.bank = m.bank := by
  intro m hm
  obtain ⟨placed, placed', hanswers, houtline, houtline', hfind⟩ :=
    exists_sameAnswers hre hwell hlink hlink'
  have hregistry : lk.registry.outline = placed.registry.outline :=
    congrArg Linker.registry houtline
  have hregistry' : lk'.registry.outline = placed'.registry.outline :=
    congrArg Linker.registry houtline'
  obtain ⟨i, hi⟩ := Array.mem_iff_getElem?.mp (Array.mem_toList_iff.mp hm)
  obtain ⟨n, data, tail, hn, rfl⟩ := Registry.section_of_outline_eq hregistry hi
  -- the merged section of the same name in the other run
  obtain ⟨n', hn', heq⟩ := hanswers.registry.symm.exists_section (hfind hn)
  obtain ⟨j, hj⟩ := Array.mem_iff_getElem?.mp hn'
  obtain ⟨m', data', tail', hm', rfl⟩ := Registry.section_of_outline_eq hregistry'.symm hj
  have hkind := congrArg Merged.kind heq
  have hplaced := congrArg Merged.placed heq
  have hbank := congrArg (fun m : Merged => m.bank) heq
  exact ⟨m', Array.mem_toList_iff.mpr (Array.mem_of_getElem? hm'), hkind, hplaced, hbank⟩

variable (hindex : (files.map ObjectFile.index).Nodup) (htotal : totalSize (callsOf files) < 2 ^ 32)

include hindex htotal

/-- Sections hold the same bytes. -/
theorem byteAt_of_reordered {f : ObjectFile} {s : Section} (hcall : (f, s) ∈ callsOf files)
    (hdata : s.kind.hasData = true) {k : ℕ} (hk : k < s.size.toNat) :
    lk'.registry.byteAt f s k = lk.registry.byteAt f s k := by
  obtain ⟨-, -, hbytes⟩ := laid_of_link hlink hwell hindex htotal
  obtain ⟨-, -, hbytes'⟩ := laid_of_link hlink' (hre.wellFormed hwell) (hre.nodup_index hindex)
    (hre.totalSize_eq.trans_lt htotal)
  obtain ⟨placed, placed', hanswers, houtline, houtline', -⟩ :=
    exists_sameAnswers hre hwell hlink hlink'
  have hcall' : (f, s) ∈ callsOf files' := by
    rw [mem_callsOf, ← hre.mem_iff, ← mem_callsOf]
    exact hcall
  have hafter := (hbytes f s hcall hdata k hk).of_outline_eq houtline.symm
  have hafter' := (hbytes' f s hcall' hdata k hk).of_outline_eq houtline'.symm
  exact (hafter.of_sameAnswers hanswers).unique hafter' rfl

/-- The images are equal: sections hold the same bytes at the same positions, and the image goes up
to the same bank. -/
theorem image_of_reordered : program'.image = program.image := by
  have hwell' := hre.wellFormed hwell
  obtain ⟨hlaid, hmap, -⟩ := laid_of_link hlink hwell hindex htotal
  obtain ⟨hlaid', hmap', -⟩ := laid_of_link hlink' hwell' (hre.nodup_index hindex)
    (hre.totalSize_eq.trans_lt htotal)
  have hmaps : lk'.map = lk.map := hmap'.trans hmap.symm
  have hplace := place_of_reordered hre hwell hlink hlink'
  obtain ⟨-, -, himage⟩ := program_of_link hlink
  obtain ⟨-, -, himage'⟩ := program_of_link hlink'
  rw [himage, himage', ← hmap]
  have hcovers : ∀ f s i k, lk'.Covers files' f s i k ↔ lk.Covers files f s i k := by
    intro f s i k
    constructor
    · rintro ⟨hf, hs, hdata, hi, hk⟩
      rw [hmaps, (hplace f s).1, (hplace f s).2] at hk
      exact ⟨hre.mem_iff.mpr hf, hs, hdata, hi, hk⟩
    · rintro ⟨hf, hs, hdata, hi, hk⟩
      rw [← hmaps, ← (hplace f s).1, ← (hplace f s).2] at hk
      exact ⟨hre.mem_iff.mp hf, hs, hdata, hi, hk⟩
  have hsize : Rom.size lk.map lk'.sections = Rom.size lk.map lk.sections := by
    have hbank' := hlaid'.hasBank_romx
    rw [hmaps] at hbank'
    have hlike := exists_like_of_reordered hre hwell hlink hlink'
    have hlike' := exists_like_of_reordered hre.symm hwell' hlink' hlink
    unfold Rom.size
    rw [UInt32.le_antisymm (Rom.bankCount_mono hbank' hlaid.hasBank_romx hlike')
      (Rom.bankCount_mono hlaid.hasBank_romx hbank' hlike)]
  refine Array.ext_getElem? fun k => ?_
  by_cases hcovered : ∃ f s i, lk.Covers files f s i k
  · obtain ⟨f, s, i, hcover⟩ := hcovered
    have hbyte' := hlaid'.getElem?_image pad ((hcovers f s i k).mpr hcover)
    have hcall := mem_callsOf.mpr ⟨hcover.file_mem, hcover.section_mem⟩
    rw [hmaps, byteAt_of_reordered hre hwell hlink hlink' hindex htotal hcall hcover.hasData
      hcover.lt_size] at hbyte'
    rw [hbyte', hlaid.getElem?_image pad hcover]
  · push Not at hcovered
    by_cases hk : k < (Rom.size lk.map lk.sections).toNat
    · have hpad' := hlaid'.getElem?_image_of_not_covered pad (k := k) (by rwa [hmaps, hsize])
        fun f s i hcover => hcovered f s i ((hcovers f s i k).mp hcover)
      rw [hmaps] at hpad'
      rw [hpad', hlaid.getElem?_image_of_not_covered pad hk hcovered]
    · rw [Array.getElem?_eq_none, Array.getElem?_eq_none]
      · rw [Rom.size_image]
        omega
      · rw [Rom.size_image, hsize]
        omega

end TwoRuns

/-- **The order of files.** Let files be decoded ones, numbered apart as loading does, with sections
whose sizes fit into a word together, and let two neighbours among them have no section name in
common. Whatever the memory map, the switches, the pad byte and the cancellation, linking the files
and linking them with the two exchanged either both succeed or both fail. If they succeed, images,
numbers of warnings and texts of the symbol files are equal, and every section of a file gets the
same address and bank. -/
theorem output_of_swap (map : MemoryMap) (warnings : WarningOptions) (pad : UInt8)
    (cancellation : Cancellation) (looks : ℕ) (before after : List ObjectFile) (f g : ObjectFile)
    (hdecoded : ∀ h ∈ before ++ f :: g :: after, ∃ name input rest,
      Object.decode name h.index input = .ok (h, rest))
    (hindex : ((before ++ f :: g :: after).map ObjectFile.index).Nodup)
    (htotal : totalSize (callsOf (before ++ f :: g :: after)) < 2 ^ 32)
    (hnames : ∀ s ∈ f.sections, ∀ t ∈ g.sections, s.name ≠ t.name) :
    ((∃ lk program, (start map warnings (before ++ f :: g :: after)).link pad cancellation looks
        = (lk, .ok program))
      ↔ ∃ lk program, (start map warnings (before ++ g :: f :: after)).link pad cancellation looks
        = (lk, .ok program))
    ∧ ∀ lk program lk' program',
      (start map warnings (before ++ f :: g :: after)).link pad cancellation looks
        = (lk, .ok program) →
      (start map warnings (before ++ g :: f :: after)).link pad cancellation looks
        = (lk', .ok program') →
      program'.image = program.image
      ∧ (∀ h ∈ before ++ f :: g :: after, ∀ s ∈ h.sections,
        lk'.registry.org h s = lk.registry.org h s ∧ lk'.registry.bank h s = lk.registry.bank h s)
      ∧ program'.warnings = program.warnings
      ∧ program'.symbolFile.text = program.symbolFile.text := by
  have hwell : ∀ h ∈ before ++ f :: g :: after, h.WellFormed :=
    Object.wellFormed_of_decoded hdecoded
  have hre := reordered_swap before after hnames
  refine ⟨⟨exists_link_of_reordered hre hwell hindex htotal, ?_⟩, ?_⟩
  · rw [← hre.totalSize_eq] at htotal
    exact exists_link_of_reordered hre.symm (hre.wellFormed hwell) (hre.nodup_index hindex) htotal
  · intro lk program lk' program' hlink hlink'
    exact ⟨image_of_reordered hre hwell hlink hlink' hindex htotal,
      fun h _ s _ => place_of_reordered hre hwell hlink hlink' h s,
      warnings_of_reordered hre hwell hlink hlink',
      symbolFile_of_reordered hre hwell hlink hlink'⟩

/-- A file with a routine that calls the one of `Run.loopFile`. -/
def callFile : ObjectFile :=
  { name := "c", index := 1
    symbols := [⟨"m", .imported, none, none, 0⟩, ⟨"k", .fileLocal, some ⟨none, 1⟩, some 0, 0⟩]
    sections :=
      [{ id := 0, name := "b", source := some ⟨none, 1⟩, kind := .rom0, modifier := .normal,
         size := 3, org := none, bank := none, align := 0, alignOffset := 0, data := [0xCD, 0, 0],
         patches := [⟨some ⟨none, 2⟩, 1, some 0, 0, .word, [0x81, 0, 0, 0, 0]⟩] }] }

/-- The file in its written form. -/
def callBytes : Bytes :=
  [0x52, 0x4C, 0x4E, 0x4B, 1, 0, 0, 0, 2, 0, 0, 0, 1, 0, 0, 0, 0, 0, 0, 0,
  -- the symbols
  0x6D, 0, 1,
  0x6B, 0, 0, 0xFF, 0xFF, 0xFF, 0xFF, 1, 0, 0, 0, 0, 0, 0, 0, 0, 0, 0, 0,
  -- the section, its data and its patch
  0x62, 0, 0xFF, 0xFF, 0xFF, 0xFF, 1, 0, 0, 0, 3, 0, 0, 0, 3, 0xFF, 0xFF, 0xFF, 0xFF, 0xFF, 0xFF,
  0xFF, 0xFF, 0, 0, 0, 0, 0, 0xCD, 0, 0, 1, 0, 0, 0,
  0xFF, 0xFF, 0xFF, 0xFF, 2, 0, 0, 0, 1, 0, 0, 0, 0, 0, 0, 0, 0, 0, 0, 0, 1, 5, 0, 0, 0,
  0x81, 0, 0, 0, 0,
  -- no assertions
  0, 0, 0, 0]

theorem decode_callBytes : Object.decode "c" 1 callBytes = .ok (callFile, []) := by
  rfl

set_option maxRecDepth 4000 in
theorem exists_link_callFile : ∃ lk program,
    (start {} {} [Run.loopFile, callFile]).link 0xFF {} 1 = (lk, .ok program) := by
  refine exists_link_eq_ok ?_ ?_ ?_ ?_ ?_ _ _
  · unfold Clean
    cbv
  · unfold Clean
    cbv
  · cbv
  · cbv
  · unfold Clean
    cbv

/-- Caller and callee can be given in either order. -/
theorem output_of_swap_callFile :
    ∃ lk program lk' program',
      (start {} {} [Run.loopFile, callFile]).link 0xFF {} 1 = (lk, .ok program)
      ∧ (start {} {} [callFile, Run.loopFile]).link 0xFF {} 1 = (lk', .ok program')
      ∧ program'.image = program.image
      ∧ (∀ h ∈ [Run.loopFile, callFile], ∀ s ∈ h.sections,
        lk'.registry.org h s = lk.registry.org h s ∧ lk'.registry.bank h s = lk.registry.bank h s)
      ∧ program'.warnings = program.warnings
      ∧ program'.symbolFile.text = program.symbolFile.text := by
  have hdecoded : ∀ h ∈ [Run.loopFile, callFile], ∃ name input rest,
      Object.decode name h.index input = .ok (h, rest) := by
    intro h hh
    rcases List.mem_pair.mp hh with rfl | rfl
    · exact ⟨_, _, _, Run.decode_loopBytes⟩
    · exact ⟨_, _, _, decode_callBytes⟩
  obtain ⟨hsuccess, houtput⟩ := output_of_swap {} {} 0xFF {} 1 [] [] Run.loopFile callFile hdecoded
    (by decide) (by decide) (by decide)
  obtain ⟨lk, program, hlink⟩ := exists_link_callFile
  obtain ⟨lk', program', hlink'⟩ := hsuccess.mp ⟨lk, program, hlink⟩
  exact ⟨lk, program, lk', program', hlink, hlink', houtput _ _ _ _ hlink hlink'⟩

end Linker

end BankedLinker
