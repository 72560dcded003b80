import BankedLinker.Proofs.Arithmetic
import BankedLinker.Proofs.FileOrder
import BankedLinker.Proofs.Printing
import BankedLinker.Proofs.RoundTrip

/-!
# The symbol file is complete and sorted

Labels are collected file by file, their sections become members of merged sections, and these are
placed. The symbol file has one line for each label, which shows where the label is in the end, and
the lines are sorted by what they show.

* `Definition.isListed`: labels are local or exported symbols that have a section;
* `SymbolFile.Shows`: what an entry has to show of a label, and `SymbolFile.pieces` how a line shows
  an entry;
* `PlacedLabel.Entry.isLE_compare_iff`: sorted labels have sorted entries;
* `Linker.Laid.exists_shows`: labels move with their merged sections;
* `Linker.symbolFile_of_link` is the result.
-/

namespace BankedLinker

/-! ## Labels and entries -/

/-- Whether the symbol file lists a definition: a local or exported symbol that has a section. -/
def Definition.isListed (d : Definition) : Bool :=
  (d.symbol.kind = .fileLocal || d.symbol.kind = .exported) && d.ownerSection?.isSome

/-- The section of a label became this member of a merged section. -/
structure Merged.Holds (m : Merged) (x : Member) (d : Definition) : Prop where
  member_mem : x ∈ m.members
  file_eq : x.file = d.file
  section_eq : d.ownerSection? = some x.content

/-- An entry shows the bank of the merged section that holds the label, the low 16 bits of the
address that the label has in it, and the name. -/
structure SymbolFile.Shows (sections : List Merged) (d : Definition) (e : PlacedLabel.Entry) :
    Prop where
  held : ∃ m ∈ sections, ∃ x, m.Holds x d
  bank_eq : ∀ m ∈ sections, ∀ x, m.Holds x d → e.1 = m.bank
  address_eq : ∀ m ∈ sections, ∀ x, m.Holds x d →
    (e.2.1.toNat : ℤ) = (m.org.toNat + x.offset.toNat + d.symbol.value.toInt) % 2 ^ 16
  name_eq : e.2.2 = d.symbol.name

/-- The line of an entry: bank and address in hexadecimal, of at least two and four digits, and the
name. -/
def SymbolFile.pieces (e : PlacedLabel.Entry) : List Piece :=
  [.number Numeral.lowerDigits 2 e.1.toNat, .text ":", .number Numeral.lowerDigits 4 e.2.1.toNat,
    .text " ", .text e.2.2, .text "\n"]

/-- The lines of the symbol file show their entries. -/
theorem SymbolFile.prints_lineText (e : PlacedLabel.Entry) : Prints (pieces e) (lineText e) := by
  apply prints_concat
  simp [pieces, Numeral.shows_hexLower]

theorem SymbolKind.eq_of_isKnown {k : SymbolKind} (h : k.isKnown = true) :
    k = .fileLocal ∨ k = .imported ∨ k = .exported := by
  rcases k with ⟨tag⟩
  have htag : tag.toNat ≤ 2 := UInt8.le_iff_toNat_le.mp (of_decide_eq_true h)
  simp only [fileLocal, imported, exported, mk.injEq, ← UInt8.toNat_inj]
  show tag.toNat = 0 ∨ tag.toNat = 1 ∨ tag.toNat = 2
  omega

/-- The labels of a file in the format are those that the symbol table keeps. -/
theorem Definition.isKept_eq {d : Definition} (hformat : d.file.InFormat)
    (hmem : d.symbol ∈ d.file.symbols) : d.isKept = d.isListed := by
  have hsymbol := hformat.symbol_inFormat d.symbol hmem
  have hkind : decide (d.symbol.kind ≠ .imported)
      = (decide (d.symbol.kind = .fileLocal) || decide (d.symbol.kind = .exported)) := by
    rcases SymbolKind.eq_of_isKnown hsymbol.known_kind with h | h | h
    · rw [h]
      rfl
    · rw [h]
      rfl
    · rw [h]
      rfl
  have hsection : d.symbol.isLabel = d.ownerSection?.isSome := by
    unfold Symbol.isLabel ownerSection? ObjectFile.sectionAt?
    cases howner : d.symbol.owner with
    | none => rfl
    | some i =>
      have hlt := hsymbol.owner_lt i howner
      rw [Option.bind_some, List.getElem?_eq_getElem hlt]
      rfl
  unfold isKept isListed
  rw [hkind, hsection]

/-! ## The order -/

theorem Bytes.isLE_compare_iff {a b : Bytes} : (compare a b).isLE = true ↔ a ≤ b := by
  show (List.compareLex compare a b).isLE = true ↔ a ≤ b
  induction a generalizing b with
  | nil => exact iff_of_true List.isLE_compareLex_nil_left (List.nil_le b)
  | cons x rest ih =>
    cases b with
    | nil => simp [List.isLE_compareLex_nil_right]
    | cons y rest' =>
      rw [List.compareLex_cons_cons, Ordering.isLE_then_iff_or, Std.compare_eq_lt,
        Std.compare_eq_iff_eq, ih, List.cons_le_cons_iff]

namespace PlacedLabel

variable {e e' : Entry}

/-- Entries in order: by bank, then by address, then by the bytes of the name. -/
def Entry.Le (e e' : Entry) : Prop :=
  e.1 < e'.1 ∨ (e.1 = e'.1 ∧ (e.2.1 < e'.2.1 ∨ (e.2.1 = e'.2.1 ∧ e.2.2 ≤ e'.2.2)))

theorem Entry.isLE_compare_iff : (Entry.compare e e').isLE = true ↔ e.Le e' := by
  unfold Entry.compare Entry.Le
  rw [Ordering.isLE_then_iff_or, Ordering.isLE_then_iff_or, Bytes.isLE_compare_iff,
    Std.compare_eq_lt, Std.compare_eq_lt, Std.compare_eq_iff_eq, Std.compare_eq_iff_eq]

theorem pairwise_sorted (t : SymbolTable) (r : Registry) :
    ((sorted t r).map entry).Pairwise Entry.Le := by
  have hsorted : (sorted t r).Pairwise fun l l' => (l.entry.compare l'.entry).isLE = true :=
    List.pairwise_mergeSort (fun _ _ _ => Std.TransCmp.isLE_trans)
      (fun l l' => isLE_or_isLE Entry.compare l.entry l'.entry) _
  rw [List.pairwise_map]
  exact hsorted.imp Entry.isLE_compare_iff.mp

/-- If each definition has a label, the labels of all definitions correspond to them one by one. -/
theorem forall₂_filterMap {r : Registry} {shows : Definition → Entry → Prop}
    {definitions : List Definition}
    (h : ∀ d ∈ definitions, ∃ l, ofDefinition? r d = some l ∧ shows d l.entry) :
    List.Forall₂ shows definitions ((definitions.filterMap (ofDefinition? r)).map entry) := by
  induction definitions with
  | nil => exact List.Forall₂.nil
  | cons d rest ih =>
    rw [List.forall_mem_cons] at h
    rcases h.1 with ⟨l, hl, hshows⟩
    rw [List.filterMap_cons, hl]
    exact List.Forall₂.cons hshows (ih h.2)

end PlacedLabel

namespace Linker

open SymbolFile (Shows)

variable {files : List ObjectFile} {lk : Linker} {d : Definition}

/-! ## One label -/

/-- The sum of the three parts of an address is taken in words, of which the low half is shown. -/
theorem toNat_address (org : UInt16) (offset : UInt32) (value : Int32) :
    (((org + offset.toUInt16).toUInt32 + value.toUInt32).toInt32.toUInt32.toUInt16.toNat : ℤ)
      = (org.toNat + offset.toNat + value.toInt) % 2 ^ 16 := by
  have hvalue := toInt_emod value
  rw [UInt32.toUInt32_toInt32, UInt32.toNat_toUInt16, UInt32.toNat_add, UInt16.toNat_toUInt32,
    UInt16.toNat_add, UInt32.toNat_toUInt16]
  omega

theorem mem_callsOf_of_ownerSection? {s : Section} (hd : d ∈ definitionsOf files)
    (hs : d.ownerSection? = some s) : (d.file, s) ∈ callsOf files := by
  rcases Option.bind_eq_some_iff.mp hs with ⟨i, -, hi⟩
  exact mem_callsOf.mpr ⟨(mem_definitionsOf.mp hd).1, List.mem_of_getElem? hi⟩

namespace Laid

variable (h : lk.Laid files)

include h

/-- The place of a section of a file is that of its merged section, moved by the offset. -/
theorem place_of_holds {m : Merged} {x : Member} (hm : m ∈ lk.sections) (hholds : m.Holds x d) :
    lk.registry.org d.file x.content = m.org + x.offset.toUInt16
      ∧ lk.registry.bank d.file x.content = m.bank := by
  have hmem : m ∈ lk.registry.sections := Array.mem_toList_iff.mp hm
  rcases Array.mem_iff_getElem?.mp hmem with ⟨i, hi⟩
  have hwindow := (h.houses.resident hi x hholds.member_mem).2
  unfold Registry.org Registry.bank
  rw [← hholds.file_eq, hwindow.member?_eq]
  exact h.moved m hmem x hholds.member_mem

/-- A label moves with the merged section that holds it. -/
theorem exists_shows (hd : d ∈ definitionsOf files) (hlisted : d.isListed = true) :
    ∃ l, PlacedLabel.ofDefinition? lk.registry d = some l ∧ Shows lk.sections d l.entry := by
  have howned : d.ownerSection?.isSome = true := (Bool.and_eq_true_iff.mp hlisted).2
  rcases Option.isSome_iff_exists.mp howned with ⟨s, hs⟩
  have hl : PlacedLabel.ofDefinition? lk.registry d
      = some { name := d.symbol.name, owner := ⟨d.file.index, s.id⟩,
               bank := lk.registry.bank d.file s, value := lk.registry.address d } := by
    unfold PlacedLabel.ofDefinition?
    rw [hs]
    rfl
  refine ⟨_, hl, ?_⟩
  constructor
  · rcases h.houses.window d.file s (mem_callsOf_of_ownerSection? hd hs) with ⟨i, m, x, hwindow⟩
    rcases Prod.mk.inj hwindow.call_eq with ⟨hfile, hcontent⟩
    refine ⟨m, Array.mem_toList_iff.mpr hwindow.mem_sections, x, ?_⟩
    constructor
    · exact Array.mem_toList_iff.mp hwindow.mem_members
    · exact hfile
    · exact hs.trans (congrArg some hcontent.symm)
  · intro m hm x hholds
    have hplace := (h.place_of_holds hm hholds).2
    rwa [← Option.some.inj (hs.symm.trans hholds.section_eq)] at hplace
  · intro m hm x hholds
    have hplace := (h.place_of_holds hm hholds).1
    rw [← toNat_address, ← hplace]
    show ((lk.registry.address d).toUInt32.toUInt16.toNat : ℤ) = _
    unfold Registry.address
    rw [hholds.section_eq]
  · rfl

end Laid

/-! ## All labels -/

/-- **The symbol file is complete and sorted.** Let a link run of decoded files succeed, whatever
the memory map, the pad byte and the switches; the files are numbered apart, and the sizes of their
sections fit into a word together. Behind its first line the symbol file has one line for each local
or exported symbol with a section, and no others. It shows the bank of the merged section that holds
the label and the address modulo the size of the address space, as hexadecimal numbers of at least
two and four digits, and the name. The lines are in ascending order. -/
theorem symbolFile_of_link {map : MemoryMap} {warnings : WarningOptions} {pad : UInt8}
    {cancellation : Cancellation} {looks : ℕ} {program : Program}
    (hdecoded : ∀ f ∈ files, ∃ name input rest,
      Object.decode name f.index input = .ok (f, rest))
    (hindex : (files.map ObjectFile.index).Nodup)
    (htotal : totalSize (callsOf files) < 2 ^ 32)
    (hlink : (start map warnings files).link pad cancellation looks = (lk, .ok program)) :
    ∃ (entries sorted : List PlacedLabel.Entry) (lines : List Bytes),
      program.symbolFile.text = "; File generated by retrolink\n" ++ lines.flatten
      ∧ List.Forall₂ (fun e => Prints (SymbolFile.pieces e)) sorted lines
      ∧ List.Forall₂ (Shows program.sections)
        ((definitionsOf files).filter Definition.isListed) entries
      ∧ sorted.Perm entries
      ∧ sorted.Pairwise PlacedLabel.Entry.Le := by
  have hfiles : ∀ f ∈ files, f.WellFormed := Object.wellFormed_of_decoded hdecoded
  have hlisted : (definitionsOf files).filter Definition.isKept
      = (definitionsOf files).filter Definition.isListed := by
    apply List.filter_congr
    intro d hd
    rcases mem_definitionsOf.mp hd with ⟨hf, hsymbol⟩
    exact Definition.isKept_eq (Object.inFormat_of_decoded hdecoded d.file hf) hsymbol
  have hlaid := (laid_of_link hlink hfiles hindex htotal).1
  have hsections := (program_of_link hlink).2.1
  have hlabels : lk.labels = PlacedLabel.sorted lk.table lk.registry := rfl
  refine ⟨((lk.table.labels.toList.filterMap (PlacedLabel.ofDefinition? lk.registry)).map
    PlacedLabel.entry), lk.labels.map PlacedLabel.entry,
    (lk.labels.map PlacedLabel.entry).map SymbolFile.lineText, ?_, ?_, ?_, ?_, ?_⟩
  · unfold Program.symbolFile
    rw [SymbolFile.text_listing, labels_of_link hlink]
    rfl
  · rw [List.forall₂_map_right_iff, List.forall₂_same]
    exact fun e _ => SymbolFile.prints_lineText e
  · rw [table_labels_of_link hlink, hlisted, hsections]
    apply PlacedLabel.forall₂_filterMap
    intro d hd
    rw [List.mem_filter] at hd
    exact hlaid.exists_shows hd.1 hd.2
  · exact (List.mergeSort_perm _ _).map PlacedLabel.entry
  · rw [hlabels]
    exact PlacedLabel.pairwise_sorted _ _

/-- Labels are found in the outline of a linker. -/
theorem labels_outline (lk : Linker) : lk.outline.labels = lk.labels := by
  have hlabel : PlacedLabel.ofDefinition? lk.registry.outline
      = PlacedLabel.ofDefinition? lk.registry := by
    funext d
    unfold PlacedLabel.ofDefinition?
    simp only [Registry.bank_outline, Registry.address_outline]
  show PlacedLabel.sorted lk.table lk.registry.outline = PlacedLabel.sorted lk.table lk.registry
  unfold PlacedLabel.sorted
  rw [hlabel]

set_option maxRecDepth 4000 in
/-- After placing, the call stands in front of the loop. -/
theorem text_labels_callFile :
    (SymbolFile.listing (start {} {} [Run.loopFile, callFile]).afterAssigning.labels).text
      = "; File generated by retrolink\n00:0000 k\n00:0003 m\n" := by
  cbv

/-- The loop and the call have a label each, and the symbol file shows both. -/
theorem symbolFile_of_link_callFile : ∃ lk program, ∃ (entries sorted : List PlacedLabel.Entry)
    (lines : List Bytes),
    (start {} {} [Run.loopFile, callFile]).link 0xFF {} 1 = (lk, .ok program)
      ∧ ((definitionsOf [Run.loopFile, callFile]).filter Definition.isListed).map
        (·.symbol.name) = ["m", "k"]
      ∧ program.symbolFile.text = "; File generated by retrolink\n00:0000 k\n00:0003 m\n"
      ∧ program.symbolFile.text = "; File generated by retrolink\n" ++ lines.flatten
      ∧ List.Forall₂ (fun e => Prints (SymbolFile.pieces e)) sorted lines
      ∧ List.Forall₂ (Shows program.sections)
        ((definitionsOf [Run.loopFile, callFile]).filter Definition.isListed) entries
      ∧ sorted.Perm entries
      ∧ sorted.Pairwise PlacedLabel.Entry.Le := by
  have hdecoded : ∀ f ∈ [Run.loopFile, callFile], ∃ name input rest,
      Object.decode name f.index input = .ok (f, rest) := by
    intro f hf
    rcases List.mem_pair.mp hf with rfl | rfl
    · exact ⟨_, _, _, Run.decode_loopBytes⟩
    · exact ⟨_, _, _, decode_callBytes⟩
  rcases exists_link_callFile with ⟨lk, program, hlink⟩
  have htext : program.symbolFile.text
      = "; File generated by retrolink\n00:0000 k\n00:0003 m\n" := by
    unfold Program.symbolFile
    rw [labels_of_link hlink, ← labels_outline lk, outline_of_link hlink, labels_outline]
    exact text_labels_callFile
  rcases symbolFile_of_link hdecoded (by decide) (by decide) hlink
    with ⟨entries, sorted, lines, hvia⟩
  exact ⟨lk, program, entries, sorted, lines, hlink, by decide, htext, hvia⟩

end Linker

end BankedLinker
