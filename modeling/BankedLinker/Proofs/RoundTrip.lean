import BankedLinker.Proofs.Scanning
import Mathlib.Algebra.Group.Nat.Defs

/-!
# The object format, both ways

Which files the format can express, and that for these reading and writing undo each other. For
each part of a file there is one statement: the part is read from an input exactly when it is in
format and the input starts with what is written for it.

* `ObjectFile.InFormat`: the files that the format can express;
* `Object.Decoder.node_eq_ok_iff`, `symbol_eq_ok_iff`, `patch_eq_ok_iff`, `sectionAt_eq_ok_iff` and
  `assertion_eq_ok_iff`: the parts of a file;
* `Object.Decoder.file_eq_ok_iff`: the whole file;
* `Object.decode_encode`: reading a written file returns it, whatever follows it;
* `Object.decode_eq_ok_iff_encode`: reading accepts nothing but written files.
-/

namespace BankedLinker

/-! ## Files in format -/

/-- An index that a file may use: it names one of `count` items, or nothing. -/
def IndexBelow (count : ℕ) (i : Option UInt32) : Prop :=
  ∀ j, i = some j → j.toNat < count

/-- A known place of the sources, in a tree of `nodes` nodes. -/
def SourceWithin (nodes : ℕ) (source : Option SourceRef) : Prop :=
  ∃ ref, source = some ref ∧ IndexBelow nodes ref.node

/-- The content goes with the kind of its node. -/
def NodeContent.InFormat (kind : NodeKind) : NodeContent → Prop
  | .iterations counters => kind = .repeated ∧ counters.length ≤ 1024
  | .named name => (kind = .sourceFile ∨ kind = .macroCall) ∧ 0 ∉ name
  | .missing => False

/-- The node at an index: its parent comes before it. -/
structure SourceNode.InFormat (index : ℕ) (n : SourceNode) : Prop where
  parent_lt : IndexBelow index n.parent
  content_inFormat : n.content.InFormat n.kind

/-- A symbol of a file with `nodes` source nodes and `sections` sections. An import is only a
name. -/
structure Symbol.InFormat (nodes sections : ℕ) (s : Symbol) : Prop where
  text_name : 0 ∉ s.name
  known_kind : s.kind.isKnown = true
  bare_import : s.kind = .imported → s.source = none ∧ s.owner = none ∧ s.value = 0
  source_within : s.kind ≠ .imported → SourceWithin nodes s.source
  owner_lt : IndexBelow sections s.owner

/-- A patch of a file with `nodes` source nodes and `sections` sections. -/
structure Patch.InFormat (nodes sections : ℕ) (p : Patch) : Prop where
  source_within : SourceWithin nodes p.source
  pcSection_lt : IndexBelow sections p.pcSection
  length_expr : p.expr.length ≤ 0x10000

/-- The section at an index of a file with `nodes` source nodes and `sections` sections. -/
structure Section.InFormat (nodes sections index : ℕ) (s : Section) : Prop
    extends s.WellFormed where
  id_eq : s.id.toNat = index
  text_name : 0 ∉ s.name
  source_within : SourceWithin nodes s.source
  known_kind : s.kind.isKnown = true
  /-- The word that stands for a free choice of bank is no bank. -/
  bank_ne : s.bank ≠ some noIndex
  data_eq : s.kind.hasData = false → s.data = []
  patch_inFormat : ∀ p ∈ s.patches, p.InFormat nodes sections ∧ p.kind.isKnown = true
  length_patches : s.patches.length < 2 ^ 32

/-- An assertion of a file with `nodes` source nodes and `sections` sections. Its level stands
where a patch has its kind. -/
structure Assertion.InFormat (nodes sections : ℕ) (a : Assertion) : Prop where
  patch_inFormat : a.patch.InFormat nodes sections
  known_level : a.level.isKnown = true
  kind_eq : a.patch.kind.tag = a.level.tag
  text_message : 0 ∉ a.message

/-- A file that the format can express. The numbers of its parts fit into the words that hold
them. -/
structure ObjectFile.InFormat (f : ObjectFile) : Prop where
  node_inFormat : ∀ (i : ℕ) (n : SourceNode), f.nodes[i]? = some n → n.InFormat i
  symbol_inFormat : ∀ s ∈ f.symbols, s.InFormat f.nodes.size f.sections.length
  section_inFormat : ∀ (i : ℕ) (s : Section), f.sections[i]? = some s →
    s.InFormat f.nodes.size f.sections.length i
  assertion_inFormat : ∀ a ∈ f.assertions, a.InFormat f.nodes.size f.sections.length
  size_nodes : f.nodes.size < 2 ^ 32
  length_symbols : f.symbols.length < 2 ^ 32
  length_sections : f.sections.length < 2 ^ 32
  length_assertions : f.assertions.length < 2 ^ 32

/-! ## Indices and counts as words -/

theorem indexOfWord_wordOfIndex {i : Option UInt32} (h : i ≠ some noIndex) :
    indexOfWord (wordOfIndex i) = i := by
  cases i with
  | none => rfl
  | some j =>
    have hj : j ≠ noIndex := fun heq => h (congrArg some heq)
    show (if j = noIndex then none else some j) = some j
    rw [if_neg hj]

theorem IndexBelow.ne_noIndex {count : ℕ} {i : Option UInt32} (h : IndexBelow count i)
    (hcount : count < 2 ^ 32) : i ≠ some noIndex := by
  intro hi
  have hlt : noIndex.toNat < count := h noIndex hi
  have hword : noIndex.toNat = 2 ^ 32 - 1 := rfl
  omega

/-- An index below a bound stands in the file as a word that is not too large. -/
theorem eq_indexOfWord_iff {count : ℕ} (hcount : count < 2 ^ 32) {i : Option UInt32}
    {w : UInt32} :
    ¬(w ≠ noIndex ∧ count ≤ w.toNat) ∧ i = indexOfWord w
      ↔ IndexBelow count i ∧ w = wordOfIndex i := by
  constructor
  · rintro ⟨hsmall, rfl⟩
    refine ⟨?_, (wordOfIndex_indexOfWord w).symm⟩
    intro j hj
    unfold indexOfWord at hj
    split at hj
    · cases hj
    · next hw =>
      cases hj
      exact Nat.not_le.mp fun hle => hsmall ⟨hw, hle⟩
  · rintro ⟨hbelow, rfl⟩
    refine ⟨?_, (indexOfWord_wordOfIndex (hbelow.ne_noIndex hcount)).symm⟩
    rintro ⟨hne, hle⟩
    cases i with
    | none => exact hne rfl
    | some j => exact absurd (hbelow j rfl) (Nat.not_lt.mpr hle)

/-- The same for a bound that is a word. -/
theorem eq_indexOfWord_iff_word {count : UInt32} {i : Option UInt32} {w : UInt32} :
    ¬(w ≠ noIndex ∧ count ≤ w) ∧ i = indexOfWord w
      ↔ IndexBelow count.toNat i ∧ w = wordOfIndex i := by
  rw [UInt32.le_iff_toNat_le]
  exact eq_indexOfWord_iff count.toNat_lt

/-- A count that fits into a word is the word's number. -/
theorem eq_toUInt32_iff {n : ℕ} {w : UInt32} : n < 2 ^ 32 ∧ w = n.toUInt32 ↔ n = w.toNat := by
  constructor
  · rintro ⟨hn, rfl⟩
    exact (UInt32.toNat_ofNat_of_lt' hn).symm
  · rintro rfl
    exact ⟨w.toNat_lt, UInt32.ofNat_toNat.symm⟩

namespace Object

namespace Decoder

variable {input rest : Bytes} {nodes : ℕ} {sections : UInt32}

/-! ## Nodes and references -/

theorem nodeContent_eq_ok_iff {kind : NodeKind} {content : NodeContent} :
    nodeContent kind input = .ok (content, rest)
      ↔ content.InFormat kind
        ∧ ∃ used, Encoder.nodeContent kind content = .ok used ∧ input = used ++ rest := by
  unfold nodeContent
  simp only [ite_eq_ok_iff, bind_eq_ok_iff, part_eq_ok_iff, Scan.word_eq_some_iff,
    not_fail_eq_ok, Scan.words_eq_some_iff, Scan.string_eq_some_iff, pure_eq_ok_iff, and_false,
    false_or, or_false]
  constructor
  · rintro (⟨hkind, depth, _, rfl, hdepth, counters, _, ⟨hlength, rfl⟩, rfl, rfl⟩
      | ⟨hkind, hnamed, name, _, ⟨htext, rfl⟩, rfl, rfl⟩)
    · have hle : counters.length ≤ 1024 := by
        rw [hlength]
        exact UInt32.le_iff_toNat_le.mp (UInt32.not_lt.mp hdepth)
      refine ⟨⟨hkind, hle⟩, _, if_pos hkind, ?_⟩
      rw [Encoder.count, ← (eq_toUInt32_iff.mpr hlength).2, List.append_assoc]
    · exact ⟨⟨hnamed, htext⟩, _, if_neg hkind, rfl⟩
  · rintro ⟨hcontent, used, hused, rfl⟩
    cases content with
    | missing => cases hcontent
    | named name =>
      obtain ⟨hnamed, htext⟩ := hcontent
      have hkind : kind ≠ .repeated := by
        rintro rfl
        rcases hnamed with h | h <;> cases h
      rw [Encoder.nodeContent, if_neg hkind] at hused
      cases hused
      exact Or.inr ⟨hkind, hnamed, name, rest, ⟨htext, rfl⟩, rfl, rfl⟩
    | iterations counters =>
      obtain ⟨hkind, hle⟩ := hcontent
      rw [Encoder.nodeContent, if_pos hkind] at hused
      cases hused
      have hdepth : counters.length = counters.length.toUInt32.toNat :=
        eq_toUInt32_iff.mp ⟨by omega, rfl⟩
      refine Or.inl ⟨hkind, counters.length.toUInt32, _, List.append_assoc .., ?_, counters, rest,
        ⟨hdepth, rfl⟩, rfl, rfl⟩
      rw [gt_iff_lt, UInt32.not_lt, UInt32.le_iff_toNat_le, ← hdepth]
      exact hle

theorem encodeNode_eq_ok_iff {n : SourceNode} {used : Bytes} :
    Encoder.node n = .ok used
      ↔ ∃ content, Encoder.nodeContent n.kind n.content = .ok content
        ∧ used = Word.toBytes (wordOfIndex n.parent)
          ++ (Word.toBytes n.parentLine ++ n.kind.tag :: content) := by
  unfold Encoder.node
  cases Encoder.nodeContent n.kind n.content with
  | error e => simp [bind, Except.bind]
  | ok content => simp [bind, Except.bind, pure, Except.pure, Bytes.concat, eq_comm]

theorem node_eq_ok_iff {index : ℕ} (hindex : index < 2 ^ 32) {n : SourceNode} :
    node index input = .ok (n, rest)
      ↔ n.InFormat index ∧ ∃ used, Encoder.node n = .ok used ∧ input = used ++ rest := by
  unfold node
  simp only [bind_eq_ok_iff, part_eq_ok_iff, Scan.bind_eq_some_iff, Scan.pure_eq_some_iff,
    Scan.word_eq_some_iff, Scan.byte_eq_some_iff, ite_eq_ok_iff, not_fail_eq_ok,
    nodeContent_eq_ok_iff, encodeNode_eq_ok_iff, pure_eq_ok_iff, and_false, false_or,
    Prod.exists, Prod.mk.injEq]
  constructor
  · rintro ⟨parent, line, kind, _, ⟨_, _, rfl, _, _, rfl, tag, _, rfl, ⟨rfl, rfl, rfl⟩, rfl⟩,
      hparent, content, _, ⟨hcontent, used, hused, rfl⟩, rfl, rfl⟩
    obtain ⟨hbelow, hword⟩ := (eq_indexOfWord_iff hindex).mp ⟨hparent, rfl⟩
    refine ⟨⟨hbelow, hcontent⟩, _, ⟨used, hused, rfl⟩, ?_⟩
    rw [← hword]
    simp only [List.append_assoc, List.cons_append]
  · rintro ⟨⟨hparent, hcontent⟩, _, ⟨used, hused, rfl⟩, rfl⟩
    obtain ⟨hsmall, heq⟩ := (eq_indexOfWord_iff hindex).mpr ⟨hparent, rfl⟩
    simp only [List.append_assoc, List.cons_append]
    refine ⟨wordOfIndex n.parent, n.parentLine, n.kind, used ++ rest,
      ⟨_, _, rfl, _, _, rfl, _, _, rfl, ⟨rfl, rfl, rfl⟩, rfl⟩, hsmall, n.content, rest,
      ⟨hcontent, used, hused, rfl⟩, ?_, rfl⟩
    rw [← heq]

/-- A reference is made of the two words that are written for it. -/
theorem sourceRef_eq_ok_iff (hnodes : nodes < 2 ^ 32) {node line : UInt32}
    {source : Option SourceRef} :
    sourceRef nodes node line input = .ok (source, rest)
      ↔ (SourceWithin nodes source
        ∧ Encoder.source source = Word.toBytes node ++ Word.toBytes line) ∧ input = rest := by
  unfold sourceRef
  simp only [ite_eq_ok_iff, not_fail_eq_ok, pure_eq_ok_iff, and_false, false_or]
  constructor
  · rintro ⟨hsmall, rfl, rfl⟩
    obtain ⟨hbelow, hword⟩ := (eq_indexOfWord_iff hnodes).mp ⟨hsmall, rfl⟩
    refine ⟨⟨⟨_, rfl, hbelow⟩, ?_⟩, rfl⟩
    rw [Encoder.source, ← hword]
  · rintro ⟨⟨⟨ref, rfl, hbelow⟩, hbytes⟩, rfl⟩
    -- the bytes of two words determine the words
    have hfields := fun {u v u' v' : UInt32}
        (h : Word.toBytes u ++ Word.toBytes v = Word.toBytes u' ++ Word.toBytes v') =>
      List.append_inj h (by rw [Word.length_toBytes, Word.length_toBytes])
    obtain ⟨hnode, hline⟩ := hfields hbytes
    obtain rfl := Word.toBytes_injective hnode
    obtain rfl := Word.toBytes_injective hline
    obtain ⟨hsmall, heq⟩ := (eq_indexOfWord_iff hnodes).mpr ⟨hbelow, rfl⟩
    exact ⟨hsmall, by rw [← heq], rfl⟩

theorem source_eq_ok_iff (hnodes : nodes < 2 ^ 32) {ref : Option SourceRef} :
    source nodes input = .ok (ref, rest)
      ↔ SourceWithin nodes ref ∧ input = Encoder.source ref ++ rest := by
  unfold source
  simp only [bind_eq_ok_iff, part_eq_ok_iff, Scan.bind_eq_some_iff, Scan.pure_eq_some_iff,
    Scan.word_eq_some_iff, sourceRef_eq_ok_iff hnodes, Prod.exists, Prod.mk.injEq]
  constructor
  · rintro ⟨node, line, _, ⟨_, _, rfl, _, _, rfl, ⟨rfl, rfl⟩, rfl⟩, ⟨hwithin, hbytes⟩, rfl⟩
    refine ⟨hwithin, ?_⟩
    rw [hbytes, List.append_assoc]
  · rintro ⟨⟨ref, rfl, hbelow⟩, rfl⟩
    refine ⟨wordOfIndex ref.node, ref.line, rest, ⟨_, _, ?_, _, _, rfl, ⟨rfl, rfl⟩, rfl⟩,
      ⟨⟨ref, rfl, hbelow⟩, rfl⟩, rfl⟩
    rw [Encoder.source, List.append_assoc]

/-! ## Symbols -/

theorem encodeSymbol_of_imported {s : Symbol} (h : s.kind = .imported) :
    Encoder.symbol s ++ rest = Encoder.string s.name ++ s.kind.tag :: rest := by
  simp [Encoder.symbol, h, Bytes.concat]

theorem encodeSymbol_of_defined {s : Symbol} (h : s.kind ≠ .imported) :
    Encoder.symbol s ++ rest = Encoder.string s.name ++ s.kind.tag :: (Encoder.source s.source
      ++ (Word.toBytes (wordOfIndex s.owner) ++ (Word.toBytes s.value.toUInt32 ++ rest))) := by
  simp [Encoder.symbol, h, Bytes.concat]

theorem symbol_eq_ok_iff (hnodes : nodes < 2 ^ 32) {s : Symbol} :
    symbol nodes sections input = .ok (s, rest)
      ↔ s.InFormat nodes sections.toNat ∧ input = Encoder.symbol s ++ rest := by
  unfold symbol
  simp only [bind_eq_ok_iff, part_eq_ok_iff, Scan.bind_eq_some_iff, Scan.pure_eq_some_iff,
    Scan.word_eq_some_iff, Scan.byte_eq_some_iff, Scan.string_eq_some_iff, ite_eq_ok_iff,
    not_fail_eq_ok, source_eq_ok_iff hnodes, pure_eq_ok_iff, and_false, false_or, Prod.exists,
    Prod.mk.injEq, Bool.not_eq_true', Bool.not_eq_false]
  constructor
  · rintro ⟨name, kind, _, ⟨_, _, ⟨htext, rfl⟩, tag, _, rfl, ⟨rfl, rfl⟩, rfl⟩, hknown, h⟩
    rcases h with ⟨himport, rfl, rfl⟩
      | ⟨hdefined, ref, _, ⟨hwithin, rfl⟩, owner, value, _,
        ⟨_, _, rfl, _, _, rfl, ⟨rfl, rfl⟩, rfl⟩, howner, rfl, rfl⟩
    · refine ⟨⟨htext, hknown, fun _ => ⟨rfl, rfl, rfl⟩, fun h => absurd himport h, ?_⟩, ?_⟩
      · intro j hj
        cases hj
      · rw [encodeSymbol_of_imported himport]
    · obtain ⟨hbelow, hword⟩ := eq_indexOfWord_iff_word.mp ⟨howner, rfl⟩
      refine ⟨⟨htext, hknown, fun h => absurd h hdefined, fun _ => hwithin, hbelow⟩, ?_⟩
      rw [encodeSymbol_of_defined hdefined, ← hword, UInt32.toUInt32_toInt32]
  · rintro ⟨⟨htext, hknown, himport, hwithin, hbelow⟩, rfl⟩
    by_cases hkind : s.kind = .imported
    · obtain ⟨hsource, howner, hvalue⟩ := himport hkind
      refine ⟨s.name, s.kind, rest, ⟨_, _, ⟨htext, encodeSymbol_of_imported hkind⟩, _, _, rfl,
        ⟨rfl, rfl⟩, rfl⟩, hknown, Or.inl ⟨hkind, ?_, rfl⟩⟩
      rw [← hsource, ← howner, ← hvalue]
    · obtain ⟨hsmall, heq⟩ := eq_indexOfWord_iff_word.mpr ⟨hbelow, rfl⟩
      refine ⟨s.name, s.kind, _, ⟨_, _, ⟨htext, encodeSymbol_of_defined hkind⟩, _, _, rfl,
        ⟨rfl, rfl⟩, rfl⟩, hknown, Or.inr ⟨hkind, s.source, _, ⟨hwithin hkind, rfl⟩, _, _, _,
          ⟨_, _, rfl, _, _, rfl, ⟨rfl, rfl⟩, rfl⟩, hsmall, ?_, rfl⟩⟩
      rw [← heq, Int32.toInt32_toUInt32]

/-! ## Patches -/

theorem encodePatch_append (p : Patch) (tag : UInt8) :
    Encoder.patch p tag ++ rest = Encoder.source p.source ++ (Word.toBytes p.offset
      ++ (Word.toBytes (wordOfIndex p.pcSection) ++ (Word.toBytes p.pcOffset
        ++ tag :: (Word.toBytes p.expr.length.toUInt32 ++ (p.expr ++ rest))))) := by
  simp [Encoder.patch, Encoder.count, Bytes.concat]

theorem patch_eq_ok_iff (hnodes : nodes < 2 ^ 32) {p : Patch} :
    patch nodes sections input = .ok (p, rest)
      ↔ p.InFormat nodes sections.toNat ∧ input = Encoder.patch p p.kind.tag ++ rest := by
  unfold patch
  simp only [bind_eq_ok_iff, part_eq_ok_iff, Scan.bind_eq_some_iff, Scan.pure_eq_some_iff,
    Scan.word_eq_some_iff, Scan.byte_eq_some_iff, Scan.bytes_eq_some_iff, ite_eq_ok_iff,
    not_fail_eq_ok, source_eq_ok_iff hnodes, pure_eq_ok_iff, and_false, false_or, Prod.exists,
    Prod.mk.injEq, encodePatch_append]
  constructor
  · rintro ⟨ref, _, ⟨hwithin, rfl⟩, offset, pc, pcOffset, kind, size, _,
      ⟨_, _, rfl, _, _, rfl, _, _, rfl, tag, _, rfl, _, _, rfl, ⟨rfl, rfl, rfl, rfl, rfl⟩, rfl⟩,
      hsize, expr, _, ⟨hlength, rfl⟩, hpc, rfl, rfl⟩
    obtain ⟨hbelow, hword⟩ := eq_indexOfWord_iff_word.mp ⟨hpc, rfl⟩
    refine ⟨⟨hwithin, hbelow, ?_⟩, ?_⟩
    · rw [hlength]
      exact UInt32.le_iff_toNat_le.mp (UInt32.not_lt.mp hsize)
    · rw [← hword, ← (eq_toUInt32_iff.mpr hlength).2]
  · rintro ⟨⟨hwithin, hbelow, hlength⟩, rfl⟩
    obtain ⟨hsmall, heq⟩ := eq_indexOfWord_iff_word.mpr ⟨hbelow, rfl⟩
    have hcount : p.expr.length = p.expr.length.toUInt32.toNat :=
      eq_toUInt32_iff.mp ⟨by omega, rfl⟩
    refine ⟨p.source, _, ⟨hwithin, rfl⟩, _, _, _, p.kind, _, _,
      ⟨_, _, rfl, _, _, rfl, _, _, rfl, _, _, rfl, _, _, rfl, ⟨rfl, rfl, rfl, rfl, rfl⟩, rfl⟩,
      ?_, p.expr, rest, ⟨hcount, rfl⟩, hsmall, ?_, rfl⟩
    · rw [gt_iff_lt, UInt32.not_lt, UInt32.le_iff_toNat_le, ← hcount]
      exact hlength
    · rw [← heq]

theorem sectionPatch_eq_ok_iff (hnodes : nodes < 2 ^ 32) {owner : Bytes} {size : UInt32}
    {index : ℕ} {p : Patch} :
    sectionPatch nodes sections owner size index input = .ok (p, rest)
      ↔ (p.InFormat nodes sections.toNat ∧ p.kind.isKnown = true
          ∧ p.offset.toNat + p.kind.width ≤ size.toNat)
        ∧ input = Encoder.patch p p.kind.tag ++ rest := by
  unfold sectionPatch
  simp only [bind_eq_ok_iff, inside_eq_ok_iff, patch_eq_ok_iff hnodes, ite_eq_ok_iff,
    not_fail_eq_ok, pure_eq_ok_iff, and_false, false_or, Bool.not_eq_true', Bool.not_eq_false,
    Nat.not_lt]
  constructor
  · rintro ⟨p, _, ⟨hp, rfl⟩, hknown, hinside, rfl, rfl⟩
    exact ⟨⟨hp, hknown, hinside⟩, rfl⟩
  · rintro ⟨⟨hp, hknown, hinside⟩, rfl⟩
    exact ⟨p, rest, ⟨hp, rfl⟩, hknown, hinside, rfl, rfl⟩

/-! ## Sections -/

/-- A type byte consists of its region bits and its modifier bits. -/
theorem and_kindMask_or (tag : UInt8) : tag &&& kindMask ||| tag &&& ~~~kindMask = tag := by
  apply UInt8.toBitVec_inj.mp
  ext i hi
  simp only [UInt8.toBitVec_or, UInt8.toBitVec_and, UInt8.toBitVec_not, BitVec.getElem_or,
    BitVec.getElem_and, BitVec.getElem_not]
  grind

/-- The region and the modifier are found again in the type byte that they make. -/
theorem and_kindMask_of_known {kind : RegionKind} (hkind : kind.isKnown = true) {bits : UInt8}
    (hbits : bits ∈ [0, unionBit, fragmentBit]) :
    (kind.tag ||| bits) &&& kindMask = kind.tag ∧ (kind.tag ||| bits) &&& ~~~kindMask = bits := by
  have hall : ∀ n ∈ List.range 8, ∀ bits ∈ [0, unionBit, fragmentBit],
      (UInt8.ofNat n ||| bits) &&& kindMask = UInt8.ofNat n
        ∧ (UInt8.ofNat n ||| bits) &&& ~~~kindMask = bits := by
    decide +kernel
  have hlt : kind.tag.toNat < 8 := by
    simpa [RegionKind.isKnown, UInt8.lt_iff_toNat_lt] using hkind
  have htag := hall kind.tag.toNat (List.mem_range.mpr hlt) bits hbits
  rwa [UInt8.ofNat_toNat] at htag

/-- The bits that stand for a modifier. -/
def modifierBits (m : Modifier) : UInt8 :=
  if m = .union then unionBit else if m = .fragment then fragmentBit else 0

theorem typeByte_eq (s : Section) :
    Encoder.typeByte s = s.kind.tag ||| modifierBits s.modifier := by
  unfold Encoder.typeByte modifierBits
  split
  · rfl
  · split
    · rfl
    · exact UInt8.or_zero.symm

theorem kindAndModifier_eq_ok_iff {tag : UInt8} {kind : RegionKind} {modifier : Modifier} :
    kindAndModifier tag input = .ok ((kind, modifier), rest)
      ↔ (kind.isKnown = true
          ∧ (modifier = .normal ∨ modifier = .union ∨ modifier = .fragment)
          ∧ tag = kind.tag ||| modifierBits modifier) ∧ input = rest := by
  unfold kindAndModifier
  simp only [ite_eq_ok_iff, not_fail_eq_ok, pure_eq_ok_iff, and_false, false_or, or_false,
    Prod.mk.injEq, Bool.not_eq_true', Bool.not_eq_false]
  constructor
  · have htag := and_kindMask_or tag
    rintro ⟨hknown, ⟨hflags, ⟨rfl, rfl⟩, rfl⟩ | ⟨-, ⟨hflags, ⟨rfl, rfl⟩, rfl⟩
      | ⟨-, hflags, ⟨rfl, rfl⟩, rfl⟩⟩⟩
    · rw [hflags] at htag
      exact ⟨⟨hknown, Or.inl rfl, htag.symm⟩, rfl⟩
    · rw [hflags] at htag
      exact ⟨⟨hknown, Or.inr (Or.inl rfl), htag.symm⟩, rfl⟩
    · rw [hflags] at htag
      exact ⟨⟨hknown, Or.inr (Or.inr rfl), htag.symm⟩, rfl⟩
  · rintro ⟨⟨hknown, hmodifier, rfl⟩, rfl⟩
    have hbits : modifierBits modifier ∈ [0, unionBit, fragmentBit] := by
      rcases hmodifier with rfl | rfl | rfl <;> decide
    obtain ⟨hkind, hflags⟩ := and_kindMask_of_known hknown hbits
    rw [hkind, hflags]
    refine ⟨hknown, ?_⟩
    rcases hmodifier with rfl | rfl | rfl
    · exact Or.inl ⟨rfl, ⟨rfl, rfl⟩, rfl⟩
    · exact Or.inr ⟨by decide, Or.inl ⟨rfl, ⟨rfl, rfl⟩, rfl⟩⟩
    · exact Or.inr ⟨by decide, Or.inr ⟨by decide, rfl, ⟨rfl, rfl⟩, rfl⟩⟩

/-- The numbers in the header of a section that is written. -/
def headerOf (s : Section) : SectionHeader :=
  { size := s.size, tag := Encoder.typeByte s, org := wordOfIndex (s.org.map (·.toUInt32)),
    bank := wordOfIndex s.bank, align := s.align, alignOffset := s.alignOffset.toUInt32 }

/-- The bytes of the numbers in a header. -/
def SectionHeader.toBytes (h : SectionHeader) : Bytes :=
  Bytes.concat [Word.toBytes h.size, [h.tag], Word.toBytes h.org, Word.toBytes h.bank, [h.align],
    Word.toBytes h.alignOffset]

theorem scanSectionHeader_eq_some_iff {h : SectionHeader} :
    scanSectionHeader input = some (h, rest) ↔ input = h.toBytes ++ rest := by
  unfold scanSectionHeader
  simp only [Scan.bind_eq_some_iff, Scan.pure_eq_some_iff, Scan.word_eq_some_iff,
    Scan.byte_eq_some_iff, SectionHeader.toBytes, Bytes.concat, List.flatten_cons,
    List.flatten_nil, List.append_assoc, List.cons_append, List.nil_append, List.append_nil]
  constructor
  · rintro ⟨_, _, rfl, _, _, rfl, _, _, rfl, _, _, rfl, _, _, rfl, _, _, rfl, rfl, rfl⟩
    rfl
  · rintro rfl
    exact ⟨_, _, rfl, _, _, rfl, _, _, rfl, _, _, rfl, _, _, rfl, _, _, rfl, rfl, rfl⟩

/-- A half word stands in the file as a word that is not too large. -/
theorem eq_toUInt16_iff {v : UInt16} {w : UInt32} :
    ¬w > 0xFFFF ∧ v = w.toUInt16 ↔ w = v.toUInt32 := by
  constructor
  · rintro ⟨hsmall, rfl⟩
    have hle := UInt32.le_iff_toNat_le.mp (UInt32.not_lt.mp hsmall)
    apply UInt32.toNat_inj.mp
    rw [UInt16.toNat_toUInt32, UInt32.toNat_toUInt16, Nat.mod_eq_of_lt]
    exact Nat.lt_of_le_of_lt hle (by decide)
  · rintro rfl
    refine ⟨?_, (UInt16.toUInt16_toUInt32 v).symm⟩
    rw [gt_iff_lt, UInt32.not_lt, UInt32.le_iff_toNat_le, UInt16.toNat_toUInt32]
    exact Nat.le_of_lt_succ v.toNat_lt

/-- An address, which may be missing, stands in the file as a word that is not too large. -/
theorem eq_map_indexOfWord_iff {o : Option UInt16} {w : UInt32} :
    ¬(w ≠ noIndex ∧ w > 0xFFFF) ∧ o = (indexOfWord w).map (·.toUInt16)
      ↔ w = wordOfIndex (o.map (·.toUInt32)) := by
  unfold indexOfWord
  by_cases hw : w = noIndex
  · subst hw
    rw [if_pos rfl, Option.map_none]
    cases o with
    | none => exact ⟨fun _ => rfl, fun _ => ⟨fun h => h.1 rfl, rfl⟩⟩
    | some a =>
      have hne : noIndex ≠ a.toUInt32 := by
        intro h
        have hsmall : ¬noIndex > 0xFFFF := (eq_toUInt16_iff.mpr h).1
        exact hsmall (by decide)
      exact ⟨(fun h => nomatch h.2), fun h => absurd h hne⟩
  · rw [if_neg hw, Option.map_some]
    cases o with
    | none => exact ⟨(fun h => nomatch h.2), fun h => absurd h hw⟩
    | some a =>
      rw [Option.some.injEq, Option.map_some, wordOfIndex, Option.getD_some, ← eq_toUInt16_iff]
      exact and_congr_left' (not_congr (and_iff_right hw))

theorem headedSection_eq_ok_iff {id : UInt32} {name : Bytes} {ref : Option SourceRef}
    {h : SectionHeader} {s : Section} :
    headedSection id name ref h input = .ok (s, rest)
      ↔ ((s.id = id ∧ s.name = name ∧ s.source = ref ∧ s.data = [] ∧ s.patches = [])
          ∧ (s.kind.isKnown = true
            ∧ (s.modifier = .normal ∨ s.modifier = .union ∨ s.modifier = .fragment)
            ∧ s.size.toNat ≤ 0x10000 ∧ s.align.toNat ≤ 16 ∧ s.bank ≠ some noIndex)
          ∧ h = headerOf s) ∧ input = rest := by
  unfold headedSection
  simp only [bind_eq_ok_iff, ite_eq_ok_iff, not_fail_eq_ok, pure_eq_ok_iff,
    kindAndModifier_eq_ok_iff, and_false, false_or, Prod.exists]
  constructor
  · rintro ⟨kind, modifier, _, ⟨⟨hknown, hmodifier, htag⟩, rfl⟩, hsize, halign, hoffset, horg, rfl,
      rfl⟩
    refine ⟨⟨⟨rfl, rfl, rfl, rfl, rfl⟩, ⟨hknown, hmodifier, ?_, ?_, ?_⟩, ?_⟩, rfl⟩
    · exact UInt32.le_iff_toNat_le.mp (UInt32.not_lt.mp hsize)
    · exact UInt8.le_iff_toNat_le.mp (UInt8.not_lt.mp halign)
    · show indexOfWord h.bank ≠ some noIndex
      unfold indexOfWord
      split
      · exact nofun
      · next hbank => exact fun heq => hbank (Option.some.inj heq)
    · have horg' := eq_map_indexOfWord_iff.mp ⟨horg, rfl⟩
      have hoffset' := eq_toUInt16_iff.mp ⟨hoffset, rfl⟩
      unfold headerOf
      rw [typeByte_eq, ← htag, ← horg', ← hoffset', wordOfIndex_indexOfWord]
  · rintro ⟨⟨⟨rfl, rfl, rfl, hdata, hpatches⟩, ⟨hknown, hmodifier, hsize, halign, hbank⟩, rfl⟩, rfl⟩
    obtain ⟨horg, horgEq⟩ := (eq_map_indexOfWord_iff (o := s.org)).mpr rfl
    obtain ⟨hoffset, hoffsetEq⟩ := (eq_toUInt16_iff (v := s.alignOffset)).mpr rfl
    refine ⟨s.kind, s.modifier, input, ⟨⟨hknown, hmodifier, typeByte_eq s⟩, rfl⟩, ?_, ?_, hoffset,
      horg, ?_, rfl⟩
    · exact UInt32.not_lt.mpr (UInt32.le_iff_toNat_le.mpr hsize)
    · exact UInt8.not_lt.mpr (UInt8.le_iff_toNat_le.mpr halign)
    · unfold headerOf
      rw [← horgEq, ← hoffsetEq, indexOfWord_wordOfIndex hbank, ← hdata, ← hpatches]

theorem encodeSectionHeader_eq (s : Section) :
    Encoder.sectionHeader s
      = Encoder.string s.name ++ (Encoder.source s.source ++ (headerOf s).toBytes) := by
  simp [Encoder.sectionHeader, SectionHeader.toBytes, headerOf, Bytes.concat]

/-- What is written for a section after its header. -/
def bodyOf (s : Section) : Bytes :=
  if s.kind.hasData then
    s.data ++ (Encoder.count s.patches ++ s.patches.flatMap fun p => Encoder.patch p p.kind.tag)
  else []

/-- A well-formed section can be written: its data is as long as its size says. -/
theorem encodeSection_of_wellFormed {s : Section} (hs : s.WellFormed) :
    Encoder.sectionOf s = .ok (Encoder.sectionHeader s ++ bodyOf s) := by
  unfold Encoder.sectionOf bodyOf
  by_cases hdata : s.kind.hasData = true
  · have hsize : s.data.length.toUInt32 = s.size :=
      (eq_toUInt32_iff.mpr (hs.length_data hdata)).2.symm
    rw [if_pos hdata, if_pos hdata, if_neg (not_not_intro hsize)]
    simp only [Bytes.concat, List.flatten_cons, List.flatten_nil, List.append_nil]
  · rw [if_neg hdata, if_neg hdata, List.append_nil]

theorem sectionAt_eq_ok_iff (hnodes : nodes < 2 ^ 32) {index : ℕ} (hindex : index < 2 ^ 32)
    {s : Section} :
    sectionAt nodes sections index input = .ok (s, rest)
      ↔ s.InFormat nodes sections.toNat index
        ∧ ∃ used, Encoder.sectionOf s = .ok used ∧ input = used ++ rest := by
  unfold sectionAt
  simp only [bind_eq_ok_iff, part_eq_ok_iff, inside_eq_ok_iff, Scan.bind_eq_some_iff,
    Scan.pure_eq_some_iff, Scan.word_eq_some_iff, Scan.string_eq_some_iff, Scan.bytes_eq_some_iff,
    sourceRef_eq_ok_iff hnodes, scanSectionHeader_eq_some_iff, headedSection_eq_ok_iff,
    many_eq_ok_iff_of_total (fun _ _ _ _ => sectionPatch_eq_ok_iff hnodes), ite_eq_ok_iff,
    pure_eq_ok_iff, Prod.exists, Prod.mk.injEq]
  constructor
  · rintro ⟨name, node, line, _, ⟨_, _, ⟨htext, rfl⟩, _, _, rfl, _, _, rfl, ⟨rfl, rfl, rfl⟩, rfl⟩,
      ref, _, ⟨⟨hwithin, href⟩, rfl⟩, header, _, rfl, bare, _,
      ⟨⟨⟨hid, rfl, rfl, hbareData, hbarePatches⟩, ⟨hknown, hmodifier, hsize, halign, hbank⟩, rfl⟩,
        rfl⟩, h⟩
    have hid' : bare.id.toNat = index := by
      rw [hid]
      exact (eq_toUInt32_iff.mp ⟨hindex, rfl⟩).symm
    rcases h with ⟨hrom, data, count, _, ⟨_, _, ⟨hlength, rfl⟩, _, _, rfl, ⟨rfl, rfl⟩, rfl⟩,
        patches, _, ⟨hcount, hpatches, rfl⟩, rfl, rfl⟩
      | ⟨hplain, rfl, rfl⟩
    · have hs : Section.InFormat nodes sections.toNat index { bare with data, patches } :=
        { size_le := hsize
          align_le := halign
          modifier_mem := hmodifier
          length_data := fun _ => hlength
          patches_eq := fun h => absurd (h.symm.trans hrom) Bool.false_ne_true
          patch_le := fun p hp => (hpatches p hp).2.2
          id_eq := hid'
          text_name := htext
          source_within := hwithin
          known_kind := hknown
          bank_ne := hbank
          data_eq := fun h => absurd (h.symm.trans hrom) Bool.false_ne_true
          patch_inFormat := fun p hp => ⟨(hpatches p hp).1, (hpatches p hp).2.1⟩
          length_patches := (eq_toUInt32_iff.mpr hcount).1 }
      refine ⟨hs, _, encodeSection_of_wellFormed hs.toWellFormed, ?_⟩
      have hheader : headerOf { bare with data, patches } = headerOf bare := rfl
      rw [encodeSectionHeader_eq, hheader, href, bodyOf, if_pos hrom, Encoder.count,
        ← (eq_toUInt32_iff.mpr hcount).2]
      simp only [List.append_assoc]
    · have hs : s.InFormat nodes sections.toNat index :=
        { size_le := hsize
          align_le := halign
          modifier_mem := hmodifier
          length_data := fun h => absurd h hplain
          patches_eq := fun _ => hbarePatches
          patch_le := fun p hp => by rw [hbarePatches] at hp; cases hp
          id_eq := hid'
          text_name := htext
          source_within := hwithin
          known_kind := hknown
          bank_ne := hbank
          data_eq := fun _ => hbareData
          patch_inFormat := fun p hp => by rw [hbarePatches] at hp; cases hp
          length_patches := by rw [hbarePatches]; decide }
      refine ⟨hs, _, encodeSection_of_wellFormed hs.toWellFormed, ?_⟩
      rw [encodeSectionHeader_eq, href, bodyOf, if_neg hplain]
      simp only [List.append_assoc, List.nil_append]
  · rintro ⟨hs, used, hused, rfl⟩
    obtain ⟨ref, href, hbelow⟩ := hs.source_within
    have hbytes : Encoder.source s.source
        = Word.toBytes (wordOfIndex ref.node) ++ Word.toBytes ref.line := by
      rw [href, Encoder.source]
    rw [encodeSection_of_wellFormed hs.toWellFormed] at hused
    cases hused
    refine ⟨s.name, wordOfIndex ref.node, ref.line, _, ⟨_, _, ⟨hs.text_name, ?_⟩, _, _, rfl, _, _,
      rfl, ⟨rfl, rfl, rfl⟩, rfl⟩, s.source, _, ⟨⟨hs.source_within, hbytes⟩, rfl⟩, headerOf s,
      bodyOf s ++ rest, rfl, { s with data := [], patches := [] }, _,
      ⟨⟨⟨(eq_toUInt32_iff.mpr hs.id_eq.symm).2, rfl, rfl, rfl, rfl⟩, ⟨hs.known_kind,
        hs.modifier_mem, hs.size_le, hs.align_le, hs.bank_ne⟩, rfl⟩, rfl⟩, ?_⟩
    · rw [encodeSectionHeader_eq, hbytes]
      simp only [List.append_assoc]
    · by_cases hrom : s.kind.hasData = true
      · have hcount : s.patches.length = s.patches.length.toUInt32.toNat :=
          eq_toUInt32_iff.mp ⟨hs.length_patches, rfl⟩
        refine Or.inl ⟨hrom, s.data, s.patches.length.toUInt32, _, ⟨_, _,
          ⟨hs.length_data hrom, ?_⟩, _, _, rfl, ⟨rfl, rfl⟩, rfl⟩, s.patches, rest,
          ⟨hcount, ?_, rfl⟩, rfl, rfl⟩
        · rw [bodyOf, if_pos hrom, Encoder.count]
          simp only [List.append_assoc]
        · intro p hp
          exact ⟨(hs.patch_inFormat p hp).1, (hs.patch_inFormat p hp).2, hs.patch_le p hp⟩
      · have hplain : s.kind.hasData = false := eq_false_of_ne_true hrom
        refine Or.inr ⟨hrom, ?_, by rw [bodyOf, if_neg hrom]; rfl⟩
        rw [← hs.data_eq hplain, ← hs.patches_eq hplain]

/-! ## Assertions -/

theorem assertion_eq_ok_iff (hnodes : nodes < 2 ^ 32) {index : ℕ} {a : Assertion} :
    assertion nodes sections index input = .ok (a, rest)
      ↔ a.InFormat nodes sections.toNat ∧ input = Encoder.assertion a ++ rest := by
  unfold assertion
  simp only [bind_eq_ok_iff, inside_eq_ok_iff, part_eq_ok_iff, patch_eq_ok_iff hnodes,
    Scan.string_eq_some_iff, ite_eq_ok_iff, not_fail_eq_ok, pure_eq_ok_iff, and_false, false_or,
    Bool.not_eq_true', Bool.not_eq_false, Encoder.assertion, List.append_assoc]
  constructor
  · rintro ⟨p, _, ⟨hp, rfl⟩, hknown, message, _, ⟨htext, rfl⟩, rfl, rfl⟩
    exact ⟨⟨hp, hknown, rfl, htext⟩, rfl⟩
  · rintro ⟨⟨hp, hknown, hkind, htext⟩, rfl⟩
    obtain ⟨p, ⟨tag⟩, message⟩ := a
    -- the level is the one that the kind of the patch stands for
    obtain rfl : p.kind.tag = tag := hkind
    exact ⟨p, _, ⟨hp, rfl⟩, hknown, message, rest, ⟨htext, rfl⟩, rfl, rfl⟩

/-! ## Files -/

theorem header_eq_ok_iff {u : Unit} :
    header input = .ok (u, rest) ↔ input = magic ++ (Word.toBytes version ++ rest) := by
  unfold header
  simp only [bind_eq_ok_iff, part_eq_ok_iff, Scan.bind_eq_some_iff, Scan.pure_eq_some_iff,
    Scan.bytes_eq_some_iff, Scan.word_eq_some_iff, ite_eq_ok_iff, not_fail_eq_ok, pure_eq_ok_iff,
    and_false, false_or, Prod.exists, Prod.mk.injEq, ne_eq, Decidable.not_not, true_and]
  constructor
  · rintro ⟨_, _, _, ⟨_, _, ⟨-, rfl⟩, _, _, rfl, ⟨rfl, rfl⟩, rfl⟩, rfl, rfl, rfl⟩
    rfl
  · rintro rfl
    exact ⟨_, _, _, ⟨_, _, ⟨rfl, rfl⟩, _, _, rfl, ⟨rfl, rfl⟩, rfl⟩, rfl, rfl, rfl⟩

/-- What is written for a file, from what is written for its nodes and its sections. -/
theorem encode_eq_ok_iff {f : ObjectFile} {used : Bytes} :
    encode f = .ok used
      ↔ ∃ nodes sections, f.nodes.toList.mapM Encoder.node = .ok nodes
        ∧ f.sections.mapM Encoder.sectionOf = .ok sections
        ∧ used = magic ++ (Word.toBytes version ++ (Encoder.count f.symbols
          ++ (Encoder.count f.sections ++ (Encoder.count f.nodes.toList ++ (nodes.flatten
            ++ (f.symbols.flatMap Encoder.symbol ++ (sections.flatten
              ++ (Encoder.count f.assertions ++ f.assertions.flatMap Encoder.assertion)))))))) := by
  unfold encode
  cases f.nodes.toList.mapM Encoder.node with
  | error e => simp [bind, Except.bind]
  | ok nodes =>
    cases f.sections.mapM Encoder.sectionOf with
    | error e => simp [bind, Except.bind]
    | ok sections => simp [bind, Except.bind, pure, Except.pure, Bytes.concat, eq_comm]

theorem nodeTable_eq_ok_iff {count : UInt32} {items : List SourceNode} :
    many (fun i => inside (.node i) (node i)) count.toNat 0 input = .ok (items, rest)
      ↔ items.length = count.toNat ∧ (∀ (i : ℕ) (n : SourceNode), items[i]? = some n → n.InFormat i)
        ∧ ∃ chunks, items.mapM Encoder.node = .ok chunks ∧ input = chunks.flatten ++ rest := by
  have hitem : ∀ i, 0 ≤ i → i < 0 + count.toNat → ∀ (input rest : Bytes) (n : SourceNode),
      inside (.node i) (node i) input = .ok (n, rest)
        ↔ n.InFormat i ∧ ∃ used, Encoder.node n = .ok used ∧ input = used ++ rest := by
    intro i _ hi input rest n
    have hcount := count.toNat_lt
    rw [inside_eq_ok_iff, node_eq_ok_iff (by omega)]
  rw [many_eq_ok_iff (P := fun i n => n.InFormat i) hitem]
  simp only [Nat.zero_add]

theorem sectionTable_eq_ok_iff (hnodes : nodes < 2 ^ 32) {items : List Section} :
    many (fun i => inside (.sectionAt i) (sectionAt nodes sections i)) sections.toNat 0 input
        = .ok (items, rest)
      ↔ items.length = sections.toNat
        ∧ (∀ (i : ℕ) (s : Section), items[i]? = some s → s.InFormat nodes sections.toNat i)
        ∧ ∃ chunks, items.mapM Encoder.sectionOf = .ok chunks ∧ input = chunks.flatten ++ rest := by
  have hitem : ∀ i, 0 ≤ i → i < 0 + sections.toNat → ∀ (input rest : Bytes) (s : Section),
      inside (.sectionAt i) (sectionAt nodes sections i) input = .ok (s, rest)
        ↔ s.InFormat nodes sections.toNat i
          ∧ ∃ used, Encoder.sectionOf s = .ok used ∧ input = used ++ rest := by
    intro i _ hi input rest s
    have hcount := sections.toNat_lt
    rw [inside_eq_ok_iff, sectionAt_eq_ok_iff hnodes (by omega)]
  rw [many_eq_ok_iff (P := fun i s => s.InFormat nodes sections.toNat i) hitem]
  simp only [Nat.zero_add]

theorem symbolTable_eq_ok_iff (hnodes : nodes < 2 ^ 32) {count : ℕ} {items : List Symbol} :
    many (fun i => inside (.symbol i) (symbol nodes sections)) count 0 input = .ok (items, rest)
      ↔ items.length = count ∧ (∀ s ∈ items, s.InFormat nodes sections.toNat)
        ∧ input = items.flatMap Encoder.symbol ++ rest := by
  apply many_eq_ok_iff_of_total
  intro i input rest s
  rw [inside_eq_ok_iff, symbol_eq_ok_iff hnodes]

theorem assertionTable_eq_ok_iff (hnodes : nodes < 2 ^ 32) {count : ℕ} {items : List Assertion} :
    many (assertion nodes sections) count 0 input = .ok (items, rest)
      ↔ items.length = count ∧ (∀ a ∈ items, a.InFormat nodes sections.toNat)
        ∧ input = items.flatMap Encoder.assertion ++ rest :=
  many_eq_ok_iff_of_total fun _ _ _ _ => assertion_eq_ok_iff hnodes

theorem file_eq_ok_iff {name : Bytes} {index : Int} {f : ObjectFile} :
    file name index input = .ok (f, rest)
      ↔ (f.name = name ∧ f.index = index) ∧ f.InFormat
        ∧ ∃ used, encode f = .ok used ∧ input = used ++ rest := by
  unfold file
  simp only [bind_eq_ok_iff, part_eq_ok_iff, Scan.bind_eq_some_iff, Scan.pure_eq_some_iff,
    Scan.word_eq_some_iff, header_eq_ok_iff, pure_eq_ok_iff, encode_eq_ok_iff,
    nodeTable_eq_ok_iff, Prod.exists, Prod.mk.injEq]
  constructor
  · rintro ⟨-, _, rfl, symbolCount, sectionCount, nodeCount, _,
      ⟨_, _, rfl, _, _, rfl, _, _, rfl, ⟨rfl, rfl, rfl⟩, rfl⟩, nodes, _,
      ⟨hnodeCount, hnodes, nodeChunks, hnodeChunks, rfl⟩, symbols, _, hsymbolTable, sections, _,
      hsectionTable, assertionCount, _, rfl, assertions, _, hassertionTable, rfl, rfl⟩
    have hsize : nodes.toArray.size < 2 ^ 32 := by
      rw [List.size_toArray, hnodeCount]
      exact nodeCount.toNat_lt
    obtain ⟨hsymbolCount, hsymbols, rfl⟩ := (symbolTable_eq_ok_iff hsize).mp hsymbolTable
    obtain ⟨hsectionCount, hsections, sectionChunks, hsectionChunks, rfl⟩ :=
      (sectionTable_eq_ok_iff hsize).mp hsectionTable
    obtain ⟨hassertionCount, hassertions, rfl⟩ :=
      (assertionTable_eq_ok_iff hsize).mp hassertionTable
    rw [← hsectionCount] at hsymbols hsections hassertions
    refine ⟨⟨rfl, rfl⟩, ?_, _, ⟨nodeChunks, sectionChunks, hnodeChunks, hsectionChunks, rfl⟩, ?_⟩
    · exact
        { node_inFormat := fun i n hn => hnodes i n (by simpa using hn)
          symbol_inFormat := hsymbols
          section_inFormat := hsections
          assertion_inFormat := hassertions
          size_nodes := hsize
          length_symbols := (eq_toUInt32_iff.mpr hsymbolCount).1
          length_sections := (eq_toUInt32_iff.mpr hsectionCount).1
          length_assertions := (eq_toUInt32_iff.mpr hassertionCount).1 }
    · simp only [Encoder.count, ← (eq_toUInt32_iff.mpr hnodeCount).2,
        ← (eq_toUInt32_iff.mpr hsymbolCount).2, ← (eq_toUInt32_iff.mpr hsectionCount).2,
        ← (eq_toUInt32_iff.mpr hassertionCount).2, List.append_assoc]
  · rintro ⟨⟨rfl, rfl⟩, hf, _, ⟨nodeChunks, sectionChunks, hnodeChunks, hsectionChunks, rfl⟩, rfl⟩
    have hnodeCount : f.nodes.toList.length = f.nodes.toList.length.toUInt32.toNat :=
      eq_toUInt32_iff.mp ⟨hf.size_nodes, rfl⟩
    have hsymbolCount : f.symbols.length = f.symbols.length.toUInt32.toNat :=
      eq_toUInt32_iff.mp ⟨hf.length_symbols, rfl⟩
    have hsectionCount : f.sections.length = f.sections.length.toUInt32.toNat :=
      eq_toUInt32_iff.mp ⟨hf.length_sections, rfl⟩
    have hassertionCount : f.assertions.length = f.assertions.length.toUInt32.toNat :=
      eq_toUInt32_iff.mp ⟨hf.length_assertions, rfl⟩
    have hsymbols := hf.symbol_inFormat
    have hsections := hf.section_inFormat
    have hassertions := hf.assertion_inFormat
    rw [hsectionCount] at hsymbols hsections hassertions
    simp only [Encoder.count, List.append_assoc]
    refine ⟨(), _, rfl, _, _, _, _, ⟨_, _, rfl, _, _, rfl, _, _, rfl, ⟨rfl, rfl, rfl⟩, rfl⟩,
      f.nodes.toList, _, ⟨hnodeCount, ?_, nodeChunks, hnodeChunks, rfl⟩,
      f.symbols, _, (symbolTable_eq_ok_iff hf.size_nodes).mpr ⟨hsymbolCount, hsymbols, rfl⟩,
      f.sections, _, (sectionTable_eq_ok_iff hf.size_nodes).mpr
        ⟨hsectionCount, hsections, sectionChunks, hsectionChunks, rfl⟩,
      _, _, rfl, f.assertions, rest,
      (assertionTable_eq_ok_iff hf.size_nodes).mpr ⟨hassertionCount, hassertions, rfl⟩, rfl, rfl⟩
    intro i n hn
    exact hf.node_inFormat i n (by simpa using hn)

end Decoder

/-! ## Reading what was written -/

theorem decode_eq_ok_iff_file {name : Bytes} {index : Int} {input rest : Bytes} {f : ObjectFile} :
    decode name index input = .ok (f, rest) ↔ Decoder.file name index input = .ok (f, rest) := by
  unfold decode
  split
  · next result h => rw [h, Except.ok.injEq, Except.ok.injEq]
  · next what h => simp [h]

/-- Every decoded file is one that the format can hold. -/
theorem inFormat_of_decode {name : Bytes} {index : Int} {input rest : Bytes} {f : ObjectFile}
    (h : decode name index input = .ok (f, rest)) : f.InFormat :=
  (Decoder.file_eq_ok_iff.mp (decode_eq_ok_iff_file.mp h)).2.1

theorem inFormat_of_decoded {files : List ObjectFile}
    (h : ∀ f ∈ files, ∃ name input rest, decode name f.index input = .ok (f, rest)) :
    ∀ f ∈ files, f.InFormat := by
  intro f hf
  obtain ⟨name, input, rest, hdecode⟩ := h f hf
  exact inFormat_of_decode hdecode

theorem encodeNodeContent_of_inFormat {kind : NodeKind} {content : NodeContent}
    (h : content.InFormat kind) : ∃ used, Encoder.nodeContent kind content = .ok used := by
  cases content with
  | missing => cases h
  | iterations counters => exact ⟨_, if_pos h.1⟩
  | named name =>
    have hkind : kind ≠ .repeated := by
      intro heq
      rw [heq] at h
      exact absurd h.1 (by decide)
    exact ⟨_, if_neg hkind⟩

theorem exists_mapM_eq_ok {α : Type} {encode : α → Except EncodeError Bytes} {items : List α}
    (h : ∀ a ∈ items, ∃ used, encode a = .ok used) : ∃ chunks, items.mapM encode = .ok chunks := by
  induction items with
  | nil => exact ⟨[], rfl⟩
  | cons a tail ih =>
    obtain ⟨used, hused⟩ := h a List.mem_cons_self
    obtain ⟨chunks, hchunks⟩ := ih fun b hb => h b (List.mem_cons_of_mem a hb)
    refine ⟨used :: chunks, ?_⟩
    rw [List.mapM_cons, hused, hchunks]
    rfl

/-- A file in format can be written. -/
theorem exists_encode_of_inFormat {f : ObjectFile} (hf : f.InFormat) :
    ∃ used, encode f = .ok used := by
  have hnodes : ∃ chunks, f.nodes.toList.mapM Encoder.node = .ok chunks := by
    apply exists_mapM_eq_ok
    intro n hn
    obtain ⟨i, hi⟩ := List.mem_iff_getElem?.mp hn
    have hin := hf.node_inFormat i n (by rwa [← Array.getElem?_toList])
    obtain ⟨content, hcontent⟩ := encodeNodeContent_of_inFormat hin.content_inFormat
    exact ⟨_, Decoder.encodeNode_eq_ok_iff.mpr ⟨content, hcontent, rfl⟩⟩
  have hsections : ∃ chunks, f.sections.mapM Encoder.sectionOf = .ok chunks := by
    apply exists_mapM_eq_ok
    intro s hs
    obtain ⟨i, hi⟩ := List.mem_iff_getElem?.mp hs
    exact ⟨_, Decoder.encodeSection_of_wellFormed (hf.section_inFormat i s hi).toWellFormed⟩
  obtain ⟨nodeChunks, hnodeChunks⟩ := hnodes
  obtain ⟨sectionChunks, hsectionChunks⟩ := hsections
  exact ⟨_, Decoder.encode_eq_ok_iff.mpr
    ⟨nodeChunks, sectionChunks, hnodeChunks, hsectionChunks, rfl⟩⟩

/-- A file in format can be written, and reading returns it from what was written, together with
the bytes that stand after it. -/
theorem decode_encode {f : ObjectFile} (hf : f.InFormat) :
    ∃ bytes, encode f = .ok bytes
      ∧ ∀ rest, decode f.name f.index (bytes ++ rest) = .ok (f, rest) := by
  obtain ⟨bytes, hbytes⟩ := exists_encode_of_inFormat hf
  refine ⟨bytes, hbytes, ?_⟩
  intro rest
  rw [decode_eq_ok_iff_file, Decoder.file_eq_ok_iff]
  exact ⟨⟨rfl, rfl⟩, hf, bytes, hbytes, rfl⟩

/-- A file with something of everything: nested nodes, an import and a label, a patched section
and one without data, and an assertion. -/
def sampleFile : ObjectFile :=
  { name := "a.o", index := 3
    nodes := #[⟨none, 0, .sourceFile, .named "a"⟩, ⟨some 0, 5, .repeated, .iterations [7, 1]⟩]
    symbols := [⟨"x", .imported, none, none, 0⟩, ⟨"y", .exported, some ⟨some 1, 6⟩, some 0, -2⟩]
    sections :=
      [{ id := 0, name := "s", source := some ⟨some 0, 2⟩, kind := .romx, modifier := .union,
         size := 2, org := some 0x4000, bank := some 1, align := 3, alignOffset := 1,
         data := [0xAA, 0xBB],
         patches := [⟨some ⟨none, 0⟩, 0, some 1, 4, .wordBig, [0x80, 7, 0, 0, 0]⟩] },
       { id := 1, name := "", source := some ⟨some 1, 3⟩, kind := .wram0, modifier := .fragment,
         size := 0x10000, org := none, bank := none, align := 0, alignOffset := 0, data := [],
         patches := [] }]
    assertions :=
      [⟨⟨some ⟨some 0, 9⟩, 0, none, 0, ⟨1⟩, [0x80, 0, 0, 0, 0]⟩, .error, "no"⟩] }

/-- The file in its written form. -/
def sampleBytes : Bytes :=
  -- magic word, version, and the numbers of symbols, sections and nodes
  [0x52, 0x4C, 0x4E, 0x4B, 1, 0, 0, 0, 2, 0, 0, 0, 2, 0, 0, 0, 2, 0, 0, 0,
  -- nodes
  0xFF, 0xFF, 0xFF, 0xFF, 0, 0, 0, 0, 1, 0x61, 0,
  0, 0, 0, 0, 5, 0, 0, 0, 0, 2, 0, 0, 0, 7, 0, 0, 0, 1, 0, 0, 0,
  -- symbols
  0x78, 0, 1,
  0x79, 0, 2, 1, 0, 0, 0, 6, 0, 0, 0, 0, 0, 0, 0, 0xFE, 0xFF, 0xFF, 0xFF,
  -- the first section, its data and its patch
  0x73, 0, 0, 0, 0, 0, 2, 0, 0, 0, 2, 0, 0, 0, 0x82, 0, 0x40, 0, 0, 1, 0, 0, 0, 3, 1, 0, 0, 0,
  0xAA, 0xBB, 1, 0, 0, 0,
  0xFF, 0xFF, 0xFF, 0xFF, 0, 0, 0, 0, 0, 0, 0, 0, 1, 0, 0, 0, 4, 0, 0, 0, 4, 5, 0, 0, 0,
  0x80, 7, 0, 0, 0,
  -- the second section
  0, 1, 0, 0, 0, 3, 0, 0, 0, 0, 0, 1, 0, 0x40, 0xFF, 0xFF, 0xFF, 0xFF, 0xFF, 0xFF, 0xFF, 0xFF, 0,
  0, 0, 0, 0,
  -- the assertion
  1, 0, 0, 0, 0, 0, 0, 0, 9, 0, 0, 0, 0, 0, 0, 0, 0xFF, 0xFF, 0xFF, 0xFF, 0, 0, 0, 0, 1, 5, 0, 0,
  0, 0x80, 0, 0, 0, 0, 0x6E, 0x6F, 0]

theorem decode_sampleBytes (rest : Bytes) :
    decode "a.o" 3 (sampleBytes ++ rest) = .ok (sampleFile, rest) := by
  rfl

/-- The file is written and read again. -/
theorem decode_encode_sampleFile :
    sampleFile.InFormat ∧ ∃ bytes, encode sampleFile = .ok bytes
      ∧ ∀ rest, decode sampleFile.name sampleFile.index (bytes ++ rest)
        = .ok (sampleFile, rest) := by
  have hf : sampleFile.InFormat := inFormat_of_decode (decode_sampleBytes [])
  exact ⟨hf, decode_encode hf⟩

/-- Reading accepts exactly the written forms of the files in format. So a file has one written
form only. -/
theorem decode_eq_ok_iff_encode :
    (∀ (name : Bytes) (index : Int) (input : Bytes) (f : ObjectFile) (rest : Bytes),
      decode name index input = .ok (f, rest)
        ↔ (f.name = name ∧ f.index = index) ∧ f.InFormat
          ∧ ∃ used, encode f = .ok used ∧ input = used ++ rest)
      ∧ ∀ (name name' : Bytes) (index index' : Int) (f : ObjectFile)
          (used rest used' rest' : Bytes),
        decode name index (used ++ rest) = .ok (f, rest) →
        decode name' index' (used' ++ rest') = .ok (f, rest') → used = used' := by
  have haccepts : ∀ (name : Bytes) (index : Int) (input : Bytes) (f : ObjectFile) (rest : Bytes),
      decode name index input = .ok (f, rest)
        ↔ (f.name = name ∧ f.index = index) ∧ f.InFormat
          ∧ ∃ used, encode f = .ok used ∧ input = used ++ rest :=
    fun _ _ _ _ _ => decode_eq_ok_iff_file.trans Decoder.file_eq_ok_iff
  refine ⟨haccepts, ?_⟩
  intro name name' index index' f used rest used' rest' h h'
  obtain ⟨-, -, bytes, hbytes, hused⟩ := (haccepts ..).mp h
  obtain ⟨-, -, bytes', hbytes', hused'⟩ := (haccepts ..).mp h'
  have heq : bytes = bytes' := Except.ok.inj (hbytes.symm.trans hbytes')
  rw [List.append_cancel_right hused, List.append_cancel_right hused', heq]

/-- The file is read from its written form and from no other bytes. -/
theorem decode_sampleFile_iff :
    decode "a.o" 3 (sampleBytes ++ [7]) = .ok (sampleFile, [7])
      ∧ sampleFile.InFormat ∧ encode sampleFile = .ok sampleBytes
      ∧ ∀ used rest, decode "a.o" 3 (used ++ rest) = .ok (sampleFile, rest) →
        used = sampleBytes := by
  have hread := decode_sampleBytes [7]
  obtain ⟨-, hf, used, hused, hbytes⟩ := (decode_eq_ok_iff_encode.1 ..).mp hread
  rw [← List.append_cancel_right hbytes] at hused
  refine ⟨hread, hf, hused, ?_⟩
  intro used rest h
  exact decode_eq_ok_iff_encode.2 _ _ _ _ _ _ _ _ _ h hread

end Object

end BankedLinker
