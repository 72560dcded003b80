import BankedLinker.Proofs.RoundTrip

/-!
# Truncated files

A decoder does not look beyond what it takes. So bytes that follow the input change nothing, with
one exception: where the input ends inside of a part, more of it may help. It follows that a file
that is cut short anywhere is rejected, and rejected as truncated, since every other defect would
have been found in the whole file too.

* `Object.Scan.Extends`: what is read from an input is read from longer ones;
* `Object.Decoder.Extends`: the same for decoders and for the defects that they find, with one rule
  for each way of putting decoders together;
* `Object.Decoder.extends_file`: no part of the format looks ahead;
* `Object.decode_cut`: every input is accepted or corrupt, and a cut file is truncated.
-/

namespace BankedLinker

/-- What is put together ends with the last piece. -/
theorem Bytes.suffix_joinWith_concat {separator : Bytes} (pieces : List Bytes) (last : Bytes) :
    last <:+ joinWith separator (pieces ++ [last]) := by
  induction pieces with
  | nil => exact List.suffix_refl last
  | cons piece pieces ih =>
    cases pieces with
    | nil => exact List.suffix_append _ last
    | cons next rest => exact ih.trans (List.suffix_append _ _)

namespace Object

/-! ## Fields -/

namespace Scan

variable {α β : Type}

/-- What the scan takes off an input, it takes off a longer one. -/
def Extends (s : Scan α) : Prop :=
  ∀ input more a rest, s input = some (a, rest) → s (input ++ more) = some (a, rest ++ more)

theorem extends_pure (a : α) : Extends (pure a) := by
  intro input more b rest h
  rw [pure_eq_some_iff] at h ⊢
  exact ⟨h.1, by rw [h.2]⟩

theorem extends_bind {s : Scan α} {k : α → Scan β} (hs : Extends s) (hk : ∀ a, Extends (k a)) :
    Extends (s >>= k) := by
  intro input more b rest h
  rw [bind_eq_some_iff] at h ⊢
  obtain ⟨a, mid, hfirst, hnext⟩ := h
  exact ⟨a, mid ++ more, hs input more a mid hfirst, hk a mid more b rest hnext⟩

theorem extends_byte : Extends byte := by
  intro input more b rest h
  rw [byte_eq_some_iff] at h ⊢
  rw [h, List.cons_append]

theorem extends_word : Extends word := by
  intro input more w rest h
  rw [word_eq_some_iff] at h ⊢
  rw [h, List.append_assoc]

theorem extends_bytes (count : ℕ) : Extends (bytes count) := by
  intro input more taken rest h
  rw [bytes_eq_some_iff] at h ⊢
  exact ⟨h.1, by rw [h.2, List.append_assoc]⟩

theorem extends_string : Extends string := by
  intro input more s rest h
  rw [string_eq_some_iff] at h ⊢
  exact ⟨h.1, by rw [h.2, List.append_assoc]⟩

theorem extends_words (count : ℕ) : Extends (words count) := by
  intro input more ws rest h
  rw [words_eq_some_iff] at h ⊢
  exact ⟨h.1, by rw [h.2, List.append_assoc]⟩

/-- Two words in a row. -/
theorem extends_wordPair : Extends (do return (← word, ← word) : Scan (UInt32 × UInt32)) := by
  apply extends_bind extends_word
  intro first
  apply extends_bind extends_word
  intro second
  exact extends_pure _

end Scan

/-! ## Combinators -/

namespace Decoder

variable {α β : Type}

/-- More input changes nothing but truncation: what the decoder returns, it returns with the
additional bytes behind, and what it finds wrong is wrong with a longer input too, unless the input
ended inside of a part. Whatever is wrong makes a corrupt file. -/
structure Extends (d : Decoder α) : Prop where
  ok : ∀ {input a rest} (more : Bytes),
    d input = .ok (a, rest) → d (input ++ more) = .ok (a, rest ++ more)
  error : ∀ {input e} (more : Bytes),
    d input = .error e → (∃ part, e.defect = .truncated part) ∨ d (input ++ more) = .error e
  corrupt : ∀ {input e}, d input = .error e → e.defect.faults = [.corruptObject]

theorem extends_pure (a : α) : Extends (pure a) where
  ok := by
    intro input b rest more h
    rw [pure_eq_ok_iff] at h ⊢
    exact ⟨h.1, by rw [h.2]⟩
  error := by
    intro input e more h
    cases h
  corrupt := by
    intro input e h
    cases h

theorem extends_fail {defect : Defect} (hdefect : defect.faults = [.corruptObject]) :
    Extends (fail defect : Decoder α) where
  ok := by
    intro input a rest more h
    cases h
  error := by
    intro input e more h
    cases h
    exact Or.inr rfl
  corrupt := by
    intro input e h
    cases h
    exact hdefect

theorem bind_eq_error_iff {d : Decoder α} {k : α → Decoder β} {input : Bytes} {e : PlacedDefect} :
    (d >>= k) input = .error e
      ↔ d input = .error e ∨ ∃ a mid, d input = .ok (a, mid) ∧ k a mid = .error e := by
  show (d input).bind (fun r => k r.1 r.2) = .error e ↔ _
  cases d input with
  | error e' => simp [Except.bind]
  | ok r =>
    show k r.1 r.2 = .error e ↔ _
    constructor
    · intro h
      exact Or.inr ⟨r.1, r.2, rfl, h⟩
    · rintro (h | ⟨a, mid, h, hk⟩)
      · cases h
      · cases h
        exact hk

theorem extends_bind {d : Decoder α} {k : α → Decoder β} (hd : Extends d)
    (hk : ∀ a, Extends (k a)) : Extends (d >>= k) where
  ok := by
    intro input b rest more h
    rw [bind_eq_ok_iff] at h ⊢
    obtain ⟨a, mid, hfirst, hnext⟩ := h
    exact ⟨a, mid ++ more, hd.ok more hfirst, (hk a).ok more hnext⟩
  error := by
    intro input e more h
    rw [bind_eq_error_iff] at h ⊢
    obtain hfirst | ⟨a, mid, hfirst, hnext⟩ := h
    · exact (hd.error more hfirst).imp_right Or.inl
    · apply ((hk a).error more hnext).imp_right
      intro hnext'
      exact Or.inr ⟨a, mid ++ more, hd.ok more hfirst, hnext'⟩
  corrupt := by
    intro input e h
    rw [bind_eq_error_iff] at h
    obtain hfirst | ⟨a, mid, -, hnext⟩ := h
    · exact hd.corrupt hfirst
    · exact (hk a).corrupt hnext

theorem extends_ite {c : Prop} [Decidable c] {d e : Decoder α} (hd : Extends d) (he : Extends e) :
    Extends (if c then d else e) := by
  by_cases h : c
  · rw [if_pos h]
    exact hd
  · rw [if_neg h]
    exact he

/-- Only a part can be cut short. -/
theorem extends_part (p : Part) {fields : Scan α} (hfields : Scan.Extends fields) :
    Extends (part p fields) where
  ok := by
    intro input a rest more h
    rw [part_eq_ok_iff] at h ⊢
    exact hfields input more a rest h
  error := by
    intro input e more h
    unfold part at h
    split at h
    · cases h
    · cases h
      exact Or.inl ⟨p, rfl⟩
  corrupt := by
    intro input e h
    unfold part at h
    split at h
    · cases h
    · cases h
      rfl

theorem inside_eq_error_iff {place : Place} {d : Decoder α} {input : Bytes} {e : PlacedDefect} :
    inside place d input = .error e
      ↔ ∃ inner, d input = .error inner ∧ e = ⟨place :: inner.path, inner.defect⟩ := by
  unfold inside
  split
  · next result h => simp [h]
  · next inner h => simp [h, eq_comm]

theorem extends_inside (place : Place) {d : Decoder α} (hd : Extends d) :
    Extends (inside place d) where
  ok := by
    intro input a rest more h
    rw [inside_eq_ok_iff] at h ⊢
    exact hd.ok more h
  error := by
    intro input e more h
    rw [inside_eq_error_iff] at h ⊢
    obtain ⟨inner, hinner, rfl⟩ := h
    apply (hd.error more hinner).imp_right
    intro hinner'
    exact ⟨inner, hinner', rfl⟩
  corrupt := by
    intro input e h
    obtain ⟨inner, hinner, rfl⟩ := inside_eq_error_iff.mp h
    show inner.defect.faults = _
    exact hd.corrupt hinner

theorem extends_many {item : ℕ → Decoder α} (hitem : ∀ i, Extends (item i)) (count index : ℕ) :
    Extends (many item count index) := by
  induction count generalizing index with
  | zero => exact extends_pure _
  | succ count ih =>
    apply extends_bind (hitem index)
    intro first
    apply extends_bind (ih (index + 1))
    intro rest
    exact extends_pure _

/-! ## The parts of a file -/

theorem extends_nodeContent (kind : NodeKind) : Extends (nodeContent kind) := by
  unfold nodeContent
  apply extends_ite
  · apply extends_bind (extends_part _ Scan.extends_word)
    intro depth
    apply extends_ite (extends_fail rfl)
    apply extends_bind (extends_part _ (Scan.extends_words depth.toNat))
    intro counters
    exact extends_pure _
  apply extends_ite
  · apply extends_bind (extends_part _ Scan.extends_string)
    intro name
    exact extends_pure _
  · exact extends_fail rfl

theorem extends_node (index : ℕ) : Extends (node index) := by
  unfold node
  apply extends_bind
  · apply extends_part
    apply Scan.extends_bind Scan.extends_word
    intro parent
    apply Scan.extends_bind Scan.extends_word
    intro line
    apply Scan.extends_bind Scan.extends_byte
    intro tag
    exact Scan.extends_pure _
  rintro ⟨parent, line, kind⟩
  apply extends_ite (extends_fail rfl)
  apply extends_bind (extends_nodeContent kind)
  intro content
  exact extends_pure _

theorem extends_sourceRef (nodes : ℕ) (node line : UInt32) :
    Extends (sourceRef nodes node line) :=
  extends_ite (extends_fail rfl) (extends_pure _)

theorem extends_source (nodes : ℕ) : Extends (source nodes) := by
  apply extends_bind (extends_part _ Scan.extends_wordPair)
  rintro ⟨node, line⟩
  exact extends_sourceRef nodes node line

theorem extends_symbol (nodes : ℕ) (sections : UInt32) : Extends (symbol nodes sections) := by
  unfold symbol
  apply extends_bind
  · apply extends_part
    apply Scan.extends_bind Scan.extends_string
    intro name
    apply Scan.extends_bind Scan.extends_byte
    intro tag
    exact Scan.extends_pure _
  rintro ⟨name, kind⟩
  apply extends_ite (extends_fail rfl)
  apply extends_ite (extends_pure _)
  apply extends_bind (extends_source nodes)
  intro source
  apply extends_bind (extends_part _ Scan.extends_wordPair)
  rintro ⟨home, value⟩
  exact extends_ite (extends_fail rfl) (extends_pure _)

theorem extends_patch (nodes : ℕ) (sections : UInt32) : Extends (patch nodes sections) := by
  unfold patch
  apply extends_bind (extends_source nodes)
  intro source
  apply extends_bind
  · apply extends_part
    apply Scan.extends_bind Scan.extends_word
    intro offset
    apply Scan.extends_bind Scan.extends_word
    intro pc
    apply Scan.extends_bind Scan.extends_word
    intro pcOffset
    apply Scan.extends_bind Scan.extends_byte
    intro tag
    apply Scan.extends_bind Scan.extends_word
    intro size
    exact Scan.extends_pure _
  rintro ⟨offset, pc, pcOffset, kind, size⟩
  apply extends_ite (extends_fail rfl)
  apply extends_bind (extends_part _ (Scan.extends_bytes size.toNat))
  intro expr
  exact extends_ite (extends_fail rfl) (extends_pure _)

theorem extends_sectionPatch (nodes : ℕ) (sections : UInt32) (owner : Bytes) (size : UInt32)
    (index : ℕ) : Extends (sectionPatch nodes sections owner size index) := by
  apply extends_bind (extends_inside _ (extends_patch nodes sections))
  intro p
  apply extends_ite (extends_fail rfl)
  exact extends_ite (extends_fail rfl) (extends_pure _)

theorem extends_kindAndModifier (tag : UInt8) : Extends (kindAndModifier tag) := by
  apply extends_ite (extends_fail rfl)
  apply extends_ite (extends_pure _)
  apply extends_ite (extends_pure _)
  exact extends_ite (extends_pure _) (extends_fail rfl)

theorem extends_headedSection (id : UInt32) (name : Bytes) (source : Option SourceRef)
    (h : SectionHeader) : Extends (headedSection id name source h) := by
  apply extends_bind (extends_kindAndModifier h.tag)
  rintro ⟨kind, modifier⟩
  apply extends_ite (extends_fail rfl)
  apply extends_ite (extends_fail rfl)
  apply extends_ite (extends_fail rfl)
  exact extends_ite (extends_fail rfl) (extends_pure _)

theorem extends_scanSectionHeader : Scan.Extends scanSectionHeader := by
  apply Scan.extends_bind Scan.extends_word
  intro size
  apply Scan.extends_bind Scan.extends_byte
  intro tag
  apply Scan.extends_bind Scan.extends_word
  intro org
  apply Scan.extends_bind Scan.extends_word
  intro bank
  apply Scan.extends_bind Scan.extends_byte
  intro align
  apply Scan.extends_bind Scan.extends_word
  intro alignOffset
  exact Scan.extends_pure _

theorem extends_sectionAt (nodes : ℕ) (sections : UInt32) (index : ℕ) :
    Extends (sectionAt nodes sections index) := by
  unfold sectionAt
  apply extends_bind
  · apply extends_part
    apply Scan.extends_bind Scan.extends_string
    intro name
    apply Scan.extends_bind Scan.extends_word
    intro node
    apply Scan.extends_bind Scan.extends_word
    intro line
    exact Scan.extends_pure _
  rintro ⟨name, node, line⟩
  apply extends_bind (extends_sourceRef nodes node line)
  intro source
  apply extends_bind (extends_part _ extends_scanSectionHeader)
  intro header
  apply extends_bind (extends_inside _ (extends_headedSection index.toUInt32 name source header))
  intro s
  apply extends_ite _ (extends_pure _)
  -- data and patches of a ROM section
  apply extends_bind
  · apply extends_part
    apply Scan.extends_bind (Scan.extends_bytes s.size.toNat)
    intro data
    apply Scan.extends_bind Scan.extends_word
    intro count
    exact Scan.extends_pure _
  rintro ⟨data, count⟩
  apply extends_bind
    (extends_many (extends_sectionPatch nodes sections name s.size) count.toNat 0)
  intro patches
  exact extends_pure _

theorem extends_assertion (nodes : ℕ) (sections : UInt32) (index : ℕ) :
    Extends (assertion nodes sections index) := by
  apply extends_bind (extends_inside _ (extends_patch nodes sections))
  intro p
  apply extends_ite (extends_fail rfl)
  apply extends_bind (extends_part _ Scan.extends_string)
  intro message
  exact extends_pure _

theorem extends_header : Extends header := by
  unfold header
  apply extends_bind
  · apply extends_part
    apply Scan.extends_bind (Scan.extends_bytes magic.length)
    intro found
    apply Scan.extends_bind Scan.extends_word
    intro revision
    exact Scan.extends_pure _
  rintro ⟨found, revision⟩
  apply extends_ite (extends_fail rfl)
  exact extends_ite (extends_fail rfl) (extends_pure _)

theorem extends_file (name : Bytes) (index : Int) : Extends (file name index) := by
  unfold file
  apply extends_bind extends_header
  intro _
  apply extends_bind
  · apply extends_part
    apply Scan.extends_bind Scan.extends_word
    intro symbolCount
    apply Scan.extends_bind Scan.extends_word
    intro sectionCount
    apply Scan.extends_bind Scan.extends_word
    intro nodeCount
    exact Scan.extends_pure _
  rintro ⟨symbolCount, sectionCount, nodeCount⟩
  apply extends_bind (extends_many (fun i => extends_inside _ (extends_node i)) _ _)
  intro nodes
  apply extends_bind (extends_many (fun i => extends_inside _ (extends_symbol _ _)) _ _)
  intro symbols
  apply extends_bind (extends_many (fun i => extends_inside _ (extends_sectionAt _ _ i)) _ _)
  intro sections
  apply extends_bind (extends_part _ Scan.extends_word)
  intro assertionCount
  apply extends_bind (extends_many (extends_assertion _ _) _ _)
  intro assertions
  exact extends_pure _

end Decoder

/-! ## Files that are cut short -/

theorem decode_eq_error_iff_file {name : Bytes} {index : Int} {input : Bytes} {e : DecodeError} :
    decode name index input = .error e
      ↔ Decoder.file name index input = .error e.what ∧ e.file = name := by
  unfold decode
  split
  · next result h => simp [h]
  · next what h =>
    rw [h, Except.error.injEq, Except.error.injEq]
    constructor
    · rintro rfl
      exact ⟨rfl, rfl⟩
    · rintro ⟨rfl, rfl⟩
      rfl

/-- A message ends with the text of the defect. -/
theorem DecodeError.suffix_message (e : DecodeError) : e.what.defect.message <:+ e.message :=
  Bytes.suffix_joinWith_concat (e.file :: e.what.path.map Place.name) e.what.defect.message

/-- A file that was cut anywhere inside of what was taken for it is rejected as truncated. -/
theorem exists_truncated_of_decode {name : Bytes} {index : Int} {used rest cut : Bytes}
    {f : ObjectFile} (h : decode name index (used ++ rest) = .ok (f, rest)) (hcut : cut <+: used)
    (hne : cut ≠ used) :
    ∃ e part, decode name index cut = .error e ∧ e.what.defect = .truncated part := by
  obtain ⟨lost, rfl⟩ := hcut
  rw [decode_eq_ok_iff_file, List.append_assoc] at h
  have hextends := Decoder.extends_file name index
  cases hfile : Decoder.file name index cut with
  | ok result =>
    -- the whole file would be accepted with what was lost still to come
    obtain ⟨g, left⟩ := result
    have hlonger := hextends.ok (lost ++ rest) hfile
    rw [h] at hlonger
    have hrest : rest.length = (left ++ (lost ++ rest)).length :=
      congrArg List.length (Prod.mk.inj (Except.ok.inj hlonger)).2
    have hlost : lost = [] := by
      rw [List.length_append, List.length_append] at hrest
      exact List.eq_nil_of_length_eq_zero (by omega)
    rw [hlost, List.append_nil] at hne
    exact absurd rfl hne
  | error what =>
    obtain ⟨part, hpart⟩ | hlonger := hextends.error (lost ++ rest) hfile
    · exact ⟨⟨name, what⟩, part, decode_eq_error_iff_file.mpr ⟨hfile, rfl⟩, hpart⟩
    · -- any other defect would be found in the whole file
      rw [h] at hlonger
      cases hlonger

/-- Every input is either accepted or found to be a corrupt file. Of an input that is accepted, a
part in front is used, and no shorter part of it is accepted: each is corrupt because it ends while
something is read. -/
theorem decode_cut (name : Bytes) (index : Int) (input : Bytes) :
    ((∃ f rest, decode name index input = .ok (f, rest))
      ∨ ∃ e, decode name index input = .error e ∧ e.file = name ∧ e.faults = [.corruptObject])
    ∧ ∀ f rest, decode name index input = .ok (f, rest) →
      ∃ used, input = used ++ rest
        ∧ ∀ cut, cut <+: used → cut ≠ used →
          ∃ e part, decode name index cut = .error e ∧ e.what.defect = .truncated part
            ∧ e.faults = [.corruptObject]
            ∧ ("truncated while reading " : Bytes) ++ part.name <:+ e.message := by
  constructor
  · cases h : decode name index input with
    | ok result => exact Or.inl ⟨result.1, result.2, rfl⟩
    | error e =>
      obtain ⟨hfile, hname⟩ := decode_eq_error_iff_file.mp h
      exact Or.inr ⟨e, rfl, hname, (Decoder.extends_file name index).corrupt hfile⟩
  · intro f rest h
    obtain ⟨-, -, used, -, rfl⟩ := Decoder.file_eq_ok_iff.mp (decode_eq_ok_iff_file.mp h)
    refine ⟨used, rfl, ?_⟩
    intro cut hcut hne
    obtain ⟨e, part, he, hpart⟩ := exists_truncated_of_decode h hcut hne
    refine ⟨e, part, he, hpart, ?_, ?_⟩
    · unfold DecodeError.faults
      rw [hpart]
      rfl
    · apply List.IsSuffix.trans _ e.suffix_message
      rw [hpart]
      refine ⟨Fault.corruptObject.text ++ ": ", ?_⟩
      simp [Defect.message, Defect.message.corrupt, Fault.says, Bytes.concat]

/-- A file that ends after a third of its bytes, which is inside of a symbol. -/
theorem decode_cut_sampleBytes :
    decode "a.o" 3 (sampleBytes ++ []) = .ok (sampleFile, [])
    ∧ sampleBytes.take 60 <+: sampleBytes ∧ sampleBytes.take 60 ≠ sampleBytes
    ∧ ∃ e part, decode "a.o" 3 (sampleBytes.take 60) = .error e
        ∧ e.what.defect = .truncated part ∧ e.faults = [.corruptObject] := by
  have hne : sampleBytes.take 60 ≠ sampleBytes := by decide
  obtain ⟨used, hused, hcuts⟩ :=
    (decode_cut "a.o" 3 (sampleBytes ++ [])).2 sampleFile [] (decode_sampleBytes [])
  obtain rfl : sampleBytes = used := by simpa using hused
  obtain ⟨e, part, he, hpart, hfaults, -⟩ := hcuts _ (List.take_prefix 60 sampleBytes) hne
  exact ⟨decode_sampleBytes [], List.take_prefix 60 sampleBytes, hne, e, part, he, hpart, hfaults⟩

end Object

end BankedLinker
