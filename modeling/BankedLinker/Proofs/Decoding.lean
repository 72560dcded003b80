import BankedLinker.Object.Decode
import Mathlib.Data.Nat.Notation

/-!
# What decoding promises

A file that was decoded has been checked on the way. This file collects what the stages after it
rely on, with a small logic for decoders:

* `Object.Decoder.Ensures d P`: whatever `d` returns has the property `P`, with one rule for each
  way of putting decoders together;
* `Section.WellFormed` and `ObjectFile.WellFormed`: sizes, alignments, modifiers, data and patches
  of a decoded file are in order, and sections are numbered by their positions;
* `Object.wellFormed_of_decode`: every decoded file is well-formed.
-/

namespace BankedLinker

/-- What decoding promises of a section. -/
structure Section.WellFormed (s : Section) : Prop where
  size_le : s.size.toNat ≤ 0x10000
  align_le : s.align.toNat ≤ 16
  modifier_mem : s.modifier = .normal ∨ s.modifier = .union ∨ s.modifier = .fragment
  length_data : s.kind.hasData = true → s.data.length = s.size.toNat
  patches_eq : s.kind.hasData = false → s.patches = []
  patch_le : ∀ p ∈ s.patches, p.offset.toNat + p.kind.width ≤ s.size.toNat

/-- What decoding promises of a file. -/
structure ObjectFile.WellFormed (f : ObjectFile) : Prop where
  wellFormed : ∀ s ∈ f.sections, s.WellFormed
  id_eq : ∀ {i : ℕ} {s : Section}, f.sections[i]? = some s → s.id.toNat = i

namespace Object

/-! ## A logic for decoders -/

namespace Decoder

variable {α β : Type}

/-- Whatever the decoder returns has the property. -/
def Ensures (d : Decoder α) (P : α → Prop) : Prop :=
  ∀ input a rest, d input = .ok (a, rest) → P a

theorem ensures_true (d : Decoder α) : Ensures d fun _ => True :=
  fun _ _ _ _ => trivial

theorem ensures_pure {P : α → Prop} {a : α} (h : P a) : Ensures (pure a) P := by
  intro input a' rest hrun
  obtain rfl : a = a' := congrArg Prod.fst (Except.ok.inj hrun)
  exact h

theorem ensures_fail {P : α → Prop} (defect : Defect) : Ensures (fail defect) P := by
  intro input a rest hrun
  cases hrun

theorem ensures_bind {d : Decoder α} {k : α → Decoder β} {P : α → Prop} {Q : β → Prop}
    (hd : Ensures d P) (hk : ∀ a, P a → Ensures (k a) Q) : Ensures (d >>= k) Q := by
  intro input b rest hrun
  change (d input).bind (fun r => k r.1 r.2) = .ok (b, rest) at hrun
  cases hfirst : d input with
  | error e =>
    rw [hfirst] at hrun
    cases hrun
  | ok r =>
    rw [hfirst] at hrun
    exact hk r.1 (hd input r.1 r.2 hfirst) r.2 b rest hrun

theorem ensures_ite {c : Prop} [Decidable c] {d e : Decoder α} {P : α → Prop}
    (hd : c → Ensures d P) (he : ¬c → Ensures e P) : Ensures (if c then d else e) P := by
  by_cases h : c
  · rw [if_pos h]
    exact hd h
  · rw [if_neg h]
    exact he h

theorem ensures_part {p : Part} {fields : Scan α} {P : α → Prop}
    (h : ∀ input a rest, fields input = some (a, rest) → P a) : Ensures (part p fields) P := by
  intro input a rest hrun
  unfold part at hrun
  split at hrun
  · next result hfields =>
    obtain rfl : result = (a, rest) := Except.ok.inj hrun
    exact h input a rest hfields
  · cases hrun

theorem ensures_inside {place : Place} {d : Decoder α} {P : α → Prop} (h : Ensures d P) :
    Ensures (inside place d) P := by
  intro input a rest hrun
  unfold inside at hrun
  split at hrun
  · next result hd =>
    obtain rfl : result = (a, rest) := Except.ok.inj hrun
    exact h input a rest hd
  · cases hrun

/-- Each of the items has the property of its index. -/
theorem ensures_many {item : ℕ → Decoder α} {P : ℕ → α → Prop}
    (h : ∀ i, Ensures (item i) (P i)) (count index : ℕ) :
    Ensures (many item count index)
      fun items => items.length = count ∧ ∀ i a, items[i]? = some a → P (index + i) a := by
  induction count generalizing index with
  | zero =>
    refine ensures_pure ⟨rfl, ?_⟩
    intro i a hi
    simp at hi
  | succ count ih =>
    refine ensures_bind (h index) fun first hfirst => ?_
    refine ensures_bind (ih (index + 1)) fun rest hrest => ?_
    refine ensures_pure ⟨by rw [List.length_cons, hrest.1], ?_⟩
    intro i a hi
    cases i with
    | zero =>
      obtain rfl : first = a := by simpa using hi
      exact hfirst
    | succ i =>
      have htail := hrest.2 i a (by simpa using hi)
      rwa [Nat.add_assoc, Nat.add_comm 1] at htail

end Decoder

/-! ## Sections and files -/

/-- A scan of bytes takes as many as it was asked for. -/
theorem Scan.length_bytes {count : ℕ} {input taken rest : Bytes}
    (h : Scan.bytes count input = some (taken, rest)) : taken.length = count := by
  induction count generalizing input taken with
  | zero =>
    cases h
    rfl
  | succ count ih =>
    cases input with
    | nil => cases h
    | cons b input =>
      obtain ⟨⟨tail, rest'⟩, htail, heq⟩ := Option.map_eq_some_iff.mp h
      cases heq
      rw [List.length_cons, ih htail]

namespace Decoder

theorem ensures_kindAndModifier (tag : UInt8) :
    Ensures (kindAndModifier tag)
      fun r => r.2 = .normal ∨ r.2 = .union ∨ r.2 = .fragment := by
  unfold kindAndModifier
  refine ensures_ite (fun _ => ensures_fail _) fun _ => ?_
  refine ensures_ite (fun _ => ensures_pure (Or.inl rfl)) fun _ => ?_
  refine ensures_ite (fun _ => ensures_pure (Or.inr (Or.inl rfl))) fun _ => ?_
  exact ensures_ite (fun _ => ensures_pure (Or.inr (Or.inr rfl))) fun _ => ensures_fail _

/-- What the header of a section promises. -/
theorem ensures_headedSection (id : UInt32) (name : Bytes) (source : Option SourceRef)
    (h : SectionHeader) :
    Ensures (headedSection id name source h) fun s => s.id = id ∧ s.size.toNat ≤ 0x10000
      ∧ s.align.toNat ≤ 16
      ∧ (s.modifier = .normal ∨ s.modifier = .union ∨ s.modifier = .fragment)
      ∧ s.patches = [] := by
  refine ensures_bind (ensures_kindAndModifier h.tag) fun r hmodifier => ?_
  -- of the four checks the first two are about size and alignment
  refine ensures_ite (fun _ => ensures_fail _) fun hsize => ?_
  refine ensures_ite (fun _ => ensures_fail _) fun halign => ?_
  refine ensures_ite (fun _ => ensures_fail _) fun _ => ?_
  refine ensures_ite (fun _ => ensures_fail _) fun _ => ensures_pure ?_
  have hsize' : h.size.toNat ≤ 0x10000 := UInt32.le_iff_toNat_le.mp (UInt32.not_lt.mp hsize)
  have halign' : h.align.toNat ≤ 16 := UInt8.le_iff_toNat_le.mp (UInt8.not_lt.mp halign)
  exact ⟨rfl, hsize', halign', hmodifier, rfl⟩

/-- A patch of a section writes inside of it. -/
theorem ensures_sectionPatch (nodes : ℕ) (sections : UInt32) (owner : Bytes) (size : UInt32)
    (index : ℕ) :
    Ensures (sectionPatch nodes sections owner size index)
      fun p => p.offset.toNat + p.kind.width ≤ size.toNat := by
  refine ensures_bind (ensures_true _) fun p _ => ?_
  refine ensures_ite (fun _ => ensures_fail _) fun _ => ?_
  refine ensures_ite (fun _ => ensures_fail _) fun hinside => ensures_pure ?_
  omega

theorem ensures_sectionAt (nodes : ℕ) (sections : UInt32) (index : ℕ) :
    Ensures (sectionAt nodes sections index) fun s => s.id = index.toUInt32 ∧ s.WellFormed := by
  refine ensures_bind (ensures_true _) fun _ _ => ?_
  refine ensures_bind (ensures_true _) fun _ _ => ?_
  refine ensures_bind (ensures_true _) fun header _ => ?_
  refine ensures_bind (ensures_inside (ensures_headedSection _ _ _ _)) fun s hs => ?_
  obtain ⟨hid, hsize, halign, hmodifier, hpatches⟩ := hs
  refine ensures_ite (fun hdata => ?_) fun hdata => ensures_pure ⟨hid, ?_⟩
  · -- a ROM section is followed by as many bytes as its header says
    have hbytes : Ensures (part .sectionData
        (do return (← Scan.bytes s.size.toNat, ← Scan.word) : Scan (Bytes × UInt32)))
        fun r => r.1.length = s.size.toNat := by
      refine ensures_part fun input r rest hrun => ?_
      obtain ⟨⟨data, rest'⟩, hdata, hrun⟩ := Option.bind_eq_some_iff.mp hrun
      obtain ⟨⟨count, rest''⟩, -, hrun⟩ := Option.bind_eq_some_iff.mp hrun
      cases hrun
      exact Scan.length_bytes hdata
    refine ensures_bind hbytes fun r hlength => ?_
    refine ensures_bind (ensures_many (ensures_sectionPatch nodes sections _ s.size) _ _)
      fun patches hpatches => ensures_pure ⟨hid, ?_⟩
    refine ⟨hsize, halign, hmodifier, fun _ => hlength, ?_, ?_⟩
    · intro hnone
      exact absurd hdata (by simpa using hnone)
    · intro p hp
      obtain ⟨i, hi⟩ := List.mem_iff_getElem?.mp hp
      exact hpatches.2 i p hi
  · -- any other section ends after its header
    refine ⟨hsize, halign, hmodifier, fun h => absurd h hdata, fun _ => hpatches, ?_⟩
    intro p hp
    rw [hpatches] at hp
    cases hp

theorem ensures_file (name : Bytes) (index : Int) :
    Ensures (file name index) fun f => f.index = index ∧ f.WellFormed := by
  refine ensures_bind (ensures_true _) fun _ _ => ?_
  refine ensures_bind (ensures_true _) fun counts _ => ?_
  obtain ⟨symbolCount, sectionCount, nodeCount⟩ := counts
  refine ensures_bind (ensures_true _) fun nodes _ => ?_
  refine ensures_bind (ensures_true _) fun symbols _ => ?_
  refine ensures_bind (ensures_many (fun i => ensures_inside (ensures_sectionAt _ _ i)) _ _)
    fun sections hsections => ?_
  refine ensures_bind (ensures_true _) fun _ _ => ?_
  refine ensures_bind (ensures_true _) fun assertions _ => ensures_pure ⟨rfl, ?_, ?_⟩
  · intro s hs
    obtain ⟨i, hi⟩ := List.mem_iff_getElem?.mp hs
    exact (hsections.2 i s hi).2
  · intro i s hi
    -- there are fewer sections than words, so no number wraps
    have hlt : i < sectionCount.toNat := by
      have := (List.getElem?_eq_some_iff.mp hi).1
      rwa [hsections.1] at this
    have hword := sectionCount.toNat_lt
    rw [(hsections.2 i s hi).1, Nat.zero_add, Nat.toUInt32_eq, UInt32.toNat_ofNat_of_lt']
    show i < 2 ^ 32
    omega

end Decoder

/-- Every decoded file is well-formed and has the number that it was given. -/
theorem wellFormed_of_decode {name : Bytes} {index : Int} {input rest : Bytes} {f : ObjectFile}
    (h : decode name index input = .ok (f, rest)) : f.index = index ∧ f.WellFormed := by
  unfold decode at h
  split at h
  · next result hfile =>
    obtain rfl : result = (f, rest) := Except.ok.inj h
    exact Decoder.ensures_file name index input f rest hfile
  · cases h

theorem wellFormed_of_decoded {files : List ObjectFile}
    (h : ∀ f ∈ files, ∃ name input rest, decode name f.index input = .ok (f, rest)) :
    ∀ f ∈ files, f.WellFormed := by
  intro f hf
  obtain ⟨name, input, rest, hdecode⟩ := h f hf
  exact (wellFormed_of_decode hdecode).2

end Object

end BankedLinker
