import BankedLinker.Proofs.Compilation
import BankedLinker.Proofs.Outcome
import BankedLinker.Proofs.RoundTrip
import BankedLinker.Proofs.Storing

/-!
# What the bytes of the image stand for

The image of a successful run holds, at each position of a section, the byte of the object file or
the byte of a patch. This file says which number the bytes of a patch stand for: the value of its
expression in the finished program, or the distance of a relative jump from there.

* `Linker.ByteIs`: what a byte of a section has to be in the end;
* `Linker.applies_of_link`: in a successful run all patches have values that fit;
* `Linker.ByteAfter.byteIs`: so the bytes that they write stand for the numbers that they store;
* `Linker.image_of_link` is the result.
-/

namespace BankedLinker

namespace Linker

variable {lk : Linker} {files : List ObjectFile} {f : ObjectFile} {s : Section} {p : Patch}
  {i : ℕ} {b : UInt8}

/-- What the byte of a section at an index has to be in a linked program. Where no patch covers it,
it is the byte that the section's file supplied. Otherwise it stands at this place among bytes which,
read in the order of the last patch there, are the number that the patch stores for the value of its
expression, modulo the power of two of their number; a relative jump has just one byte, whose signed
number is the distance. -/
inductive ByteIs (lk : Linker) (f : ObjectFile) (s : Section) (i : ℕ) (b : UInt8) : Prop
  | supplied (uncovered : ∀ p ∈ s.patches, ¬p.Covers i) (byte_eq : s.data[i]? = some b)
  | stored {before after : List Patch} {p : Patch} {value : Int32} {n : ℤ} {bytes : Bytes}
      (patches_eq : s.patches = before ++ p :: after) (covers : p.Covers i)
      (last : ∀ q ∈ after, ¬q.Covers i) (value_eq : (lk.evaluate f p).2 = .ok value)
      (stores : lk.Stores f p value n) (length_eq : bytes.length = p.kind.width)
      (read_eq : (p.kind.read bytes : ℤ) = n % 2 ^ (8 * p.kind.width))
      (byte_eq : bytes[i - p.offset.toNat]? = some b)
      (distance : p.kind = .jump → b.toInt8.toInt = n)

/-! ## Patches of a successful run -/

/-- A patch that applies writes the number that it stores. -/
theorem exists_stores_of_applies (hkind : p.kind.isKnown = true) (happlies : lk.Applies f p)
    {bytes : Bytes} (hencodes : lk.Encodes f p bytes) :
    ∃ value n, (lk.evaluate f p).2 = .ok value ∧ lk.Stores f p value n
      ∧ bytes.length = p.kind.width ∧ (p.kind.read bytes : ℤ) = n % 2 ^ (8 * p.kind.width)
      ∧ (p.kind = .jump → ∃ b : UInt8, bytes = [b] ∧ b.toInt8.toInt = n) := by
  rcases happlies with ⟨value, hvalue, hfits⟩
  rcases exists_patchedValue_iff.mpr hfits with ⟨number, hnumber, hfits⟩
  have hstores : lk.Stores f p value number.toInt :=
    (stores_iff hkind).mpr ⟨number, hnumber, hfits, rfl⟩
  rcases hencodes with ⟨value', number', hvalue', hnumber', rfl⟩
  rcases Except.ok.inj (hvalue.symm.trans hvalue')
  rcases Except.ok.inj (hnumber.symm.trans hnumber')
  exact ⟨value, number.toInt, hvalue, hstores, read_encode_of_stores hkind hnumber hstores⟩

/-- What patching leaves is what the byte has to be, if all patches apply. -/
theorem ByteAfter.byteIs (hkind : ∀ p ∈ s.patches, p.kind.isKnown = true)
    (happlies : ∀ p ∈ s.patches, lk.Applies f p)
    (h : lk.ByteAfter f i s.data[i]? s.patches (some b)) : lk.ByteIs f s i b := by
  rcases h.lastAt_cases with ⟨hlast, hbyte⟩ | ⟨p, bytes, hlast, hencodes, hbyte⟩
  · exact .supplied (lastAt_eq_none_iff.mp hlast) hbyte.symm
  · rcases lastAt_eq_some_iff.mp hlast with ⟨hcovers, before, after, hpatches, hafter⟩
    have hmem : p ∈ s.patches := hpatches ▸ List.mem_append_cons_self
    rcases exists_stores_of_applies (hkind p hmem) (happlies p hmem) hencodes
      with ⟨value, n, hvalue, hstores, hlength, hread, hdistance⟩
    refine .stored hpatches hcovers hafter hvalue hstores hlength hread hbyte.symm ?_
    intro hjump
    rcases hdistance hjump with ⟨c, hbytes, hc⟩
    have hcb : c = b := by
      rw [hbytes] at hbyte
      have hmem : b ∈ [c] := List.mem_of_getElem? hbyte.symm
      exact (List.mem_singleton.mp hmem).symm
    rwa [← hcb]

/-- Sections stand where the outline has them. -/
theorem org_of_outline_eq {lk' : Linker} (houtline : lk'.outline = lk.outline) :
    lk'.registry.org f s = lk.registry.org f s := by
  have hregistry : lk'.registry.outline = lk.registry.outline := congrArg registry houtline
  rw [← Registry.org_outline, hregistry, Registry.org_outline]

/-- Whether a patch applies depends on symbols and places only. -/
theorem Applies.of_outline_eq {lk' : Linker} (h : lk.Applies f p)
    (houtline : lk'.outline = lk.outline) : lk'.Applies f p := by
  have henvironment : lk'.environment f p = lk.environment f p := by
    rw [← environment_outline, houtline, environment_outline]
  unfold Applies valueOf at h ⊢
  simp only [henvironment, org_of_outline_eq houtline]
  exact h

/-- Where no patch covers it, a byte is the one that the file supplied. -/
theorem ByteIs.getElem?_data (h : lk.ByteIs f s i b) (huncovered : ∀ p ∈ s.patches, ¬p.Covers i) :
    s.data[i]? = some b := by
  cases h with
  | supplied _ byte_eq => exact byte_eq
  | stored patches_eq covers _ _ _ _ _ _ _ =>
    exact absurd covers (huncovered _ (patches_eq ▸ List.mem_append_cons_self))

/-- In a successful run all patches apply, with the places of the end of the run. -/
theorem applies_of_link {map : MemoryMap} {warnings : WarningOptions} {pad : UInt8}
    {cancellation : Cancellation} {looks : ℕ} {program : Program}
    (hlink : (start map warnings files).link pad cancellation looks = (lk, .ok program)) :
    ∀ f ∈ files, ∀ s ∈ f.sections, ∀ p ∈ s.patches, lk.Applies f p := by
  have hplain := (exists_link_iff_spares.mp ⟨lk, program, hlink⟩).2
  have happlies := (exists_link_iff_flawless_and_inside.mp hplain).1.applies
  intro f hf s hs p hp
  exact (happlies f hf s hs p hp).of_outline_eq (outline_of_link hlink)

/-! ## The image -/

/-- **The image of a linked program.** Let a link run of decoded files succeed, whatever the memory
map, the pad byte and the switches. The files are numbered apart, as loading does by their
positions, and the sizes of their sections fit into a word together. Then no position of the image
is covered by two sections; the image consists of ROM0 and the ROMX banks up to the highest one in
use; a position that a section covers holds the byte that the section's last patch there stores for
its value, or else the byte that the section's file supplied; and a position that no section covers
holds the pad byte. -/
theorem image_of_link {map : MemoryMap} {warnings : WarningOptions} {pad : UInt8}
    {cancellation : Cancellation} {looks : ℕ} {program : Program}
    (hdecoded : ∀ f ∈ files, ∃ name input rest,
      Object.decode name f.index input = .ok (f, rest))
    (hindex : (files.map ObjectFile.index).Nodup)
    (htotal : totalSize (callsOf files) < 2 ^ 32)
    (hlink : (start map warnings files).link pad cancellation looks = (lk, .ok program)) :
    (∀ f s i g t j k, lk.Covers files f s i k → lk.Covers files g t j k → f = g ∧ s = t)
    ∧ (∃ total, Rom.IsBankTotal map program.sections total
      ∧ program.image.size
        = (map.region .rom0).size.toNat + total * (map.region .romx).size.toNat)
    ∧ (∀ f s i k, lk.Covers files f s i k → ∃ b, program.image[k]? = some b ∧ lk.ByteIs f s i b)
    ∧ ∀ k < program.image.size, (∀ f s i, ¬lk.Covers files f s i k) →
      program.image[k]? = some pad := by
  rcases layout_of_link hdecoded hindex htotal hlink with ⟨hapart, hsize, hbytes, hpad⟩
  refine ⟨hapart, hsize, ?_, hpad⟩
  intro f s i k hcovers
  rcases hbytes f s i k hcovers with ⟨b, hb, hafter⟩
  have happlies := applies_of_link hlink f hcovers.file_mem s hcovers.section_mem
  have hformat := Object.inFormat_of_decoded hdecoded f hcovers.file_mem
  have hkind : ∀ p ∈ s.patches, p.kind.isKnown = true := by
    rcases List.getElem?_of_mem hcovers.section_mem with ⟨j, hj⟩
    exact fun p hp => ((hformat.section_inFormat j s hj).patch_inFormat p hp).2
  exact ⟨b, hb, hafter.byteIs hkind happlies⟩

/-- An object file with two fragments of one ROM0 section. The second one is a relative jump to the
address 0, whose distance a patch fills in. -/
def fragmentBytes : Bytes :=
  -- the header, the numbers of symbols, sections and nodes
  [0x52, 0x4C, 0x4E, 0x4B, 1, 0, 0, 0, 0, 0, 0, 0, 2, 0, 0, 0, 0, 0, 0, 0,
    -- the first fragment
    0x61, 0, 0xFF, 0xFF, 0xFF, 0xFF, 0, 0, 0, 0,
    2, 0, 0, 0, 0x43, 0xFF, 0xFF, 0xFF, 0xFF, 0xFF, 0xFF, 0xFF, 0xFF, 0, 0, 0, 0, 0,
    1, 2, 0, 0, 0, 0,
    -- the second fragment and its patch
    0x61, 0, 0xFF, 0xFF, 0xFF, 0xFF, 0, 0, 0, 0,
    2, 0, 0, 0, 0x43, 0xFF, 0xFF, 0xFF, 0xFF, 0xFF, 0xFF, 0xFF, 0xFF, 0, 0, 0, 0, 0,
    0x18, 0, 1, 0, 0, 0,
    0xFF, 0xFF, 0xFF, 0xFF, 0, 0, 0, 0, 1, 0, 0, 0, 1, 0, 0, 0, 0, 0, 0, 0, 3,
    5, 0, 0, 0, 0x80, 0, 0, 0, 0,
    -- no assertions
    0, 0, 0, 0]

def fragment (id : UInt32) (data : Bytes) (patches : List Patch) : Section :=
  { id, name := [0x61], source := some ⟨none, 0⟩, kind := .rom0, modifier := .fragment, size := 2,
    org := none, bank := none, align := 0, alignOffset := 0, data, patches }

/-- The patch of the jump: its distance is the second byte of the instruction. -/
def fragmentJump : Patch :=
  ⟨some ⟨none, 0⟩, 1, some 1, 0, .jump, [0x80, 0, 0, 0, 0]⟩

def fragmentFile : ObjectFile :=
  { name := [0x66], index := 0,
    sections := [fragment 0 [1, 2] [], fragment 1 [0x18, 0] [fragmentJump]] }

theorem decode_fragmentBytes : Object.decode [0x66] 0 fragmentBytes = .ok (fragmentFile, []) := by
  cbv

set_option maxRecDepth 4000 in
theorem exists_link_fragmentFile :
    ∃ lk program, (start {} {} [fragmentFile]).link 0xFF {} 0 = (lk, .ok program) := by
  refine exists_link_eq_ok ?_ ?_ ?_ ?_ ?_ 0xFF 0
  · unfold Clean
    cbv
  · unfold Clean
    cbv
  · cbv
  · cbv
  · unfold Clean
    cbv

/-- The jump stands behind the first fragment, at the address 2. -/
theorem org_fragment : (start {} {} [fragmentFile]).afterAssigning.registry.org fragmentFile
    (fragment 1 [0x18, 0] [fragmentJump]) = 2 := by
  cbv

/-- The distance of the jump, which stands at the address 2, to the address 0. -/
theorem Stores.eq_of_fragment {n : ℤ} (h : lk.Stores fragmentFile fragmentJump 0 n)
    (horg : lk.registry.org fragmentFile (fragment 1 [0x18, 0] [fragmentJump]) = 2) : n = -4 := by
  cases h with
  | byte kind_eq _ _ => exact absurd kind_eq (by decide)
  | word kind_eq _ _ => exact absurd kind_eq (by decide)
  | long kind_eq => exact absurd kind_eq (by decide)
  | jump _ section_eq low high distance =>
    have hsection : fragmentFile.sectionAt? fragmentJump.pcSection
        = some (fragment 1 [0x18, 0] [fragmentJump]) := rfl
    rcases Option.some.inj (hsection.symm.trans section_eq)
    rw [horg] at distance
    change (0 : ℤ) ≡ 2 + 0 + 2 + n [ZMOD 2 ^ 32] at distance
    unfold Int.ModEq at distance
    omega

/-- The second byte of the jump shows this distance. -/
theorem ByteIs.eq_of_fragment (h : lk.ByteIs fragmentFile (fragment 1 [0x18, 0] [fragmentJump]) 1 b)
    (horg : lk.registry.org fragmentFile (fragment 1 [0x18, 0] [fragmentJump]) = 2) :
    b = 0xFC := by
  have hcovers : fragmentJump.Covers 1 := by decide
  cases h with
  | supplied uncovered _ => exact absurd hcovers (uncovered fragmentJump (List.mem_singleton_self _))
  | @stored before after p value n bytes patches_eq covers last value_eq stores _ _ _ distance =>
    have hmem : p ∈ (fragment 1 [0x18, 0] [fragmentJump]).patches :=
      patches_eq ▸ List.mem_append_cons_self
    rcases List.mem_singleton.mp hmem
    have hzero : (lk.evaluate fragmentFile fragmentJump).2 = .ok 0 :=
      congrArg Expr.Environment.Evaluation.result
        (Expr.Tree.run_compile lk fragmentFile fragmentJump (.const 0))
    rcases Except.ok.inj (hzero.symm.trans value_eq)
    have hb : b.toInt8 = -4 := Int8.toInt_inj.mp ((distance rfl).trans (stores.eq_of_fragment horg))
    have hback := congrArg Int8.toUInt8 hb
    rwa [UInt8.toUInt8_toInt8] at hback

/-- Linking the file with the two fragments succeeds, and its image is as it should be: the first
fragment, then the jump with the distance that leads back to its start. -/
theorem image_of_link_fragments :
    ∃ lk program, (start {} {} [fragmentFile]).link 0xFF {} 0 = (lk, .ok program)
      ∧ (∀ f s i g t j k, lk.Covers [fragmentFile] f s i k → lk.Covers [fragmentFile] g t j k →
        f = g ∧ s = t)
      ∧ (∃ total, Rom.IsBankTotal {} program.sections total
        ∧ program.image.size = 0x4000 + total * 0x4000)
      ∧ (∀ f s i k, lk.Covers [fragmentFile] f s i k →
        ∃ b, program.image[k]? = some b ∧ lk.ByteIs f s i b)
      ∧ (∀ k < program.image.size, (∀ f s i, ¬lk.Covers [fragmentFile] f s i k) →
        program.image[k]? = some 0xFF)
      ∧ program.image[2]? = some 0x18 ∧ program.image[3]? = some 0xFC := by
  rcases exists_link_fragmentFile with ⟨lk, program, hlink⟩
  have hdecoded : ∀ f ∈ [fragmentFile], ∃ name input rest,
      Object.decode name f.index input = .ok (f, rest) := by
    intro f hf
    rcases List.mem_singleton.mp hf
    exact ⟨_, _, _, decode_fragmentBytes⟩
  rcases image_of_link hdecoded (List.nodup_singleton _) (by decide) hlink
    with ⟨hapart, hsize, hbytes, hpad⟩
  have horg : lk.registry.org fragmentFile (fragment 1 [0x18, 0] [fragmentJump]) = 2 :=
    (org_of_outline_eq (outline_of_link hlink)).trans org_fragment
  have hmap : lk.map = {} := by
    show lk.outline.map = {}
    rw [outline_of_link hlink]
    cbv
  have hcovers : ∀ i < 2, lk.Covers [fragmentFile] fragmentFile
      (fragment 1 [0x18, 0] [fragmentJump]) i (2 + i) := by
    intro i hi
    refine ⟨List.mem_singleton_self _, by decide, rfl, hi, ?_⟩
    rw [hmap, horg]
    rfl
  refine ⟨lk, program, hlink, hapart, hsize, hbytes, hpad, ?_, ?_⟩
  · rcases hbytes _ _ 0 2 (hcovers 0 (by decide)) with ⟨b, hb, hbyte⟩
    rw [hb, ← hbyte.getElem?_data (by decide)]
    rfl
  · rcases hbytes _ _ 1 3 (hcovers 1 (by decide)) with ⟨b, hb, hbyte⟩
    rw [hb, hbyte.eq_of_fragment horg]

end Linker

end BankedLinker
