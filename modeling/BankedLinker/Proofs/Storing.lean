import BankedLinker.Proofs.Arithmetic
import BankedLinker.Proofs.Demands
import Mathlib.Data.Int.ModEq
import Mathlib.Data.Nat.Digits.Defs

/-!
# What a patch stores

A patch writes the number that its value stands for, at its place and nowhere else, or it writes
nothing. This file says which values a kind of patch accepts, which number is read back, and which
bytes keep their values.

* `PatchKind.read`: the number that bytes stand for, in the order of a kind of patch;
* `Linker.Stores`: the number that a patch stores for a value;
* `Merged.cell`: the bytes of a merged section, and `Merged.cell_write` what a write does to them;
* `Registry.Backs`: a section of a file whose bytes are a window of a merged section;
* `Linker.apply_exact`: all about one patch.
-/

namespace BankedLinker

/-! ## Numbers and bytes -/

namespace PatchKind

/-- The number that bytes stand for, in the order of the kind. -/
def read (k : PatchKind) (bytes : Bytes) : ℕ :=
  Nat.ofDigits 256 ((if k.isBigEndian then bytes.reverse else bytes).map UInt8.toNat)

theorem eq_of_isKnown {k : PatchKind} (h : k.isKnown = true) :
    k = .byte ∨ k = .word ∨ k = .long ∨ k = .jump ∨ k = .wordBig ∨ k = .longBig := by
  obtain ⟨tag⟩ := k
  have htag : tag.toNat < 6 := UInt8.lt_iff_toNat_lt.mp (of_decide_eq_true h)
  simp only [byte, word, long, jump, wordBig, longBig, mk.injEq, ← UInt8.toNat_inj]
  show tag.toNat = 0 ∨ tag.toNat = 1 ∨ tag.toNat = 2 ∨ tag.toNat = 3 ∨ tag.toNat = 4
    ∨ tag.toNat = 5
  omega

theorem width_eq (k : PatchKind) : k.width = 1 ∨ k.width = 2 ∨ k.width = 4 := by
  unfold width
  split
  · exact Or.inr (Or.inl rfl)
  · split
    · exact Or.inr (Or.inr rfl)
    · exact Or.inl rfl

theorem fits_iff_of_width_one {k : PatchKind} (h : k.width = 1) {value : Int32} :
    k.Fits value ↔ -128 ≤ value.toInt ∧ value.toInt ≤ 255 := by
  unfold Fits
  rw [h]
  omega

theorem fits_iff_of_width_two {k : PatchKind} (h : k.width = 2) {value : Int32} :
    k.Fits value ↔ -32768 ≤ value.toInt ∧ value.toInt ≤ 65535 := by
  unfold Fits
  rw [h]
  omega

/-- Four bytes hold every value. -/
theorem fits_of_width_four {k : PatchKind} (h : k.width = 4) {value : Int32} : k.Fits value := by
  have hlow := value.le_toInt
  have hhigh := value.toInt_lt
  unfold Fits
  rw [h]
  omega

/-- The bytes of a word, least significant first, stand for what the word leaves modulo the power
of two of their number. -/
theorem ofDigits_take_toBytes (w : UInt32) {count : ℕ}
    (hcount : count = 1 ∨ count = 2 ∨ count = 4) :
    Nat.ofDigits 256 (((Word.toBytes w).take count).map UInt8.toNat)
      = w.toNat % 2 ^ (8 * count) := by
  have hlt := w.toNat_lt
  rcases hcount with rfl | rfl | rfl
  · simp [Word.toBytes]
  · simp [Word.toBytes, Nat.ofDigits_cons, Nat.shiftRight_eq_div_pow]
    omega
  · simp [Word.toBytes, Nat.ofDigits_cons, Nat.shiftRight_eq_div_pow]
    omega

/-- The bytes of a number are read as the number, as far as they can hold it. -/
theorem read_encode (k : PatchKind) (number : Int32) :
    (k.read (k.encode number) : ℤ) = number.toInt % 2 ^ (8 * k.width) := by
  have hread : k.read (k.encode number)
      = Nat.ofDigits 256 (((Word.toBytes number.toUInt32).take k.width).map UInt8.toNat) := by
    unfold read encode
    cases k.isBigEndian <;> simp
  have hle : 8 * k.width ≤ 32 := by
    rcases k.width_eq with h | h | h <;> omega
  have hdvd : (2 ^ (8 * k.width) : ℤ) ∣ ((2 ^ 32 : ℕ) : ℤ) := by
    rw [Nat.cast_pow]
    exact pow_dvd_pow 2 hle
  rw [hread, ofDigits_take_toBytes _ k.width_eq, toInt_eq_bmod, ← Int.emod_emod_of_dvd _ hdvd,
    Int.bmod_emod, Int.emod_emod_of_dvd _ hdvd]
  push_cast
  rfl

/-- A number that fits into a signed byte is the byte's number. -/
theorem toInt_encode_jump {number : Int32} (hlow : -128 ≤ number.toInt)
    (hhigh : number.toInt ≤ 127) :
    ∃ b : UInt8, jump.encode number = [b] ∧ b.toInt8.toInt = number.toInt := by
  refine ⟨number.toUInt32.toUInt8, rfl, ?_⟩
  show (number.toUInt32.toUInt8.toBitVec).toInt = _
  rw [BitVec.toInt_eq_toNat_bmod]
  show ((number.toUInt32.toUInt8.toNat : ℕ) : ℤ).bmod (2 ^ 8) = _
  rw [toInt_eq_bmod, Int.bmod_def] at hlow hhigh ⊢
  rw [UInt32.toNat_toUInt8, Int.bmod_def]
  omega

end PatchKind

/-! ## What is stored for a value -/

/-- The distance of a jump is the value less the address of the next instruction, in the arithmetic
of words. -/
theorem toInt_jumpLength_eq_iff {value : Int32} {org : UInt16} {pcOffset : UInt32} {d : ℤ}
    (hlow : -128 ≤ d) (hhigh : d ≤ 127) :
    (jumpLength value org pcOffset).toInt = d
      ↔ value.toInt ≡ org.toNat + pcOffset.toNat + 2 + d [ZMOD 2 ^ 32] := by
  have hnext : ((org.toUInt32 + pcOffset + 2).toInt32).toInt
      = ((org.toUInt32 + pcOffset + 2).toNat : ℤ).bmod (2 ^ 32) := toInt_eq_bmod _
  unfold jumpLength
  rw [Int32.toInt_sub, hnext, UInt32.toNat_add, UInt32.toNat_add, UInt16.toNat_toUInt32,
    show (2 : UInt32).toNat = 2 from rfl]
  rw [Int.bmod_def, Int.bmod_def]
  unfold Int.ModEq
  omega

namespace Linker

variable {lk : Linker} {f : ObjectFile} {s : Section} {p : Patch} {value : Int32} {n : ℤ}

/-- The number that a patch stores for a value. It is the value itself, if that is in the range of
the kind, be it read with or without a sign. A relative jump stores its distance from the next
instruction, which is two bytes after its own. -/
inductive Stores (lk : Linker) (f : ObjectFile) (p : Patch) (value : Int32) : ℤ → Prop
  | byte (kind_eq : p.kind = .byte) (low : -128 ≤ value.toInt) (high : value.toInt ≤ 255) :
      Stores lk f p value value.toInt
  | word (kind_eq : p.kind = .word ∨ p.kind = .wordBig) (low : -32768 ≤ value.toInt)
      (high : value.toInt ≤ 65535) : Stores lk f p value value.toInt
  | long (kind_eq : p.kind = .long ∨ p.kind = .longBig) : Stores lk f p value value.toInt
  | jump {t : Section} {d : ℤ} (kind_eq : p.kind = .jump)
      (section_eq : f.sectionAt? p.pcSection = some t) (low : -128 ≤ d) (high : d ≤ 127)
      (distance : value.toInt
        ≡ (lk.registry.org f t).toNat + p.pcOffset.toNat + 2 + d [ZMOD 2 ^ 32]) :
      Stores lk f p value d

/-- A value that is stored itself is one that fits. -/
theorem stores_iff_of_ne_jump (hkind : p.kind.isKnown = true) (hjump : p.kind ≠ .jump) :
    lk.Stores f p value n ↔ p.kind.Fits value ∧ n = value.toInt := by
  constructor
  · intro h
    cases h with
    | byte kind_eq low high =>
      have hwidth : p.kind.width = 1 := by rw [kind_eq]; rfl
      exact ⟨(PatchKind.fits_iff_of_width_one hwidth).mpr ⟨low, high⟩, rfl⟩
    | word kind_eq low high =>
      have hwidth : p.kind.width = 2 := by rcases kind_eq with h | h <;> rw [h] <;> rfl
      exact ⟨(PatchKind.fits_iff_of_width_two hwidth).mpr ⟨low, high⟩, rfl⟩
    | long kind_eq =>
      have hwidth : p.kind.width = 4 := by rcases kind_eq with h | h <;> rw [h] <;> rfl
      exact ⟨PatchKind.fits_of_width_four hwidth, rfl⟩
    | jump kind_eq _ _ _ _ => exact absurd kind_eq hjump
  · rintro ⟨hfits, rfl⟩
    rcases PatchKind.eq_of_isKnown hkind with h | h | h | h | h | h
    · obtain ⟨hlow, hhigh⟩ := (PatchKind.fits_iff_of_width_one (by rw [h]; rfl)).mp hfits
      exact .byte h hlow hhigh
    · obtain ⟨hlow, hhigh⟩ := (PatchKind.fits_iff_of_width_two (by rw [h]; rfl)).mp hfits
      exact .word (Or.inl h) hlow hhigh
    · exact .long (Or.inl h)
    · exact absurd h hjump
    · obtain ⟨hlow, hhigh⟩ := (PatchKind.fits_iff_of_width_two (by rw [h]; rfl)).mp hfits
      exact .word (Or.inr h) hlow hhigh
    · exact .long (Or.inr h)

/-- What a relative jump stores is its distance, if that is in the range of a signed byte. -/
theorem stores_iff_of_jump (hjump : p.kind = .jump) :
    lk.Stores f p value n
      ↔ ∃ t, f.sectionAt? p.pcSection = some t ∧ -128 ≤ n ∧ n ≤ 127
        ∧ (jumpLength value (lk.registry.org f t) p.pcOffset).toInt = n := by
  constructor
  · intro h
    cases h with
    | byte kind_eq _ _ => rw [hjump] at kind_eq; cases kind_eq
    | word kind_eq _ _ => rw [hjump] at kind_eq; rcases kind_eq with h | h <;> cases h
    | long kind_eq => rw [hjump] at kind_eq; rcases kind_eq with h | h <;> cases h
    | jump kind_eq section_eq low high distance =>
      exact ⟨_, section_eq, low, high, (toInt_jumpLength_eq_iff low high).mpr distance⟩
  · rintro ⟨t, hsection, hlow, hhigh, hlength⟩
    exact .jump hjump hsection hlow hhigh ((toInt_jumpLength_eq_iff hlow hhigh).mp hlength)

/-- The number that is stored is the one that the linker computes, and it fits. -/
theorem stores_iff (hkind : p.kind.isKnown = true) :
    lk.Stores f p value n
      ↔ ∃ number, lk.patchedValue f p value = .ok number ∧ p.kind.Fits number
        ∧ number.toInt = n := by
  unfold patchedValue
  by_cases hjump : p.kind = .jump
  · rw [stores_iff_of_jump hjump, if_pos hjump, hjump]
    cases f.sectionAt? p.pcSection with
    | none => simp
    | some t =>
      simp only [Option.some.injEq, exists_eq_left', jumpDistance_eq_ok_iff]
      constructor
      · rintro ⟨hlow, hhigh, rfl⟩
        refine ⟨_, ⟨rfl, hlow, hhigh⟩, ?_, rfl⟩
        exact (PatchKind.fits_iff_of_width_one rfl).mpr ⟨hlow, by omega⟩
      · rintro ⟨number, ⟨rfl, hlow, hhigh⟩, -, rfl⟩
        exact ⟨hlow, hhigh, rfl⟩
  · rw [stores_iff_of_ne_jump hkind hjump, if_neg hjump]
    simp [eq_comm]

/-- A patch has bytes to write exactly if it has a number to store, inside of its section. -/
theorem exists_patchedBytes_iff_stores (hkind : p.kind.isKnown = true) :
    (∃ bytes, lk.patchedBytes f s p value = .ok bytes)
      ↔ (∃ n, lk.Stores f p value n) ∧ lk.Inside f s p := by
  rw [exists_patchedBytes_iff]
  apply and_congr_left'
  constructor
  · rintro ⟨number, hnumber, hfits⟩
    exact ⟨number.toInt, (stores_iff hkind).mpr ⟨number, hnumber, hfits, rfl⟩⟩
  · rintro ⟨n, hstores⟩
    obtain ⟨number, hnumber, hfits, -⟩ := (stores_iff hkind).mp hstores
    exact ⟨number, hnumber, hfits⟩

/-- The bytes of the number that is stored are read as this number, in the order of the kind. -/
theorem read_encode_of_stores (hkind : p.kind.isKnown = true) {number : Int32}
    (hnumber : lk.patchedValue f p value = .ok number) (hstores : lk.Stores f p value n) :
    (p.kind.encode number).length = p.kind.width
      ∧ (p.kind.read (p.kind.encode number) : ℤ) = n % 2 ^ (8 * p.kind.width)
      ∧ (p.kind = .jump → ∃ b : UInt8, p.kind.encode number = [b] ∧ b.toInt8.toInt = n) := by
  obtain ⟨number', hnumber', -, rfl⟩ := (stores_iff hkind).mp hstores
  obtain rfl : number = number' := Except.ok.inj (hnumber.symm.trans hnumber')
  refine ⟨PatchKind.length_encode _ _, PatchKind.read_encode _ _, ?_⟩
  intro hjump
  obtain ⟨t, -, hlow, hhigh, -⟩ := (stores_iff_of_jump hjump).mp hstores
  rw [hjump]
  exact PatchKind.toInt_encode_jump hlow hhigh

/-- The bytes of a patch hold its number in the order of its kind. -/
theorem read_of_patchedBytes (hkind : p.kind.isKnown = true) {bytes : Bytes}
    (hbytes : lk.patchedBytes f s p value = .ok bytes) (hstores : lk.Stores f p value n) :
    bytes.length = p.kind.width ∧ (p.kind.read bytes : ℤ) = n % 2 ^ (8 * p.kind.width)
      ∧ (p.kind = .jump → ∃ b : UInt8, bytes = [b] ∧ b.toInt8.toInt = n) := by
  obtain ⟨number, hnumber, rfl⟩ := patchedBytes_eq_ok hbytes
  exact read_encode_of_stores hkind hnumber hstores

end Linker

/-! ## Windows of merged bytes -/

namespace Merged

/-- The byte at a position of a merged section. What nobody supplied or wrote is zero. -/
def cell (m : Merged) (k : ℕ) : UInt8 :=
  m.buffer[k]?.getD 0

/-- A window shows the bytes from its position on. -/
theorem getElem?_window (m : Merged) (x : Member) (k : ℕ) :
    (m.window x)[k]?
      = if k < x.content.size.toNat then some (m.cell (x.offset.toNat + k)) else none := by
  unfold window cell
  dsimp only
  rw [List.getElem?_append, Array.length_toList, Array.getElem?_toList, Array.size_extract,
    Array.getElem?_extract, List.getElem?_replicate]
  by_cases hk : k < x.content.size.toNat
  · rw [if_pos hk]
    by_cases hstored : x.offset.toNat + k < m.buffer.size
    · rw [if_pos (by omega), if_pos (by omega), Array.getElem?_eq_getElem hstored]
      rfl
    · rw [if_neg (by omega), if_pos (by omega), Array.getElem?_eq_none (by omega)]
      rfl
  · rw [if_neg hk, if_neg (by omega), if_neg (by omega)]

/-- Where there is no room yet, a write makes it. -/
theorem buffer_write_of_lt {m : Merged} {position : ℕ} {new : Bytes}
    (h : m.data.size < position + new.length) :
    (m.write position new).buffer
      = overwrite (m.buffer ++ Array.replicate (position + new.length - m.buffer.size) 0)
          position new := by
  unfold write buffer
  dsimp only
  rw [if_neg (by omega)]
  apply Array.toList_inj.mp
  simp

theorem size_data_write (m : Merged) (position : ℕ) (new : Bytes) :
    (m.write position new).data.size = m.data.size := by
  unfold write
  dsimp only
  split
  · exact size_overwrite ..
  · show (Array.take _ m.data.size).size = m.data.size
    rw [Array.take_eq_extract, Array.size_extract, size_overwrite]
    unfold buffer
    rw [Array.size_append, Array.size_append]
    omega

/-- A write changes the bytes that it covers and no others. -/
theorem cell_write (m : Merged) (position : ℕ) (new : Bytes) (k : ℕ) :
    (m.write position new).cell k
      = if position ≤ k ∧ k < position + new.length then new[k - position]?.getD 0
        else m.cell k := by
  unfold cell
  by_cases hroom : position + new.length ≤ m.data.size
  · have hbuffer : (m.write position new).buffer = overwrite m.data position new ++ m.tail := by
      unfold write buffer
      dsimp only
      rw [if_pos hroom]
    rw [hbuffer, Array.getElem?_append, size_overwrite, getElem?_overwrite hroom]
    unfold buffer
    rw [Array.getElem?_append]
    by_cases hin : position ≤ k ∧ k < position + new.length
    · rw [if_pos hin, if_pos hin, if_pos (by omega)]
    · rw [if_neg hin, if_neg hin]
  · have hfits : position + new.length ≤ (m.buffer
        ++ Array.replicate (position + new.length - m.buffer.size) (0 : UInt8)).size := by
      rw [Array.size_append, Array.size_replicate]
      omega
    rw [buffer_write_of_lt (by omega), getElem?_overwrite hfits]
    split
    · rfl
    · -- the room that was made is filled with zeros
      rw [Array.getElem?_append, Array.getElem?_replicate]
      split
      · rfl
      · next hk =>
        rw [Array.getElem?_eq_none (by omega)]
        split <;> rfl

end Merged

namespace Registry

variable {r : Registry} {f g : ObjectFile} {s t : Section} {i : ℕ} {m : Merged} {x : Member}

/-- The bytes of a section of a file are the window of the member `x` of the merged section `m`,
which is at position `i`. -/
structure Backs (r : Registry) (f : ObjectFile) (s : Section) (i : ℕ) (m : Merged) (x : Member) :
    Prop where
  position_eq : r.positions[s.name]? = some i
  section_eq : r.sections[i]? = some m
  member_eq : m.member? (callKey (f, s)) = some x
  hasData_eq : s.kind.hasData = true

/-- The byte `k` of the merged section at position `i` is a byte of the section of the file. -/
def Shows (r : Registry) (i k : ℕ) (f : ObjectFile) (s : Section) : Prop :=
  ∃ m x, r.Backs f s i m x ∧ x.offset.toNat ≤ k ∧ k < x.offset.toNat + x.content.size.toNat

theorem bytes_of_hasData_eq_false (h : s.kind.hasData = false) : r.bytes f s = s.data := by
  unfold bytes
  cases r.find? s.name with
  | none => rfl
  | some m => cases h' : m.member? ⟨f.index, s.id⟩ <;> simp [h, h']

namespace Backs

theorem find?_eq (h : r.Backs f s i m x) : r.find? s.name = some m := by
  unfold find?
  rw [h.position_eq, Option.bind_some, h.section_eq]

theorem member?_eq (h : r.Backs f s i m x) : r.member? f s = some x := by
  unfold member?
  rw [h.find?_eq, Option.bind_some]
  exact h.member_eq

theorem bytes_eq (h : r.Backs f s i m x) : r.bytes f s = m.window x := by
  have hmember : m.member? ⟨f.index, s.id⟩ = some x := h.member_eq
  unfold bytes
  rw [h.find?_eq]
  dsimp only
  rw [hmember]
  exact if_pos h.hasData_eq

variable {position : ℕ} {new : Bytes}

/-- A write into such a section is a write into the merged bytes. -/
theorem writeInto_eq (h : r.Backs f s i m x) (hname : x.content.name = s.name) :
    r.writeInto f s position new
      = { r with sections := r.sections.modify i (·.write (x.offset.toNat + position) new) } := by
  unfold writeInto
  rw [h.hasData_eq, h.member?_eq]
  dsimp only
  unfold writeWindow
  rw [hname, h.position_eq]

theorem section_writeInto (h : r.Backs f s i m x) (hname : x.content.name = s.name) (j : ℕ) :
    (r.writeInto f s position new).sections[j]?
      = if j = i then some (m.write (x.offset.toNat + position) new) else r.sections[j]? := by
  rw [h.writeInto_eq hname, Array.getElem?_modify]
  by_cases hj : j = i
  · rw [if_pos hj.symm, if_pos hj, hj, h.section_eq, Option.map_some]
  · rw [if_neg (Ne.symm hj), if_neg hj]

theorem positions_writeInto (h : r.Backs f s i m x) (hname : x.content.name = s.name) :
    (r.writeInto f s position new).positions = r.positions := by
  rw [h.writeInto_eq hname]

/-- All windows of the merged section stay where they are. -/
theorem backs_writeInto (h : r.Backs f s i m x) (hname : x.content.name = s.name) {y : Member}
    (h' : r.Backs g t i m y) :
    (r.writeInto f s position new).Backs g t i (m.write (x.offset.toNat + position) new) y where
  position_eq := by
    rw [h.positions_writeInto hname]
    exact h'.position_eq
  section_eq := by rw [h.section_writeInto hname, if_pos rfl]
  member_eq := by
    have hmembers : (m.write (x.offset.toNat + position) new).members = m.members := by
      unfold Merged.write
      dsimp only
      split <;> rfl
    unfold Merged.member?
    rw [hmembers]
    exact h'.member_eq
  hasData_eq := h'.hasData_eq

/-- What is written stands in the section that it was written into. -/
theorem getElem?_bytes_writeInto (h : r.Backs f s i m x) (hname : x.content.name = s.name)
    (hfits : position + new.length ≤ (r.bytes f s).length) (k : ℕ) :
    ((r.writeInto f s position new).bytes f s)[k]?
      = if position ≤ k ∧ k < position + new.length then new[k - position]?
        else (r.bytes f s)[k]? := by
  rw [h.bytes_eq, Merged.length_window] at hfits
  rw [(h.backs_writeInto hname h).bytes_eq, h.bytes_eq, Merged.getElem?_window,
    Merged.getElem?_window, Merged.cell_write]
  by_cases hin : position ≤ k ∧ k < position + new.length
  · have hget : new[k - position]? = some new[k - position] :=
      List.getElem?_eq_getElem (by omega)
    rw [if_pos (by omega), if_pos (by omega), if_pos hin,
      show x.offset.toNat + k - (x.offset.toNat + position) = k - position by omega, hget]
    rfl
  · have hout : ¬(x.offset.toNat + position ≤ x.offset.toNat + k
        ∧ x.offset.toNat + k < x.offset.toNat + position + new.length) := by omega
    rw [if_neg hin, if_neg hout]

/-- A section that shows none of the bytes that are written keeps its own. -/
theorem bytes_writeInto_of_not_shows (h : r.Backs f s i m x) (hname : x.content.name = s.name)
    (hout : ∀ k, position ≤ k → k < position + new.length →
      ¬r.Shows i (x.offset.toNat + k) g t) :
    (r.writeInto f s position new).bytes g t = r.bytes g t := by
  by_cases hbacks : ∃ y, r.Backs g t i m y
  · -- another window of the same merged section
    obtain ⟨y, hy⟩ := hbacks
    rw [(h.backs_writeInto hname hy).bytes_eq, hy.bytes_eq]
    apply List.ext_getElem?
    intro k
    rw [Merged.getElem?_window, Merged.getElem?_window, Merged.cell_write]
    by_cases hk : k < y.content.size.toNat
    · rw [if_pos hk, if_pos hk, if_neg]
      intro hin
      apply hout (y.offset.toNat + k - x.offset.toNat) (by omega) (by omega)
      exact ⟨m, y, hy, by omega, by omega⟩
    · rw [if_neg hk, if_neg hk]
  cases hdata : t.kind.hasData with
  | false => rw [bytes_of_hasData_eq_false hdata, bytes_of_hasData_eq_false hdata]
  | true =>
    unfold bytes find?
    rw [h.positions_writeInto hname]
    cases hposition : r.positions[t.name]? with
    | none => rfl
    | some j =>
      rw [Option.bind_some, Option.bind_some, h.section_writeInto hname]
      by_cases hj : j = i
      · -- no member, before and after
        subst hj
        have hmember : m.member? (callKey (g, t)) = none := by
          cases hmember : m.member? (callKey (g, t)) with
          | none => rfl
          | some y => exact absurd ⟨y, hposition, h.section_eq, hmember, hdata⟩ hbacks
        have hmembers : (m.write (x.offset.toNat + position) new).member? (callKey (g, t))
            = none := by
          rw [← hmember]
          unfold Merged.member? Merged.write
          dsimp only
          split <;> rfl
        rw [if_pos rfl, h.section_eq]
        dsimp only
        rw [show (⟨g.index, t.id⟩ : SectionKey) = callKey (g, t) from rfl, hmember, hmembers]
      · rw [if_neg hj]

end Backs

theorem Houses.window_of_backs {calls : List (ObjectFile × Section)} (hr : r.Houses calls)
    (hcall : (f, s) ∈ calls) (hback : r.Backs f s i m x) : r.Window f s i m x := by
  obtain ⟨j, n, y, hw⟩ := hr.window f s hcall
  obtain rfl : j = i := Option.some.inj (hw.position_eq.symm.trans hback.position_eq)
  obtain rfl : n = m := Option.some.inj (hw.section_eq.symm.trans hback.section_eq)
  obtain rfl : y = x := Option.some.inj (hw.member_eq.symm.trans hback.member_eq)
  exact hw

/-- Where windows do not overlap, no other section shows a byte of a member. -/
theorem Houses.not_shows {calls : List (ObjectFile × Section)} (hr : r.Houses calls)
    (hback : r.Backs f s i m x) (hcall : (f, s) ∈ calls) (hcall' : (g, t) ∈ calls)
    (hne : (g, t) ≠ (f, s)) {c : ℕ} (hc : c < x.content.size.toNat) :
    ¬r.Shows i (x.offset.toNat + c) g t := by
  rintro ⟨n, y, hback', hlow, hhigh⟩
  have hw : r.Window f s i m x := hr.window_of_backs hcall hback
  have hw' : r.Window g t i n y := hr.window_of_backs hcall' hback'
  obtain rfl : m = n := Option.some.inj (hback.section_eq.symm.trans hback'.section_eq)
  rw [hw.content_eq] at hc
  rw [hw'.content_eq] at hhigh
  apply hne
  exact (hw.call_eq_of_offset_eq hw' hr hback.hasData_eq hc
    (b := x.offset.toNat + c - y.offset.toNat) (by omega) (by omega)).symm

end Registry

/-- The bytes at the place of a patch, among those of its section. -/
def Patch.slice (p : Patch) (bytes : Bytes) : Bytes :=
  (bytes.drop p.offset.toNat).take p.kind.width

theorem Patch.slice_eq_of_getElem? {p : Patch} {new before after : Bytes}
    (hlength : new.length = p.kind.width)
    (h : ∀ k, after[k]? = if p.offset.toNat ≤ k ∧ k < p.offset.toNat + new.length
      then new[k - p.offset.toNat]? else before[k]?) : p.slice after = new := by
  apply List.ext_getElem?
  intro k
  unfold slice
  rw [List.getElem?_take, List.getElem?_drop, h, ← hlength]
  by_cases hk : k < new.length
  · rw [if_pos hk, if_pos (by omega), Nat.add_sub_cancel_left]
  · rw [if_neg hk, List.getElem?_eq_none (by omega)]

namespace Linker

variable {lk : Linker} {f : ObjectFile} {s : Section} {p : Patch}

/-! ## One patch -/

theorem apply_eq_ok_iff :
    (lk.apply f s p).2 = .ok ()
      ↔ ∃ value bytes, (lk.evaluate f p).2 = .ok value
        ∧ lk.patchedBytes f s p value = .ok bytes := by
  -- evaluation changes nothing that the bytes depend on
  have hsame : ∀ value, (lk.evaluate f p).1.patchedBytes f s p value
      = lk.patchedBytes f s p value := fun _ => rfl
  unfold apply
  dsimp only
  cases (lk.evaluate f p).2 with
  | error e => simp
  | ok value =>
    dsimp only
    rw [hsame]
    cases hbytes : lk.patchedBytes f s p value with
    | error e => simp [hbytes]
    | ok bytes => simp [hbytes]

/-- A patch that is applied writes its bytes into the registry or into a file. -/
theorem apply_of_patchedBytes {value : Int32} {bytes : Bytes}
    (hvalue : (lk.evaluate f p).2 = .ok value)
    (hbytes : lk.patchedBytes f s p value = .ok bytes) :
    (lk.apply f s p).1 = (lk.evaluate f p).1.write f s p.offset.toNat bytes := by
  have hsame : (lk.evaluate f p).1.patchedBytes f s p value = .ok bytes := hbytes
  unfold apply
  dsimp only
  rw [hvalue]
  dsimp only
  rw [hsame]

/-- A patch that is not applied was evaluated at most. -/
theorem apply_of_ne_ok (h : (lk.apply f s p).2 ≠ .ok ()) :
    (lk.apply f s p).1 = (lk.evaluate f p).1 := by
  unfold apply at h ⊢
  dsimp only at h ⊢
  split
  · rfl
  split
  · rfl
  next value hvalue _ bytes hbytes =>
  rw [hvalue] at h
  dsimp only at h
  rw [hbytes] at h
  exact absurd rfl h

/-- All bytes of the second linker are those of the first one, but for the bytes of the merged
section at position `i` that a patch of its member `x` covers. -/
structure WritesOnly (lk lk' : Linker) (i : ℕ) (x : Member) (p : Patch) : Prop where
  files_eq : lk'.files = lk.files
  section_eq : ∀ j ≠ i, lk'.registry.sections[j]? = lk.registry.sections[j]?
  cell_eq : ∀ m, lk.registry.sections[i]? = some m →
    ∃ m', lk'.registry.sections[i]? = some m' ∧ m'.data.size = m.data.size
      ∧ ∀ k, (∀ c, p.Covers c → k ≠ x.offset.toNat + c) → m'.cell k = m.cell k
  bytes_eq : ∀ g t, (∀ c, p.Covers c → ¬lk.registry.Shows i (x.offset.toNat + c) g t) →
    lk'.registry.bytes g t = lk.registry.bytes g t

/-- Where a section is a window of a merged section, writing into it leaves the files alone. -/
theorem files_write {i : ℕ} {m : Merged} {x : Member} (h : lk.registry.Backs f s i m x)
    (position : ℕ) (new : Bytes) : (lk.write f s position new).files = lk.files := by
  unfold write
  rw [h.hasData_eq, h.member?_eq]

/-- A patch writes only what it covers. -/
theorem writesOnly_of_patchedBytes {i : ℕ} {m : Merged} {x : Member} {value : Int32}
    {bytes : Bytes} (hback : lk.registry.Backs f s i m x) (hname : x.content.name = s.name)
    (hvalue : (lk.evaluate f p).2 = .ok value)
    (hbytes : lk.patchedBytes f s p value = .ok bytes)
    (hlength : bytes.length = p.kind.width) : lk.WritesOnly (lk.apply f s p).1 i x p := by
  rw [apply_of_patchedBytes hvalue hbytes]
  constructor
  · have hevaluated : (lk.evaluate f p).1.registry.Backs f s i m x := hback
    exact files_write hevaluated p.offset.toNat bytes
  · intro j hj
    rw [registry_write]
    exact (hback.section_writeInto hname j).trans (if_neg hj)
  · intro n hn
    obtain rfl : m = n := Option.some.inj (hback.section_eq.symm.trans hn)
    refine ⟨m.write (x.offset.toNat + p.offset.toNat) bytes, ?_, Merged.size_data_write _ _ _, ?_⟩
    · rw [registry_write]
      exact (hback.section_writeInto hname i).trans (if_pos rfl)
    · intro k hk
      rw [Merged.cell_write, if_neg]
      intro hin
      exact hk (k - x.offset.toNat) ⟨by omega, by omega⟩ (by omega)
  · intro g t hout
    rw [registry_write]
    apply hback.bytes_writeInto_of_not_shows hname
    intro c hlow hhigh
    exact hout c ⟨hlow, hlength ▸ hhigh⟩

/-- In a section that is a window of a merged section, a patch is applied exactly if its expression
has a value, its bytes lie inside of the section, and its kind has a number to store for the value.
Then these bytes, in the order of the kind, are the number modulo what they can hold, and no other
byte changes; no byte of another section does if windows do not overlap. A patch that is not
applied changes no byte at all. -/
theorem apply_exact {i : ℕ} {m : Merged} {x : Member} (hback : lk.registry.Backs f s i m x)
    (hname : x.content.name = s.name) (hkind : p.kind.isKnown = true) :
    ((lk.apply f s p).2 = .ok ()
      ↔ ∃ value n, (lk.evaluate f p).2 = .ok value ∧ lk.Stores f p value n
        ∧ p.offset.toNat + p.kind.width ≤ (lk.registry.bytes f s).length)
    ∧ ((lk.apply f s p).2 = .ok () →
      (∀ value n, (lk.evaluate f p).2 = .ok value → lk.Stores f p value n →
        (p.kind.read (p.slice ((lk.apply f s p).1.registry.bytes f s)) : ℤ)
          = n % 2 ^ (8 * p.kind.width)
        ∧ (p.kind = .jump → ∃ b : UInt8,
          p.slice ((lk.apply f s p).1.registry.bytes f s) = [b] ∧ b.toInt8.toInt = n))
      ∧ lk.WritesOnly (lk.apply f s p).1 i x p
      ∧ ∀ calls, lk.registry.Houses calls → (f, s) ∈ calls → ∀ g t, (g, t) ∈ calls →
        (g, t) ≠ (f, s) → (lk.apply f s p).1.registry.bytes g t = lk.registry.bytes g t)
    ∧ ((lk.apply f s p).2 ≠ .ok () →
      (lk.apply f s p).1.registry = lk.registry ∧ (lk.apply f s p).1.files = lk.files) := by
  have hinside : lk.Inside f s p
      ↔ p.offset.toNat + p.kind.width ≤ (lk.registry.bytes f s).length := by
    rw [Registry.length_bytes]
    exact Iff.rfl
  refine ⟨?_, ?_, ?_⟩
  · rw [apply_eq_ok_iff, ← hinside]
    constructor
    · rintro ⟨value, bytes, hvalue, hbytes⟩
      obtain ⟨⟨n, hstores⟩, hin⟩ := (exists_patchedBytes_iff_stores hkind).mp ⟨bytes, hbytes⟩
      exact ⟨value, n, hvalue, hstores, hin⟩
    · rintro ⟨value, n, hvalue, hstores, hin⟩
      obtain ⟨bytes, hbytes⟩ := (exists_patchedBytes_iff_stores hkind).mpr ⟨⟨n, hstores⟩, hin⟩
      exact ⟨value, bytes, hvalue, hbytes⟩
  · intro h
    obtain ⟨value, bytes, hvalue, hbytes⟩ := apply_eq_ok_iff.mp h
    obtain ⟨⟨n, hstores⟩, hin⟩ := (exists_patchedBytes_iff_stores hkind).mp ⟨bytes, hbytes⟩
    have hlength := (read_of_patchedBytes hkind hbytes hstores).1
    have hfits : p.offset.toNat + bytes.length ≤ (lk.registry.bytes f s).length := by
      rw [hlength]
      exact hinside.mp hin
    have hslice : p.slice ((lk.apply f s p).1.registry.bytes f s) = bytes := by
      rw [apply_of_patchedBytes hvalue hbytes, registry_write]
      exact Patch.slice_eq_of_getElem? hlength (hback.getElem?_bytes_writeInto hname hfits)
    have honly := writesOnly_of_patchedBytes hback hname hvalue hbytes hlength
    refine ⟨?_, honly, ?_⟩
    · intro value' n' hvalue' hstores'
      obtain rfl : value = value' := Except.ok.inj (hvalue.symm.trans hvalue')
      rw [hslice]
      exact (read_of_patchedBytes hkind hbytes hstores').2
    · intro calls hr hcall g t hcall' hne
      apply honly.bytes_eq
      intro c hc
      apply hr.not_shows hback hcall hcall' hne
      rw [hback.bytes_eq, Merged.length_window, hlength] at hfits
      exact Nat.lt_of_lt_of_le hc.2 hfits
  · intro h
    rw [apply_of_ne_ok h]
    exact ⟨rfl, rfl⟩

/-- A jump forward from the start of a section at `0x100`, to `0x180`. -/
def jumpPatch : Patch :=
  ⟨none, 1, some 0, 0, .jump, [0x80, 0x80, 1, 0, 0]⟩

/-- The section of the jump. -/
def jumpSection : Section :=
  { id := 0, name := "a", source := none, kind := .rom0, modifier := .normal, size := 2,
    org := some 0x100, bank := none, align := 0, alignOffset := 0, data := [0x18, 0],
    patches := [jumpPatch] }

/-- The file of the section. -/
def jumpFile : ObjectFile :=
  { name := "j", index := 0, sections := [jumpSection] }

/-- The file is collected. -/
def jumpLinker : Linker :=
  (start {} {} [jumpFile]).afterMerging

theorem backs_jumpSection :
    jumpLinker.registry.Backs jumpFile jumpSection 0 jumpLinker.registry.sections[0]!
        jumpLinker.registry.sections[0]!.members[0]!
      ∧ jumpLinker.registry.sections[0]!.members[0]!.content.name = jumpSection.name := by
  refine ⟨⟨?_, ?_, ?_, ?_⟩, ?_⟩
  · cbv
  · cbv
  · cbv
  · cbv
  · cbv

/-- The jump is applied, and its byte is the distance to its target. -/
theorem apply_exact_jumpPatch :
    jumpPatch.kind.isKnown = true
    ∧ (jumpLinker.apply jumpFile jumpSection jumpPatch).2 = .ok ()
    ∧ ∃ b : UInt8, jumpPatch.slice ((jumpLinker.apply jumpFile jumpSection
        jumpPatch).1.registry.bytes jumpFile jumpSection) = [b] ∧ b.toInt8.toInt = 126 := by
  obtain ⟨hback, hname⟩ := backs_jumpSection
  obtain ⟨happlied, hwritten, -⟩ := apply_exact (p := jumpPatch) hback hname rfl
  have horg : (jumpLinker.registry.org jumpFile jumpSection).toNat = 0x100 := by cbv
  have hconstant : ∀ env : Expr.Environment, (env.run jumpPatch.expr).result = .ok 0x180 := by
    intro env
    cbv
  have hvalue : (jumpLinker.evaluate jumpFile jumpPatch).2 = .ok 0x180 := hconstant _
  have hstores : jumpLinker.Stores jumpFile jumpPatch 0x180 126 := by
    apply Stores.jump rfl (t := jumpSection) rfl (by decide) (by decide)
    rw [horg]
    decide
  have hok := happlied.mpr ⟨0x180, 126, hvalue, hstores, by cbv⟩
  exact ⟨rfl, hok, ((hwritten hok).1 0x180 126 hvalue hstores).2 rfl⟩

end Linker

end BankedLinker
