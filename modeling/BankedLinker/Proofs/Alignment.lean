import BankedLinker.Section.Constraints
import Mathlib.Data.Int.ModEq
import Mathlib.Tactic.Ring

/-!
# What an alignment means

`Alignment` computes with masks on machine words. This file says what the masks stand for: an
address suits an alignment if it differs from the offset by a multiple of a power of two.

* `Alignment.Suits` is that condition on unbounded numbers;
* `Alignment.holds_iff`, `Alignment.suits_shiftBack`, `Alignment.Suits.of_agree` and
  `Alignment.agree_of_suits` read the word operations `holds`, `shiftBack` and `agree` as
  statements about it;
* `Alignment.le_roundUp`, `Alignment.suits_roundUp` and `Alignment.roundUp_le` say that `roundUp`
  is the least suitable address.
-/

namespace BankedLinker
namespace Alignment

/-- Whether an address differs from `offset` by a multiple of two to the power of `align`. -/
def Suits (align : UInt8) (offset : UInt16) (address : ℕ) : Prop :=
  (2 ^ align.toNat : ℤ) ∣ (address : ℤ) - offset.toNat

instance (align : UInt8) (offset : UInt16) (address : ℕ) :
    Decidable (Suits align offset address) :=
  inferInstanceAs (Decidable (_ ∣ _))

theorem suits_iff_modEq {align : UInt8} {offset : UInt16} {address : ℕ} :
    Suits align offset address ↔ (offset.toNat : ℤ) ≡ address [ZMOD 2 ^ align.toNat] :=
  Int.modEq_iff_dvd.symm

/-- Every address suits the alignment zero. -/
theorem suits_of_align_eq_zero {align : UInt8} (h : align = 0) (offset : UInt16) (address : ℕ) :
    Suits align offset address := by
  subst h
  exact one_dvd _

/-! ## Masks -/

theorem toNat_mask {align : UInt8} (h : align.toNat ≤ 32) :
    (mask align).toNat = 2 ^ align.toNat - 1 := by
  -- there are few alignments, so that they can be tried
  have hcases : ∀ n : ℕ, n ≤ 32 → (mask (UInt8.ofNat n)).toNat = 2 ^ n - 1 := by decide
  have := hcases align.toNat h
  rwa [UInt8.ofNat_toNat] at this

/-- Masking a word is reducing it modulo a power of two. -/
theorem toNat_and_mask {align : UInt8} (h : align.toNat ≤ 32) (x : UInt32) :
    (x &&& mask align).toNat = x.toNat % 2 ^ align.toNat := by
  rw [UInt32.toNat_and, toNat_mask h, Nat.and_two_pow_sub_one_eq_mod]

theorem two_pow_dvd_word {n : ℕ} (h : n ≤ 32) : (2 ^ n : ℤ) ∣ 2 ^ 32 :=
  pow_dvd_pow 2 h

/-- Subtraction of words is subtraction of integers modulo every power of two that divides their
range. -/
theorem toNat_sub_modEq {n : ℕ} (h : n ≤ 32) (a b : UInt32) :
    ((a - b).toNat : ℤ) ≡ (a.toNat : ℤ) - b.toNat [ZMOD 2 ^ n] := by
  have hb : b.toNat ≤ 2 ^ 32 := b.toNat_lt.le
  rw [UInt32.toNat_sub]
  -- the word is the integer modulo `2 ^ 32`, of which `2 ^ n` is a divisor
  have hword : (((2 ^ 32 - b.toNat + a.toNat) % 2 ^ 32 : ℕ) : ℤ)
      ≡ (a.toNat : ℤ) - b.toNat [ZMOD 2 ^ 32] := by
    rw [Int.modEq_iff_dvd]
    omega
  exact hword.of_dvd (two_pow_dvd_word h)

/-- A masked difference is congruent to the difference of integers. -/
theorem toNat_sub_and_mask_modEq (align : UInt8) (h : align.toNat ≤ 32) (a b : UInt32) :
    (((a - b) &&& mask align).toNat : ℤ) ≡ (a.toNat : ℤ) - b.toNat [ZMOD 2 ^ align.toNat] := by
  rw [toNat_and_mask h]
  push_cast
  exact (Int.mod_modEq _ _).trans (toNat_sub_modEq h a b)

/-! ## Testing an address -/

theorem holds_iff {address : UInt32} {align : UInt8} {offset : UInt16} (h : align.toNat ≤ 32) :
    holds address align offset = true ↔ Suits align offset address.toNat := by
  have hsub := toNat_sub_modEq h address offset.toUInt32
  rw [UInt16.toNat_toUInt32] at hsub
  unfold holds Suits
  rw [decide_eq_true_eq, ← UInt32.toNat_inj, toNat_and_mask h, UInt32.toNat_zero,
    ← Int.natCast_inj]
  push_cast
  rw [hsub, Int.dvd_iff_emod_eq_zero]

/-- An address that passes the test suits the alignment, however large the alignment is. -/
theorem suits_of_holds {address : UInt32} {align : UInt8} {offset : UInt16}
    (h : holds address align offset = true) : Suits align offset address.toNat := by
  by_cases halign : align.toNat ≤ 32
  · exact (holds_iff halign).mp h
  · -- from 32 on the test compares all bits
    have hmask : mask align = -1 := if_pos (UInt8.le_iff_toNat_le.mpr (by simp; omega))
    have hzero : address - offset.toUInt32 = 0 := by
      simpa [holds, hmask] using h
    have haddress : address = offset.toUInt32 := by
      rw [← UInt32.sub_add_cancel address offset.toUInt32, hzero, UInt32.zero_add]
    simp [Suits, haddress]

/-! ## Rounding up -/

section RoundUp

variable {address : UInt32} {align : UInt8} (offset : UInt16)

/-- Nothing wraps while the address is one of the machine's. -/
theorem toNat_roundUp (halign : align.toNat ≤ 16) (haddress : address.toNat ≤ 2 ^ 16) :
    (roundUp address align offset).toNat
      = address.toNat + ((offset.toUInt32 - address) &&& mask align).toNat := by
  have hpow : 2 ^ align.toNat ≤ 2 ^ 16 := Nat.pow_le_pow_right (by norm_num) halign
  -- the step is less than the alignment, and so is no larger than the address space
  have hlt : ((offset.toUInt32 - address) &&& mask align).toNat < 2 ^ 16 := by
    rw [toNat_and_mask (by omega)]
    exact lt_of_lt_of_le (Nat.mod_lt _ (Nat.two_pow_pos _)) hpow
  unfold roundUp
  rw [UInt32.toNat_add]
  omega

theorem le_roundUp (halign : align.toNat ≤ 16) (haddress : address.toNat ≤ 2 ^ 16) :
    address.toNat ≤ (roundUp address align offset).toNat := by
  rw [toNat_roundUp offset halign haddress]
  exact Nat.le_add_right _ _

theorem suits_roundUp (halign : align.toNat ≤ 16) (haddress : address.toNat ≤ 2 ^ 16) :
    Suits align offset (roundUp address align offset).toNat := by
  rw [suits_iff_modEq, toNat_roundUp offset halign haddress]
  have hmask := toNat_sub_and_mask_modEq align (by omega) offset.toUInt32 address
  rw [UInt16.toNat_toUInt32] at hmask
  have := (hmask.add_left (address.toNat : ℤ)).symm
  push_cast at this ⊢
  rwa [add_sub_cancel] at this

/-- No suitable address lies between an address and the one that it is rounded up to. -/
theorem roundUp_le (halign : align.toNat ≤ 16) (haddress : address.toNat ≤ 2 ^ 16) {a : ℕ}
    (hle : address.toNat ≤ a) (ha : Suits align offset a) :
    (roundUp address align offset).toNat ≤ a := by
  rw [toNat_roundUp offset halign haddress]
  have hmask := toNat_sub_and_mask_modEq align (by omega) offset.toUInt32 address
  rw [UInt16.toNat_toUInt32] at hmask
  -- both the step of `roundUp` and `a - address` are the offset minus the address, and the step
  -- is the least such number
  have hstep : ((offset.toUInt32 - address) &&& mask align).toNat
      ≡ a - address.toNat [MOD 2 ^ align.toNat] := by
    rw [← Int.natCast_modEq_iff]
    push_cast [Nat.cast_sub hle]
    exact hmask.trans ((suits_iff_modEq.mp ha).sub_right _)
  have hlt : ((offset.toUInt32 - address) &&& mask align).toNat < 2 ^ align.toNat := by
    rw [toNat_and_mask (by omega)]
    exact Nat.mod_lt _ (Nat.two_pow_pos _)
  have hmod : ((offset.toUInt32 - address) &&& mask align).toNat
      = (a - address.toNat) % 2 ^ align.toNat := by
    rw [← Nat.mod_eq_of_lt hlt]
    exact hstep
  have := Nat.mod_le (a - address.toNat) (2 ^ align.toNat)
  omega

end RoundUp

/-! ## Shifting and comparing offsets -/

theorem toNat_shiftBack {align : UInt8} (h : align.toNat ≤ 16) (offset : UInt16)
    (distance : UInt32) :
    (shiftBack align offset distance).toNat
      = ((offset.toUInt32 - distance) &&& mask align).toNat := by
  have hpow : 2 ^ align.toNat ≤ 2 ^ 16 := Nat.pow_le_pow_right (by norm_num) h
  have hlt := Nat.mod_lt (offset.toUInt32 - distance).toNat (Nat.two_pow_pos align.toNat)
  unfold shiftBack
  rw [UInt32.toNat_toUInt16, toNat_and_mask (by omega)]
  exact Nat.mod_eq_of_lt (lt_of_lt_of_le hlt hpow)

/-- An address suits the shifted alignment if the address `distance` bytes later suits the
alignment itself. -/
theorem suits_shiftBack {align : UInt8} (h : align.toNat ≤ 16) {offset : UInt16}
    {distance : UInt32} {address : ℕ} :
    Suits align (shiftBack align offset distance) address
      ↔ Suits align offset (address + distance.toNat) := by
  have hmask := toNat_sub_and_mask_modEq align (by omega) offset.toUInt32 distance
  rw [UInt16.toNat_toUInt32] at hmask
  rw [suits_iff_modEq, suits_iff_modEq, toNat_shiftBack h]
  push_cast
  constructor
  · intro hs
    have := (hmask.symm.trans hs).add_right (distance.toNat : ℤ)
    rwa [sub_add_cancel] at this
  · intro hs
    have := hs.sub_right (distance.toNat : ℤ)
    rw [add_sub_cancel_right] at this
    exact hmask.trans this

/-- Offsets agree exactly if they are congruent modulo the weaker of the two alignments. -/
theorem agree_iff_modEq {align₁ align₂ : UInt8} {offset₁ offset₂ : UInt16}
    (h : align₁ ≤ align₂) (h₁ : align₁.toNat ≤ 16) :
    agree align₁ offset₁ align₂ offset₂ = true
      ↔ (offset₁.toNat : ℤ) ≡ offset₂.toNat [ZMOD 2 ^ align₁.toNat] := by
  have hmask : (mask align₁).toUInt16.toNat = 2 ^ align₁.toNat - 1 := by
    have hpow : 2 ^ align₁.toNat ≤ 2 ^ 16 := Nat.pow_le_pow_right (by norm_num) h₁
    rw [UInt32.toNat_toUInt16, toNat_mask (by omega)]
    omega
  have hcast : (offset₁.toNat : ℤ) ≡ offset₂.toNat [ZMOD 2 ^ align₁.toNat]
      ↔ offset₁.toNat ≡ offset₂.toNat [MOD 2 ^ align₁.toNat] := by
    rw [← Int.natCast_modEq_iff]
    push_cast
    rfl
  unfold agree
  rw [hcast, show min align₁ align₂ = align₁ from if_pos h, decide_eq_true_eq, ← UInt16.toNat_inj,
    UInt16.toNat_and, UInt16.toNat_and, hmask, Nat.and_two_pow_sub_one_eq_mod,
    Nat.and_two_pow_sub_one_eq_mod]
  rfl

/-- Agreement does not depend on the order of the two alignments. -/
theorem agree_comm (align₁ : UInt8) (offset₁ : UInt16) (align₂ : UInt8) (offset₂ : UInt16) :
    agree align₁ offset₁ align₂ offset₂ = agree align₂ offset₂ align₁ offset₁ := by
  have hmin : min align₁ align₂ = min align₂ align₁ := by
    show (if align₁ ≤ align₂ then align₁ else align₂) = if align₂ ≤ align₁ then align₂ else align₁
    split_ifs with h h'
    · exact UInt8.le_antisymm h h'
    · rfl
    · rfl
    · exact absurd (UInt8.le_total align₁ align₂) (by tauto)
  unfold agree
  rw [hmin]
  exact decide_eq_decide.mpr eq_comm

/-- If two offsets agree, what suits the stricter alignment suits the weaker one. -/
theorem Suits.of_agree {align₁ align₂ : UInt8} {offset₁ offset₂ : UInt16} {address : ℕ}
    (hs : Suits align₂ offset₂ address) (h : align₁ ≤ align₂) (h₁ : align₁.toNat ≤ 16)
    (hagree : agree align₁ offset₁ align₂ offset₂ = true) :
    Suits align₁ offset₁ address := by
  -- the weaker power divides the stricter one
  have hdvd : (2 ^ align₁.toNat : ℤ) ∣ 2 ^ align₂.toNat :=
    pow_dvd_pow 2 (UInt8.le_iff_toNat_le.mp h)
  rw [suits_iff_modEq] at hs ⊢
  exact ((agree_iff_modEq h h₁).mp hagree).trans (hs.of_dvd hdvd)

/-- Offsets of two alignments that one address suits agree. -/
theorem agree_of_suits {align₁ align₂ : UInt8} {offset₁ offset₂ : UInt16} {address : ℕ}
    (h₁ : align₁.toNat ≤ 16) (h₂ : align₂.toNat ≤ 16) (hs₁ : Suits align₁ offset₁ address)
    (hs₂ : Suits align₂ offset₂ address) : agree align₁ offset₁ align₂ offset₂ = true := by
  -- it does not matter which of the two is the weaker one
  wlog h : align₁ ≤ align₂ generalizing align₁ align₂ offset₁ offset₂
  · rw [agree_comm]
    exact this h₂ h₁ hs₂ hs₁ ((UInt8.le_total align₁ align₂).resolve_left h)
  have hdvd : (2 ^ align₁.toNat : ℤ) ∣ 2 ^ align₂.toNat :=
    pow_dvd_pow 2 (UInt8.le_iff_toNat_le.mp h)
  rw [suits_iff_modEq] at hs₁ hs₂
  rw [agree_iff_modEq h h₁]
  exact hs₁.trans (hs₂.of_dvd hdvd).symm

end Alignment
end BankedLinker
