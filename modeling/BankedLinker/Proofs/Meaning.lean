import BankedLinker.Linker.Evaluate
import BankedLinker.Proofs.Arithmetic
import Mathlib

/-!
# What operators and operands of expressions mean

The stack machine computes with words and asks an environment for addresses and banks. This file
says without either what the result has to be: operators work on integers and on their bits, and
what an expression asks for is read off the sections and symbols of the linker.

* `Expr.UnaryOp.meaning`, `Expr.BinaryOp.meaning`: the values of operators on integers, and
  `Expr.BinaryOp.cautions` their warnings;
* `Meaning.symbol`, `Meaning.here` and their relatives: the values that expressions ask for;
* `Expr.UnaryOp.apply_eq`, `Expr.BinaryOp.apply_eq`: the operators of the machine have these values;
* `Meaning.lookup_symbol_eq` and its relatives: so have the answers of the linker.
-/

namespace BankedLinker

namespace Expr

/-! ## Values of operators -/

/-- A number that is one if the statement is true and zero if it is not. -/
def truth (p : Prop) [Decidable p] : Int32 :=
  if p then 1 else 0

/-- The number whose bits are made from those of two numbers, in two's complement. -/
def bitwise (f : Bool → Bool → Bool) (a b : Int32) : Int32 :=
  .ofInt (Int.ofBits fun i : Fin 32 => f (a.toInt.testBit i) (b.toInt.testBit i))

/-- What a unary operator makes of a number. The page that short load instructions reach ends with
the address space, and the targets of restart instructions are eight addresses apart. -/
def UnaryOp.meaning (op : UnaryOp) (a : Int32) : Int32 :=
  match op with
  | .negate => .ofInt (-a.toInt)
  | .complement => .ofInt (-a.toInt - 1)
  | .logicalNot => truth (a.toInt = 0)
  | .inHighPage => truth (0xFF00 ≤ a.toInt ∧ a.toInt ≤ 0xFFFF)
  | .isRestartTarget => truth (a.toInt ∈ [0x00, 0x08, 0x10, 0x18, 0x20, 0x28, 0x30, 0x38])

/-- What a binary operator makes of two numbers, or why it has no value for them. -/
def BinaryOp.meaning (op : BinaryOp) (a b : Int32) : Except EvalError Int32 :=
  match op with
  | .add => .ok (.ofInt (a.toInt + b.toInt))
  | .sub => .ok (.ofInt (a.toInt - b.toInt))
  | .mul => .ok (.ofInt (a.toInt * b.toInt))
  | .div =>
    if b.toInt = 0 then .error (.divisionByZero a .quotient)
    else .ok (.ofInt (a.toInt.tdiv b.toInt))
  | .mod =>
    if b.toInt = 0 then .error (.divisionByZero a .remainder)
    else .ok (.ofInt (a.toInt.tmod b.toInt))
  | .exp =>
    if b.toInt < 0 then .error (.negativeExponent a b)
    else .ok (.ofInt (a.toInt ^ b.toInt.toNat))
  | .or => .ok (bitwise Bool.or a b)
  | .and => .ok (bitwise Bool.and a b)
  | .xor => .ok (bitwise Bool.xor a b)
  | .logicalAnd => .ok (truth (a.toInt ≠ 0 ∧ b.toInt ≠ 0))
  | .logicalOr => .ok (truth (a.toInt ≠ 0 ∨ b.toInt ≠ 0))
  | .eq => .ok (truth (a.toInt = b.toInt))
  | .ne => .ok (truth (a.toInt ≠ b.toInt))
  | .gt => .ok (truth (a.toInt > b.toInt))
  | .lt => .ok (truth (a.toInt < b.toInt))
  | .ge => .ok (truth (a.toInt ≥ b.toInt))
  | .le => .ok (truth (a.toInt ≤ b.toInt))
  | .shiftLeft => .ok (.ofInt ⌊(a.toInt : ℚ) * 2 ^ b.toInt⌋)
  | .shiftRight => .ok (.ofInt ⌊(a.toInt : ℚ) * 2 ^ (-b.toInt)⌋)
  | .shiftRightUnsigned =>
    .ok (if 0 ≤ b.toInt then .ofInt ⌊((a.toInt % 2 ^ 32 : ℤ) : ℚ) / 2 ^ b.toInt⌋
      else .ofInt (a.toInt * 2 ^ (-b.toInt).toNat))

/-- The warning about a quotient that is too large by one. -/
def overflowCautions (op : Division) (a b : Int32) : List Caution :=
  if a.toInt = -2 ^ 31 ∧ b.toInt = -1 then [.overflow a op] else []

/-- The warning about a shift by less than 0 or more than 31 bits. -/
def amountCautions (direction : Direction) (amount : Int32) : List Caution :=
  if amount.toInt < 0 then [.negativeShift direction amount]
  else if 31 < amount.toInt then [.longShift direction amount]
  else []

/-- The warnings that a binary operator raises. -/
def BinaryOp.cautions (op : BinaryOp) (a b : Int32) : List Caution :=
  match op with
  | .div => overflowCautions .quotient a b
  | .mod => overflowCautions .remainder a b
  | .shiftLeft => amountCautions .left b
  | .shiftRight | .shiftRightUnsigned => amountCautions .right b
  | _ => []

/-! ## The operators of the machine -/

variable (a b : Int32)

theorem toInt_eq_zero_iff : a.toInt = 0 ↔ a = 0 :=
  Int32.toInt_inj (y := 0)

theorem ofBool_eq_truth {c : Bool} {p : Prop} [Decidable p] (h : c = true ↔ p) :
    ofBool c = truth p := by
  unfold ofBool truth
  rw [if_congr h rfl rfl]

/-! ### Bits -/

/-- The bits of a word are those of its number. -/
theorem testBit_toInt {w : ℕ} (x : BitVec w) {i : ℕ} (hi : i < w) :
    x.toInt.testBit i = x.getLsbD i := by
  have hbits : x = BitVec.ofFnLE fun i : Fin w => x.getLsbD i := by
    apply BitVec.eq_of_getLsbD_eq
    intro j hj
    simp [hj]
  have hint : x.toInt = Int.ofBits fun i : Fin w => x.getLsbD i := by
    rw [← BitVec.toInt_ofFnLE, ← hbits]
  rw [hint, Int.testBit_ofBits_lt hi]

/-- An operation on words that works bit by bit. -/
theorem eq_bitwise {f : Bool → Bool → Bool} {c : Int32}
    (h : ∀ i < 32, c.toBitVec.getLsbD i = f (a.toBitVec.getLsbD i) (b.toBitVec.getLsbD i)) :
    c = bitwise f a b := by
  have hbits : c.toBitVec
      = BitVec.ofFnLE fun i : Fin 32 => f (a.toInt.testBit i) (b.toInt.testBit i) := by
    apply BitVec.eq_of_getLsbD_eq
    intro i hi
    rw [h i hi, ← testBit_toInt a.toBitVec hi, ← testBit_toInt b.toBitVec hi]
    simp [hi]
  unfold bitwise
  rw [← BitVec.toInt_ofFnLE, ← hbits, Int32.toInt_toBitVec, Int32.ofInt_toInt]

theorem or_eq_bitwise : a ||| b = bitwise or a b :=
  eq_bitwise a b fun i _ => by rw [Int32.toBitVec_or, BitVec.getLsbD_or]

theorem and_eq_bitwise : a &&& b = bitwise and a b :=
  eq_bitwise a b fun i _ => by rw [Int32.toBitVec_and, BitVec.getLsbD_and]

theorem xor_eq_bitwise : a ^^^ b = bitwise xor a b :=
  eq_bitwise a b fun i _ => by rw [Int32.toBitVec_xor, BitVec.getLsbD_xor]

/-! ### Unary operators -/

/-- The high page starts at the same address in every memory map. -/
theorem inHighPage_iff (map : MemoryMap) :
    map.inHighPage a = true ↔ 0xFF00 ≤ a.toInt ∧ a.toInt ≤ 0xFFFF := by
  have hstart : (map.region .hram).start = 0xFF80 := rfl
  unfold MemoryMap.inHighPage
  dsimp only
  rw [hstart]
  show (decide ((0xFF00 : Int32) ≤ a) && decide (a ≤ (0xFFFF : Int32))) = true ↔ _
  rw [Bool.and_eq_true, decide_eq_true_eq, decide_eq_true_eq, Int32.le_iff_toInt_le,
    Int32.le_iff_toInt_le]
  rfl

/-- A number all of whose bits are among those of the last target is one of the targets. -/
theorem isRestartTarget_iff (map : MemoryMap) : map.isRestartTarget a = true
    ↔ a.toInt ∈ [0x00, 0x08, 0x10, 0x18, 0x20, 0x28, 0x30, 0x38] := by
  show (a &&& ~~~0x38 == 0) = true ↔ _
  rw [beq_iff_eq]
  constructor
  · intro h
    have hmask : a = a &&& 0x38 := by
      have hsplit : (a &&& 0x38) ||| (a &&& ~~~0x38) = a := by
        rw [← Int32.toBitVec_inj, Int32.toBitVec_or, Int32.toBitVec_and, Int32.toBitVec_and,
          ← BitVec.and_or_distrib_left, Int32.toBitVec_not]
        exact BitVec.and_allOnes
      rw [h, Int32.or_zero] at hsplit
      exact hsplit.symm
    have hle : a.toUInt32.toNat ≤ 0x38 := by
      rw [hmask]
      exact Nat.and_le_right
    have hbits : a.toUInt32.toNat &&& 0x38 = a.toUInt32.toNat :=
      (congrArg (fun c : Int32 => c.toUInt32.toNat) hmask).symm
    have hint : a.toInt = a.toUInt32.toNat := by
      rw [toInt_eq_bmod, Int.bmod_def]
      omega
    rw [hint]
    generalize a.toUInt32.toNat = n at hle hbits
    interval_cases n <;> revert hbits <;> decide
  · intro h
    have hcases : ∀ n ∈ [0x00, 0x08, 0x10, 0x18, 0x20, 0x28, 0x30, 0x38],
        Int32.ofInt n &&& ~~~0x38 = 0 := by decide
    have hmask := hcases a.toInt h
    rwa [Int32.ofInt_toInt] at hmask

/-- The unary operators of the machine have the meaning of their names, in every memory map. -/
theorem UnaryOp.apply_eq (map : MemoryMap) (op : UnaryOp) : op.apply map a = op.meaning a := by
  cases op with
  | negate => exact apply_negate map a
  | complement =>
    show ~~~a = .ofInt (-a.toInt - 1)
    rw [Int32.not_eq_neg_sub, Int32.ofInt_sub, Int32.ofInt_neg, Int32.ofInt_toInt]
    rfl
  | logicalNot => exact ofBool_eq_truth (decide_eq_true_iff.trans (toInt_eq_zero_iff a).symm)
  | inHighPage => exact ofBool_eq_truth (inHighPage_iff a map)
  | isRestartTarget => exact ofBool_eq_truth (isRestartTarget_iff a map)

/-! ### Binary operators -/

theorem minValue_iff : a.toInt = -2 ^ 31 ↔ a = Int32.minValue :=
  Int32.toInt_inj (y := Int32.minValue)

theorem neg_one_iff : a.toInt = -1 ↔ a = -1 :=
  Int32.toInt_inj (y := -1)

theorem shiftCautions_eq (direction : Direction) :
    shiftCautions direction b = amountCautions direction b := by
  have hneg : b < 0 ↔ b.toInt < 0 := Int32.lt_iff_toInt_lt
  have hlong : 32 ≤ b ↔ 31 < b.toInt := by
    have h32 : (32 : Int32).toInt = 32 := rfl
    rw [Int32.le_iff_toInt_le, h32]
    omega
  unfold shiftCautions amountCautions
  rw [if_congr hneg rfl (if_congr hlong rfl rfl)]

theorem divide_eq_map (op : Division) : divide op a b
    = ((divide op a b).map Prod.fst).map fun v => (v, overflowCautions op a b) := by
  unfold divide overflowCautions
  rw [if_congr (and_congr (minValue_iff a) (neg_one_iff b)) rfl rfl]
  split <;> rfl

namespace BinaryOp

/-- An operator of the machine raises the warnings of its name. -/
theorem apply_eq_map_value (op : BinaryOp) :
    op.apply a b = (op.value a b).map fun v => (v, op.cautions a b) := by
  cases op with
  | div => exact divide_eq_map a b .quotient
  | mod => exact divide_eq_map a b .remainder
  | exp =>
    unfold value apply
    dsimp only
    split <;> rfl
  | shiftLeft =>
    show Except.ok (Expr.shiftLeft a b, shiftCautions .left b) = _
    rw [shiftCautions_eq]
    rfl
  | shiftRight =>
    show Except.ok (Expr.shiftRight a b, shiftCautions .right b) = _
    rw [shiftCautions_eq]
    rfl
  | shiftRightUnsigned =>
    show Except.ok (Expr.shiftRightUnsigned a b, shiftCautions .right b) = _
    rw [shiftCautions_eq]
    rfl
  | _ => rfl

/-- An operator of the machine has the value of its name. -/
theorem value_eq_meaning (op : BinaryOp) : op.value a b = op.meaning a b := by
  have hzero := toInt_eq_zero_iff b
  have hnonzero : ∀ c : Int32, decide (c ≠ 0) = true ↔ c.toInt ≠ 0 :=
    fun c => decide_eq_true_iff.trans (not_congr (toInt_eq_zero_iff c).symm)
  cases op with
  | add => exact value_add a b
  | sub => exact value_sub a b
  | mul => exact value_mul a b
  | div => exact (value_div a b).trans (if_congr hzero.symm rfl rfl)
  | mod => exact (value_mod a b).trans (if_congr hzero.symm rfl rfl)
  | exp => exact (value_exp a b).trans (if_congr Int32.lt_iff_toInt_lt rfl rfl)
  | or => exact congrArg Except.ok (or_eq_bitwise a b)
  | and => exact congrArg Except.ok (and_eq_bitwise a b)
  | xor => exact congrArg Except.ok (xor_eq_bitwise a b)
  | logicalAnd =>
    refine congrArg Except.ok (ofBool_eq_truth ?_)
    rw [Bool.and_eq_true, hnonzero, hnonzero]
  | logicalOr =>
    refine congrArg Except.ok (ofBool_eq_truth ?_)
    rw [Bool.or_eq_true, hnonzero, hnonzero]
  | eq =>
    exact congrArg Except.ok (ofBool_eq_truth (decide_eq_true_iff.trans Int32.toInt_inj.symm))
  | ne =>
    refine congrArg Except.ok (ofBool_eq_truth (decide_eq_true_iff.trans ?_))
    exact not_congr Int32.toInt_inj.symm
  | gt =>
    refine congrArg Except.ok (ofBool_eq_truth (decide_eq_true_iff.trans ?_))
    exact Int32.lt_iff_toInt_lt
  | lt =>
    refine congrArg Except.ok (ofBool_eq_truth (decide_eq_true_iff.trans ?_))
    exact Int32.lt_iff_toInt_lt
  | ge =>
    refine congrArg Except.ok (ofBool_eq_truth (decide_eq_true_iff.trans ?_))
    exact Int32.le_iff_toInt_le
  | le =>
    refine congrArg Except.ok (ofBool_eq_truth (decide_eq_true_iff.trans ?_))
    exact Int32.le_iff_toInt_le
  | shiftLeft => exact congrArg Except.ok (shiftLeft_eq a b)
  | shiftRight => exact congrArg Except.ok (shiftRight_eq a b)
  | shiftRightUnsigned =>
    have hcast : (a.toUInt32.toNat : ℚ) = ((a.toInt % 2 ^ 32 : ℤ) : ℚ) := by
      rw [toInt_emod, Int.cast_natCast]
    have hnonneg : 0 ≤ b ↔ 0 ≤ b.toInt := Int32.le_iff_toInt_le
    refine congrArg Except.ok ((shiftRightUnsigned_eq a b).trans ?_)
    rw [if_congr hnonneg rfl rfl, hcast]

theorem overflowCautions_of_zero {op : Division} (h : b.toInt = 0) :
    overflowCautions op a b = [] := by
  refine if_neg fun hoverflow => ?_
  have hminus := hoverflow.2
  omega

/-- An operator raises no warning where it has no value. -/
theorem cautions_of_error {op : BinaryOp} {e : EvalError} (h : op.meaning a b = .error e) :
    op.cautions a b = [] := by
  cases op with
  | div =>
    dsimp only [meaning] at h
    split at h
    · next hzero => exact overflowCautions_of_zero a b hzero
    · cases h
  | mod =>
    dsimp only [meaning] at h
    split at h
    · next hzero => exact overflowCautions_of_zero a b hzero
    · cases h
  | shiftLeft | shiftRight | shiftRightUnsigned => cases h
  | _ => rfl

/-- The binary operators of the machine have the meaning of their names. -/
theorem apply_eq (op : BinaryOp) :
    op.apply a b = (op.meaning a b).map fun v => (v, op.cautions a b) := by
  rw [apply_eq_map_value, value_eq_meaning]

end BinaryOp

end Expr

/-! ## Addresses, banks and symbols -/

namespace Meaning

open BankedLinker.Expr (EvalError SectionQuery)

variable (lk : Linker) (f : ObjectFile)

/-- Where a section of a file starts: it is placed with the member that it became, or else it stands
where its file puts it. -/
def start (s : Section) : ℕ :=
  match lk.registry.member? f s with
  | some x => x.org.toNat
  | none => (s.org.getD 0).toNat

/-- The number of the bank of a section of a file. -/
def bankNumber (s : Section) : ℕ :=
  match lk.registry.member? f s with
  | some x => x.bank.toNat
  | none => (s.bank.getD 0).toNat

/-- The bank of a section of a file, if its region has more than one. -/
def bank (s : Section) : Except EvalError Int32 :=
  if 1 < (lk.map.region s.kind).bankCount.toNat then .ok (.ofInt (bankNumber lk f s))
  else .error (.lookup (.sectionNotBanked (f.describe s)))

/-- What the symbol at an index of a file stands for. An import stands for the export of its
name. -/
def definition (index : UInt32) : Except EvalError Definition :=
  match f.symbols[index.toNat]? with
  | none => .error (.noSuchSymbol index)
  | some symbol =>
    if symbol.kind = .imported then
      match lk.table.exports[symbol.name]? with
      | none => .error (.lookup (.undefinedSymbol symbol.name))
      | some d => .ok d
    else .ok { file := f, symbol }

/-- The value of a definition: that of a constant, or the address of a label, which is counted from
the start of its section. -/
def value (d : Definition) : Int32 :=
  match d.ownerSection? with
  | none => d.symbol.value
  | some s => .ofInt (start lk d.file s + d.symbol.value.toInt)

/-- The bank of a definition, which has to be a label. -/
def bankOf (d : Definition) : Except EvalError Int32 :=
  match d.ownerSection? with
  | none => .error (.lookup (.constantHasNoBank d.symbol.name))
  | some s => bank lk d.file s

/-- The value of a symbol. -/
def symbol (index : UInt32) : Except EvalError Int32 :=
  (definition lk f index).map (value lk)

/-- The bank of a symbol. -/
def symbolBank (index : UInt32) : Except EvalError Int32 :=
  (definition lk f index).bind (bankOf lk)

/-- The address of the instruction that a patch belongs to. -/
def here (p : Patch) : Except EvalError Int32 :=
  match f.sectionAt? p.pcSection with
  | none => .error .hereOutside
  | some s => .ok (.ofInt (start lk f s + p.pcOffset.toNat))

/-- The bank of the instruction that a patch belongs to. -/
def bankHere (p : Patch) : Except EvalError Int32 :=
  match f.sectionAt? p.pcSection with
  | none => .error .bankHereOutside
  | some s => bank lk f s

/-- Size, start and bank of the merged section of a name. The bank is that of its first member. -/
def query (q : SectionQuery) (name : Bytes) : Except EvalError Int32 :=
  match lk.registry.find? name with
  | none => .error (.undefinedSection name)
  | some m =>
    match q with
    | .size => .ok (.ofInt m.size.toNat)
    | .start => .ok (.ofInt m.org.toNat)
    | .bank =>
      match m.members.toList with
      | [] => .error (.undefinedSection name)
      | first :: _ => bank lk first.file first.content

/-! ### The answers of the linker -/

theorem ofWord_eq (w : UInt32) : Linker.ofWord w = .ofInt w.toNat := by
  unfold Linker.ofWord
  rw [Int32.ofInt_eq_ofNat, ← UInt32.toInt32_ofNat', UInt32.ofNat_toNat]

theorem start_eq (s : Section) : start lk f s = (lk.registry.org f s).toNat := by
  unfold start Registry.org
  cases lk.registry.member? f s <;> rfl

theorem bankNumber_eq (s : Section) : bankNumber lk f s = (lk.registry.bank f s).toNat := by
  unfold bankNumber Registry.bank
  cases lk.registry.member? f s <;> rfl

/-- An address is counted from the start of a section in words and in numbers alike. -/
theorem toInt32_add_eq (s : Section) (offset : UInt32) {n : ℤ} (h : offset.toInt32 = .ofInt n) :
    ((lk.registry.org f s).toUInt32 + offset).toInt32 = .ofInt (start lk f s + n) := by
  have horg : (lk.registry.org f s).toUInt32.toInt32 = .ofInt (start lk f s) := by
    rw [start_eq, ← UInt16.toNat_toUInt32]
    exact ofWord_eq _
  rw [UInt32.toInt32_add, horg, h, Int32.ofInt_add]

theorem bankOfSection_eq (s : Section) :
    bank lk f s = ((lk.bankOfSection f s).map Linker.ofWord).mapError .lookup := by
  have hbanked : (lk.map.region s.kind).isBanked = true
      ↔ 1 < (lk.map.region s.kind).bankCount.toNat :=
    decide_eq_true_iff.trans UInt32.lt_iff_toNat_lt
  unfold bank Linker.bankOfSection
  by_cases h : 1 < (lk.map.region s.kind).bankCount.toNat
  · rw [if_pos h, if_pos (hbanked.mpr h), bankNumber_eq, ← ofWord_eq]
    rfl
  · rw [if_neg h, if_neg fun hb => h (hbanked.mp hb)]
    rfl

theorem value_eq (d : Definition) : value lk d = lk.registry.address d := by
  unfold value Registry.address
  cases d.ownerSection? with
  | none => rfl
  | some s =>
    dsimp only
    rw [toInt32_add_eq lk d.file s d.symbol.value.toUInt32 (n := d.symbol.value.toInt)]
    rw [Int32.toInt32_toUInt32, Int32.ofInt_toInt]

theorem bankOf_eq (d : Definition) :
    bankOf lk d = ((lk.bankOfDefinition d).map Linker.ofWord).mapError .lookup := by
  unfold bankOf Linker.bankOfDefinition
  cases d.ownerSection? with
  | none => rfl
  | some s => exact bankOfSection_eq lk d.file s

theorem here_eq (p : Patch) : here lk f p = lk.hereOf f p := by
  unfold here Linker.hereOf
  cases f.sectionAt? p.pcSection with
  | none => rfl
  | some s =>
    dsimp only
    unfold Linker.ofWord
    rw [toInt32_add_eq lk f s p.pcOffset (ofWord_eq _)]

theorem bankHere_eq (p : Patch) : bankHere lk f p = lk.bankHereOf f p := by
  unfold bankHere Linker.bankHereOf
  cases f.sectionAt? p.pcSection with
  | none => rfl
  | some s =>
    dsimp only
    rw [bankOfSection_eq]
    cases lk.bankOfSection f s <;> rfl

theorem query_eq (q : SectionQuery) (name : Bytes) : query lk q name = lk.querySection q name := by
  unfold query Linker.querySection
  cases lk.registry.find? name with
  | none => rfl
  | some m =>
    cases q with
    | size =>
      dsimp only
      rw [ofWord_eq]
    | start =>
      dsimp only
      rw [ofWord_eq, UInt16.toNat_toUInt32]
    | bank =>
      dsimp only
      rw [← Array.getElem?_toList]
      cases m.members.toList with
      | nil => rfl
      | cons first rest =>
        dsimp only [List.getElem?_cons_zero]
        rw [bankOfSection_eq]
        cases lk.bankOfSection first.file first.content <;> rfl

/-- An index that the file does not have is refused before the symbol table is asked. -/
theorem definition_eq (index : UInt32) : definition lk f index
    = if f.symbols.length ≤ index.toNat then .error (.noSuchSymbol index)
      else (lk.table.definition f index).mapError .lookup := by
  unfold definition SymbolTable.definition
  by_cases hindex : f.symbols.length ≤ index.toNat
  · rw [if_pos hindex, List.getElem?_eq_none hindex]
  · have hlt : index.toNat < f.symbols.length := Nat.lt_of_not_le hindex
    rw [if_neg hindex, List.getElem?_eq_getElem hlt]
    generalize f.symbols[index.toNat] = symbol
    dsimp only
    split
    · unfold SymbolTable.resolve SymbolTable.find?
      cases lk.table.exports[symbol.name]? <;> rfl
    · rfl

theorem lookup_eq (env : Expr.Environment) (find : UInt32 → Except LookupError Int32)
    (index : UInt32) : env.lookup find index
      = if env.symbolCount ≤ index.toNat then .error (.noSuchSymbol index)
        else (find index).mapError .lookup := by
  unfold Expr.Environment.lookup
  split
  · rfl
  · cases find index <;> rfl

variable (p : Patch) (index : UInt32)

theorem lookup_symbol_eq : symbol lk f index
    = (lk.environment f p).lookup (lk.environment f p).symbol index := by
  have hcount : (lk.environment f p).symbolCount = f.symbols.length := rfl
  have hask : (lk.environment f p).symbol index
      = (lk.table.definition f index).map lk.registry.address := rfl
  unfold symbol
  rw [lookup_eq, definition_eq, hcount, hask]
  split
  · rfl
  · cases lk.table.definition f index with
    | error e => rfl
    | ok d => exact congrArg Except.ok (value_eq lk d)

theorem lookup_symbolBank_eq : symbolBank lk f index
    = (lk.environment f p).lookup (lk.environment f p).symbolBank index := by
  have hcount : (lk.environment f p).symbolCount = f.symbols.length := rfl
  have hask : (lk.environment f p).symbolBank index = (lk.table.definition f index).bind fun d =>
      (lk.bankOfDefinition d).map Linker.ofWord := rfl
  unfold symbolBank
  rw [lookup_eq, definition_eq, hcount, hask]
  split
  · rfl
  · cases lk.table.definition f index with
    | error e => rfl
    | ok d => exact bankOf_eq lk d

end Meaning

end BankedLinker
