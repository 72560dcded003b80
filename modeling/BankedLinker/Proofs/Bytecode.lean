import BankedLinker.Expr.Machine
import BankedLinker.Proofs.Scanning
import Mathlib.Tactic.SplitIfs

/-!
# Instructions and their bytes

Bytecode is put together instruction by instruction, and the stack machine takes it apart again.
This file relates the two, so that nothing after it has to look at single bytes.

* `Expr.Instruction.bytes`: an instruction as it is written;
* `Expr.Instruction.read_eq_ok_iff`: the machine reads an instruction exactly where its bytes
  stand;
* `Expr.Instruction.bytes_induction`: induction along the instructions of a byte string;
* `Expr.Environment.runFrom_bytes_append`: executing what starts with the bytes of an instruction
  is one step and the execution of the rest.
-/

namespace BankedLinker.Expr

/-! ## Operands -/

/-- Words are read as in the object format. -/
theorem word?_eq (rest : Bytes) : word? rest = (Object.Scan.word rest).map Prod.fst := by
  unfold word? Object.Scan.word
  split <;> simp_all

/-- Strings are read as in the object format. -/
theorem string?_eq (rest : Bytes) : string? rest = (Object.Scan.string rest).map Prod.fst := by
  induction rest with
  | nil => rfl
  | cons b rest ih =>
    unfold string? Object.Scan.string
    split
    · rfl
    · rw [ih]
      cases Object.Scan.string rest <;> rfl

theorem word?_eq_some_iff {rest : Bytes} {w : UInt32} :
    word? rest = some w ↔ ∃ after, rest = Word.toBytes w ++ after := by
  simp [word?_eq, Object.Scan.word_eq_some_iff]

@[simp] theorem word?_append (w : UInt32) (after : Bytes) :
    word? (Word.toBytes w ++ after) = some w :=
  word?_eq_some_iff.mpr ⟨after, rfl⟩

/-- A string is read up to the first zero byte, so it contains none. -/
theorem string?_eq_some_iff {rest name : Bytes} :
    string? rest = some name ↔ 0 ∉ name ∧ ∃ after, rest = name ++ [0] ++ after := by
  simp [string?_eq, Object.Scan.string_eq_some_iff, Object.Encoder.string]

/-! ## Opcodes -/

theorem UnaryOp.opcode_of_ofOpcode? {b : UInt8} {op : UnaryOp} (h : ofOpcode? b = some op) :
    op.opcode = b := by
  simpa using List.find?_some h

theorem BinaryOp.opcode_of_ofOpcode? {b : UInt8} {op : BinaryOp} (h : ofOpcode? b = some op) :
    op.opcode = b := by
  simpa using List.find?_some h

theorem SectionQuery.opcode_of_ofOpcode? {b : UInt8} {q : SectionQuery}
    (h : ofOpcode? b = some q) : q.opcode = b := by
  simpa using List.find?_some h

/-- No binary operator is taken for a unary one. -/
theorem UnaryOp.ofOpcode?_binary (op : BinaryOp) : ofOpcode? op.opcode = none := by
  cases op <;> rfl

/-- No query is taken for an operator. -/
theorem SectionQuery.ofOpcode?_operator (q : SectionQuery) :
    UnaryOp.ofOpcode? q.opcode = none ∧ BinaryOp.ofOpcode? q.opcode = none := by
  cases q <;> exact ⟨rfl, rfl⟩

/-- The other instructions are taken neither for an operator nor for a query. -/
theorem ofOpcode?_other : ∀ code ∈ [constOpcode, symbolOpcode, symbolBankOpcode, bankHereOpcode,
    rangeOpcode], UnaryOp.ofOpcode? code = none ∧ BinaryOp.ofOpcode? code = none
      ∧ SectionQuery.ofOpcode? code = none := by
  intro code hcode
  simp only [List.mem_cons, List.not_mem_nil, or_false] at hcode
  rcases hcode with rfl | rfl | rfl | rfl | rfl <;> exact ⟨rfl, rfl, rfl⟩

namespace Instruction

variable {i : Instruction} {position operands : ℕ} {code : UInt8} {rest : Bytes}

/-! ## Bytes of an instruction -/

/-- An instruction as it is written. -/
def bytes : Instruction → Bytes
  | unary op => Bytecode.op op.opcode
  | binary op => Bytecode.op op.opcode
  | const value => Bytecode.const value
  | here => Bytecode.here
  | symbol index => Bytecode.symbol index
  | symbolBank index => Bytecode.symbolBank index
  | bankHere => Bytecode.op bankHereOpcode
  | query q name => Bytecode.named q.opcode name
  | range low high => Bytecode.range low high

/-- An instruction can be written so that it is read again: a name has no zero byte, and the index
of a symbol is not the one that stands for the current address. -/
def IsWritable : Instruction → Prop
  | symbol index => index ≠ noIndex
  | query _ name => 0 ∉ name
  | _ => True

/-- What is written is read again, whatever comes after it. -/
theorem read_bytes (hi : i.IsWritable) : ∃ code tail, i.bytes = code :: tail
    ∧ ∀ position rest, read position code (tail ++ rest) = .ok (i, tail.length) := by
  cases i with
  | unary op => exact ⟨op.opcode, [], rfl, fun position rest => by simp [read]⟩
  | binary op =>
    exact ⟨op.opcode, [], rfl, fun position rest => by simp [read, UnaryOp.ofOpcode?_binary]⟩
  | const value =>
    obtain ⟨hunary, hbinary, hquery⟩ := ofOpcode?_other constOpcode (by decide)
    refine ⟨constOpcode, Word.toBytes value.toUInt32, rfl, fun position rest => ?_⟩
    simp [read, hunary, hbinary, hquery, withWord]
  | here =>
    obtain ⟨hunary, hbinary, hquery⟩ := ofOpcode?_other symbolOpcode (by decide)
    refine ⟨symbolOpcode, Word.toBytes noIndex, rfl, fun position rest => ?_⟩
    have hconst : symbolOpcode ≠ constOpcode := by decide
    simp [read, hunary, hbinary, hquery, hconst, withWord]
  | symbol index =>
    obtain ⟨hunary, hbinary, hquery⟩ := ofOpcode?_other symbolOpcode (by decide)
    refine ⟨symbolOpcode, Word.toBytes index, rfl, fun position rest => ?_⟩
    have hconst : symbolOpcode ≠ constOpcode := by decide
    have hindex : index ≠ noIndex := hi
    simp [read, hunary, hbinary, hquery, hconst, hindex, withWord]
  | symbolBank index =>
    obtain ⟨hunary, hbinary, hquery⟩ := ofOpcode?_other symbolBankOpcode (by decide)
    refine ⟨symbolBankOpcode, Word.toBytes index, rfl, fun position rest => ?_⟩
    have hconst : symbolBankOpcode ≠ constOpcode := by decide
    have hsymbol : symbolBankOpcode ≠ symbolOpcode := by decide
    simp [read, hunary, hbinary, hquery, hconst, hsymbol, withWord]
  | bankHere => exact ⟨bankHereOpcode, [], rfl, fun position rest => rfl⟩
  | query q name =>
    obtain ⟨hunary, hbinary⟩ := q.ofOpcode?_operator
    refine ⟨q.opcode, name ++ [0], rfl, fun position rest => ?_⟩
    have hname : string? (name ++ [0] ++ rest) = some name :=
      string?_eq_some_iff.mpr ⟨hi, rest, rfl⟩
    simp only [read, hunary, hbinary, SectionQuery.ofOpcode?_opcode, hname, List.length_append,
      List.length_singleton]
  | range low high =>
    obtain ⟨hunary, hbinary, hquery⟩ := ofOpcode?_other rangeOpcode (by decide)
    refine ⟨rangeOpcode, Word.toBytes low.toUInt32 ++ Word.toBytes high.toUInt32, rfl,
      fun position rest => ?_⟩
    have hlow : word? (Word.toBytes low.toUInt32 ++ Word.toBytes high.toUInt32 ++ rest)
        = some low.toUInt32 := by
      rw [List.append_assoc, word?_append]
    have hhigh : word? ((Word.toBytes low.toUInt32 ++ Word.toBytes high.toUInt32 ++ rest).drop 4)
        = some high.toUInt32 := by
      rw [List.append_assoc, List.drop_left' (Word.length_toBytes _), word?_append]
    have hconst : rangeOpcode ≠ constOpcode := by decide
    have hsymbol : rangeOpcode ≠ symbolOpcode := by decide
    have hbank : rangeOpcode ≠ symbolBankOpcode := by decide
    have hhere : rangeOpcode ≠ bankHereOpcode := by decide
    simp only [read, hunary, hbinary, hquery, hconst, hsymbol, hbank, hhere, if_false, if_true,
      hlow, hhigh]
    simp

/-- An instruction with a word is read where its bytes stand. -/
theorem bytes_of_withWord {make : UInt32 → Instruction}
    (h : withWord position rest make = .ok (i, operands)) :
    ∃ w after, rest = Word.toBytes w ++ after ∧ operands = 4 ∧ i = make w := by
  unfold withWord at h
  split at h
  · next w hw =>
    cases h
    obtain ⟨after, rfl⟩ := word?_eq_some_iff.mp hw
    exact ⟨w, after, rfl, rfl, rfl⟩
  · cases h

/-- What is read stands there, and can be written. -/
theorem bytes_of_read (h : read position code rest = .ok (i, operands)) :
    i.IsWritable ∧ ∃ tail after, i.bytes = code :: tail ∧ rest = tail ++ after
      ∧ operands = tail.length := by
  unfold read at h
  split at h
  · next op hop =>
    cases h
    rw [← UnaryOp.opcode_of_ofOpcode? hop]
    exact ⟨trivial, [], rest, rfl, rfl, rfl⟩
  · next op hop _ =>
    cases h
    rw [← BinaryOp.opcode_of_ofOpcode? hop]
    exact ⟨trivial, [], rest, rfl, rfl, rfl⟩
  · next q hq _ _ =>
    split at h
    · next name hname =>
      cases h
      obtain ⟨htext, after, rfl⟩ := string?_eq_some_iff.mp hname
      rw [← SectionQuery.opcode_of_ofOpcode? hq]
      exact ⟨htext, name ++ [0], after, rfl, rfl, by simp⟩
    · cases h
  · split_ifs at h with hconst hsymbol hbank hhere hrange
    · obtain ⟨w, after, rfl, rfl, rfl⟩ := bytes_of_withWord h
      rw [hconst]
      refine ⟨trivial, Word.toBytes w, after, ?_, rfl, rfl⟩
      simp [bytes, Bytecode.const]
    · obtain ⟨w, after, rfl, rfl, rfl⟩ := bytes_of_withWord h
      rw [hsymbol]
      split
      · next hw =>
        rw [hw]
        exact ⟨trivial, Word.toBytes noIndex, after, rfl, rfl, rfl⟩
      · next hw => exact ⟨hw, Word.toBytes w, after, rfl, rfl, rfl⟩
    · obtain ⟨w, after, rfl, rfl, rfl⟩ := bytes_of_withWord h
      rw [hbank]
      exact ⟨trivial, Word.toBytes w, after, rfl, rfl, rfl⟩
    · cases h
      rw [hhere]
      exact ⟨trivial, [], rest, rfl, rfl, rfl⟩
    · split at h
      · next low high hlow hhigh =>
        cases h
        obtain ⟨middle, rfl⟩ := word?_eq_some_iff.mp hlow
        rw [List.drop_left' (Word.length_toBytes _)] at hhigh
        obtain ⟨after, rfl⟩ := word?_eq_some_iff.mp hhigh
        rw [hrange]
        refine ⟨trivial, Word.toBytes low ++ Word.toBytes high, after, ?_, ?_, rfl⟩
        · simp [bytes, Bytecode.range]
        · rw [List.append_assoc]
      · cases h
      · cases h

/-- The machine reads an instruction exactly where its bytes stand. -/
theorem read_eq_ok_iff : read position code rest = .ok (i, operands)
    ↔ i.IsWritable ∧ ∃ tail after, i.bytes = code :: tail ∧ rest = tail ++ after
      ∧ operands = tail.length := by
  constructor
  · exact bytes_of_read
  · rintro ⟨hi, tail, after, hbytes, rfl, rfl⟩
    obtain ⟨code', tail', hbytes', hread⟩ := read_bytes hi
    rw [hbytes] at hbytes'
    cases hbytes'
    exact hread position after

theorem bytes_ne_nil (hi : i.IsWritable) : i.bytes ≠ [] := by
  obtain ⟨code, tail, hbytes, -⟩ := read_bytes hi
  rw [hbytes]
  exact List.cons_ne_nil code tail

/-- Bytes are taken apart as the machine does it: there are none left, an instruction stands in
front, or nothing that can be read. -/
@[elab_as_elim]
theorem bytes_induction {motive : Bytes → Prop} (nil : motive [])
    (unreadable : ∀ code rest, (∀ position, ∃ e, read position code rest = .error e) →
      motive (code :: rest))
    (instruction : ∀ (i : Instruction) rest, i.IsWritable → motive rest →
      motive (i.bytes ++ rest)) (expr : Bytes) : motive expr := by
  induction hlength : expr.length using Nat.strongRecOn generalizing expr with
  | ind n ih =>
    cases expr with
    | nil => exact nil
    | cons code rest =>
      by_cases hread : ∃ position i operands, read position code rest = .ok (i, operands)
      · obtain ⟨position, i, operands, hi⟩ := hread
        obtain ⟨hwritable, tail, after, hbytes, rfl, -⟩ := read_eq_ok_iff.mp hi
        have hshorter : after.length < n := by
          simp only [← hlength, List.length_cons, List.length_append]
          omega
        have hafter : motive (i.bytes ++ after) :=
          instruction i after hwritable (ih after.length hshorter after rfl)
        rwa [hbytes] at hafter
      · refine unreadable code rest fun position => ?_
        cases hi : read position code rest with
        | error e => exact ⟨e, rfl⟩
        | ok r => exact absurd ⟨position, r.1, r.2, hi⟩ hread

end Instruction

/-! ## Executing an instruction -/

namespace Environment

/-- What comes of a step with warnings that other steps follow. -/
def Evaluation.after {α : Type} (outcome : Except EvalError (α × List Caution))
    (next : α → Evaluation) : Evaluation :=
  match outcome with
  | .error e => ⟨[], .error e⟩
  | .ok (a, cautions) => ⟨cautions ++ (next a).cautions, (next a).result⟩

/-- A binary operator leaves its value in place of both operands. -/
theorem step_binary (env : Environment) (position : ℕ) (op : BinaryOp) (a b : Int32)
    (stack : List Int32) : env.step position (.binary op) (b :: a :: stack)
      = (op.apply a b).map fun r => (r.1 :: stack, r.2) := by
  unfold step
  dsimp only
  cases op.apply a b <;> rfl

/-- Executing what starts with the bytes of an instruction is a step and the execution of the
rest. -/
theorem runFrom_bytes_append (env : Environment) (position : ℕ) (stack : List Int32)
    {i : Instruction} (hi : i.IsWritable) (rest : Bytes) :
    env.runFrom position stack (i.bytes ++ rest)
      = .after (env.step (position + i.bytes.length - 1) i stack) fun stack' =>
        env.runFrom (position + i.bytes.length) stack' rest := by
  obtain ⟨code, tail, hbytes, hread⟩ := i.read_bytes hi
  have hlast : position + (code :: tail).length - 1 = position + tail.length := by
    rw [List.length_cons]
    omega
  have hnext : position + (code :: tail).length = position + 1 + tail.length := by
    rw [List.length_cons]
    omega
  rw [hbytes, hlast, hnext, List.cons_append, runFrom, hread]
  dsimp only
  rw [List.drop_left]
  cases env.step (position + tail.length) i stack <;> rfl

end Environment

end BankedLinker.Expr
