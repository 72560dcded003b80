import BankedLinker.Proofs.Bytecode
import BankedLinker.Proofs.Meaning

/-!
# Expressions and their bytecode

The expressions of an assembler are trees, and an object file holds them as bytecode: the operands
of an operator come first, one after the other, and then the operator. This file gives trees a
meaning of their own, by what their operators and operands mean, and shows that the stack machine
computes it.

* `Expr.Tree` and `Expr.Tree.compile`: expressions and their bytecode;
* `Expr.Tree.eval`: what a tree evaluates to, with operands from left to right;
* `Expr.Tree.run_compile`: executing the bytecode of a tree is evaluating the tree;
* `Expr.Tree.firstFails_postorder`: an error is that of the first subexpression without a value;
* `Linker.evaluate_compile` is the result for the patches of a linker.
-/

namespace BankedLinker

namespace Expr

/-! ## Evaluations in a row -/

namespace Environment.Evaluation

/-- An evaluation that gives a value and raises no warning. -/
def value (v : Int32) : Evaluation :=
  ⟨[], .ok v⟩

/-- An evaluation that fails without a warning. -/
def fail (e : EvalError) : Evaluation :=
  ⟨[], .error e⟩

/-- An answer of the environment as an evaluation. -/
def answer : Except EvalError Int32 → Evaluation
  | .ok v => value v
  | .error e => fail e

/-- One evaluation after the other: the second one starts from the value of the first one, and does
not take place if there is none. Warnings are raised in this order. -/
def andThen (first : Evaluation) (second : Int32 → Evaluation) : Evaluation :=
  match first.result with
  | .error e => ⟨first.cautions, .error e⟩
  | .ok v => ⟨first.cautions ++ (second v).cautions, (second v).result⟩

variable {first : Evaluation} {second third : Int32 → Evaluation}

theorem andThen_value : first.andThen value = first := by
  obtain ⟨cautions, result⟩ := first
  cases result with
  | error e => rfl
  | ok v => simp [andThen, value]

@[simp] theorem value_andThen (v : Int32) : (value v).andThen second = second v := rfl

theorem andThen_assoc :
    (first.andThen second).andThen third = first.andThen fun v => (second v).andThen third := by
  obtain ⟨cautions, result⟩ := first
  cases result with
  | error e => rfl
  | ok v =>
    unfold andThen
    dsimp only
    cases (second v).result with
    | error e => rfl
    | ok w => simp only [List.append_assoc]

/-- A step that puts one value on a stack, and what follows it. -/
theorem after_eq_andThen {outcome : Except EvalError (Int32 × List Caution)} :
    after outcome second = (after outcome value).andThen second := by
  cases outcome with
  | error e => rfl
  | ok r => simp [after, andThen, value]

theorem after_push {result : Except EvalError Int32} {stack : List Int32}
    {next : List Int32 → Evaluation} :
    after (push result stack) next = (answer result).andThen fun v => next (v :: stack) := by
  cases result <;> rfl

end Environment.Evaluation

open Environment (Evaluation)

/-! ## Trees -/

/-- An expression. The names of sections have no zero byte, and the index of a symbol is not the
one that stands for the current address. -/
inductive Tree where
  | const (value : Int32)
  | symbol (index : {index : UInt32 // index ≠ noIndex})
  /-- The current address. -/
  | here
  | symbolBank (index : UInt32)
  /-- The current bank. -/
  | bankHere
  | query (q : SectionQuery) (name : {name : Bytes // 0 ∉ name})
  | unary (op : UnaryOp) (operand : Tree)
  | binary (op : BinaryOp) (left right : Tree)
  /-- The value of the operand, which must lie between the bounds. -/
  | range (low high : Int32) (operand : Tree)
deriving DecidableEq

namespace Tree

/-- The bytecode of an expression: operands from left to right, then the operator. -/
def compile : Tree → Bytes
  | const value => Bytecode.const value
  | symbol index => Bytecode.symbol index
  | here => Bytecode.here
  | symbolBank index => Bytecode.symbolBank index
  | bankHere => Bytecode.op bankHereOpcode
  | query q name => Bytecode.named q.opcode name
  | unary op operand => operand.compile ++ Bytecode.op op.opcode
  | binary op left right => left.compile ++ right.compile ++ Bytecode.op op.opcode
  | range low high operand => operand.compile ++ Bytecode.range low high

/-- What an expression of a patch of a file evaluates to. -/
def eval (lk : Linker) (f : ObjectFile) (p : Patch) : Tree → Evaluation
  | const value => .value value
  | symbol index => .answer (Meaning.symbol lk f index)
  | here => .answer (Meaning.here lk f p)
  | symbolBank index => .answer (Meaning.symbolBank lk f index)
  | bankHere => .answer (Meaning.bankHere lk f p)
  | query q name => .answer (Meaning.query lk q name)
  | unary op operand => (operand.eval lk f p).andThen fun a => .value (op.meaning a)
  | binary op left right =>
    (left.eval lk f p).andThen fun a => (right.eval lk f p).andThen fun b =>
      ⟨op.cautions a b, op.meaning a b⟩
  | range low high operand =>
    (operand.eval lk f p).andThen fun v =>
      if low.toInt ≤ v.toInt ∧ v.toInt ≤ high.toInt then .value v
      else .fail (.outOfRange v low high)

/-! ## Operators on top of their operands -/

section Operators

variable (env : Environment) (position : ℕ) (stack : List Int32) (rest : Bytes)

theorem runFrom_unary (op : UnaryOp) (a : Int32) :
    env.runFrom position (a :: stack) (Bytecode.op op.opcode ++ rest)
      = env.runFrom (position + 1) (op.meaning a :: stack) rest := by
  rw [← UnaryOp.apply_eq a env.map op]
  exact env.runFrom_bytes_append position (a :: stack) (i := .unary op) trivial rest

/-- An operator without a value raises no warning either. -/
theorem after_apply (op : BinaryOp) (a b : Int32) :
    Evaluation.after (op.apply a b) .value = ⟨op.cautions a b, op.meaning a b⟩ := by
  rw [BinaryOp.apply_eq]
  cases hmeaning : op.meaning a b with
  | ok v => simp [Evaluation.after, Evaluation.value, Except.map]
  | error e =>
    rw [BinaryOp.cautions_of_error a b hmeaning]
    rfl

theorem runFrom_binary (op : BinaryOp) (a b : Int32) :
    env.runFrom position (b :: a :: stack) (Bytecode.op op.opcode ++ rest)
      = (Evaluation.mk (op.cautions a b) (op.meaning a b)).andThen fun v =>
        env.runFrom (position + 1) (v :: stack) rest := by
  have hrun := env.runFrom_bytes_append position (b :: a :: stack) (i := .binary op) trivial rest
  rw [Environment.step_binary] at hrun
  rw [← after_apply, ← Evaluation.after_eq_andThen]
  refine hrun.trans ?_
  cases op.apply a b <;> rfl

theorem runFrom_range (low high v : Int32) :
    env.runFrom position (v :: stack) (Bytecode.range low high ++ rest)
      = (if low.toInt ≤ v.toInt ∧ v.toInt ≤ high.toInt then Evaluation.value v
          else .fail (.outOfRange v low high)).andThen fun v =>
        env.runFrom (position + 9) (v :: stack) rest := by
  have hrun := env.runFrom_bytes_append position (v :: stack) (i := .range low high) trivial rest
  have hstep : env.step (position + (Instruction.range low high).bytes.length - 1)
      (.range low high) (v :: stack)
      = if v < low ∨ high < v then .error (.outOfRange v low high) else .ok (v :: stack, []) := rfl
  rw [hstep] at hrun
  refine hrun.trans ?_
  have houtside : (v < low ∨ high < v) ↔ ¬(low.toInt ≤ v.toInt ∧ v.toInt ≤ high.toInt) := by
    rw [Int32.lt_iff_toInt_lt, Int32.lt_iff_toInt_lt]
    omega
  by_cases hinside : low.toInt ≤ v.toInt ∧ v.toInt ≤ high.toInt
  · rw [if_neg fun h => houtside.mp h hinside, if_pos hinside]
    rfl
  · rw [if_pos (houtside.mpr hinside), if_neg hinside]
    rfl

end Operators

/-! ## Executing bytecode -/

section Run

variable (lk : Linker) (f : ObjectFile) (p : Patch) (position : ℕ) (stack : List Int32)
  (rest : Bytes)

/-- Executing what starts with the bytecode of an expression is evaluating the expression and
executing the rest with its value on the stack. -/
theorem runFrom_compile_append (t : Tree) :
    (lk.environment f p).runFrom position stack (t.compile ++ rest)
      = (t.eval lk f p).andThen fun v =>
        (lk.environment f p).runFrom (position + t.compile.length) (v :: stack) rest := by
  induction t generalizing position stack rest with
  | const value =>
    exact Environment.runFrom_bytes_append _ position stack (i := .const value) trivial rest
  | symbol index =>
    have hrun := (lk.environment f p).runFrom_bytes_append position stack (i := .symbol index)
      index.2 rest
    rw [eval, Meaning.lookup_symbol_eq lk f p]
    exact hrun.trans Evaluation.after_push
  | here =>
    have hrun := (lk.environment f p).runFrom_bytes_append position stack (i := .here) trivial rest
    rw [eval, Meaning.here_eq]
    exact hrun.trans Evaluation.after_push
  | symbolBank index =>
    have hrun := (lk.environment f p).runFrom_bytes_append position stack (i := .symbolBank index)
      trivial rest
    rw [eval, Meaning.lookup_symbolBank_eq lk f p]
    exact hrun.trans Evaluation.after_push
  | bankHere =>
    have hrun := (lk.environment f p).runFrom_bytes_append position stack (i := .bankHere) trivial
      rest
    rw [eval, Meaning.bankHere_eq]
    exact hrun.trans Evaluation.after_push
  | query q name =>
    have hrun := (lk.environment f p).runFrom_bytes_append position stack (i := .query q name)
      name.2 rest
    rw [eval, Meaning.query_eq]
    exact hrun.trans Evaluation.after_push
  | unary op operand ih =>
    rw [compile, List.append_assoc, ih, eval, Evaluation.andThen_assoc]
    simp only [runFrom_unary, Evaluation.value_andThen, List.length_append, Nat.add_assoc]
    rfl
  | binary op left right ihLeft ihRight =>
    rw [compile, List.append_assoc, List.append_assoc, ihLeft, eval, Evaluation.andThen_assoc]
    simp only [ihRight, runFrom_binary, Evaluation.andThen_assoc, List.length_append,
      Nat.add_assoc]
    rfl
  | range low high operand ih =>
    rw [compile, List.append_assoc, ih, eval, Evaluation.andThen_assoc]
    simp only [runFrom_range, List.length_append, Nat.add_assoc]
    rfl

/-- Executing the bytecode of an expression is evaluating the expression. -/
theorem run_compile (t : Tree) : (lk.environment f p).run t.compile = t.eval lk f p := by
  have hrun := runFrom_compile_append lk f p 0 [] [] t
  rw [List.append_nil] at hrun
  unfold Environment.run
  rw [hrun]
  -- the machine stops with the value as the only one on the stack
  have hstop : ∀ v : Int32,
      (lk.environment f p).runFrom (0 + t.compile.length) [v] [] = .value v := by
    intro v
    rw [Environment.runFrom]
    rfl
  simp only [hstop, Evaluation.andThen_value]

end Run

/-! ## The first failing subexpression -/

/-- The subexpressions of an expression in the order in which they are evaluated: operands from left
to right, then the whole expression. -/
def postorder : Tree → List Tree
  | unary op operand => operand.postorder ++ [unary op operand]
  | binary op left right => left.postorder ++ right.postorder ++ [binary op left right]
  | range low high operand => operand.postorder ++ [range low high operand]
  | leaf => [leaf]

variable {lk : Linker} {f : ObjectFile} {p : Patch}

theorem result_andThen_eq_ok {first : Evaluation} {second : Int32 → Evaluation} {w : Int32} :
    (first.andThen second).result = .ok w
      ↔ ∃ v, first.result = .ok v ∧ (second v).result = .ok w := by
  unfold Evaluation.andThen
  cases first.result <;> simp

theorem result_andThen_eq_error {first : Evaluation} {second : Int32 → Evaluation}
    {e : EvalError} :
    (first.andThen second).result = .error e
      ↔ first.result = .error e ∨ ∃ v, first.result = .ok v ∧ (second v).result = .error e := by
  unfold Evaluation.andThen
  cases first.result <;> simp

variable (lk f p) in
/-- The expression evaluates to a value. -/
def HasValue (t : Tree) : Prop :=
  ∃ v, (t.eval lk f p).result = .ok v

variable (lk f p) in
/-- The first of some expressions without a value fails with the error. -/
def FirstFails (ts : List Tree) (e : EvalError) : Prop :=
  ∃ before t after, ts = before ++ t :: after ∧ (∀ s ∈ before, s.HasValue lk f p)
    ∧ (t.eval lk f p).result = .error e

theorem forall_hasValue_append {ts us : List Tree} (hts : ∀ t ∈ ts, t.HasValue lk f p)
    (hus : ∀ t ∈ us, t.HasValue lk f p) : ∀ t ∈ ts ++ us, t.HasValue lk f p := by
  intro t ht
  rcases List.mem_append.mp ht with ht | ht
  · exact hts t ht
  · exact hus t ht

theorem firstFails_singleton {t : Tree} {e : EvalError} (h : (t.eval lk f p).result = .error e) :
    FirstFails lk f p [t] e :=
  ⟨[], t, [], rfl, by simp, h⟩

theorem FirstFails.append_right {ts : List Tree} {e : EvalError} (h : FirstFails lk f p ts e)
    (us : List Tree) : FirstFails lk f p (ts ++ us) e := by
  obtain ⟨before, t, after, rfl, hbefore, ht⟩ := h
  refine ⟨before, t, after ++ us, ?_, hbefore, ht⟩
  rw [List.append_assoc, List.cons_append]

theorem FirstFails.append_left {ts us : List Tree} {e : EvalError} (h : FirstFails lk f p us e)
    (hts : ∀ t ∈ ts, t.HasValue lk f p) : FirstFails lk f p (ts ++ us) e := by
  obtain ⟨before, t, after, rfl, hbefore, ht⟩ := h
  refine ⟨ts ++ before, t, after, ?_, forall_hasValue_append hts hbefore, ht⟩
  rw [List.append_assoc]

theorem HasValue.singleton {t : Tree} (h : t.HasValue lk f p) : ∀ u ∈ [t], u.HasValue lk f p := by
  intro u hu
  rw [List.mem_singleton.mp hu]
  exact h

/-- The subexpressions of an expression with a value have values. -/
theorem HasValue.postorder {t : Tree} (h : t.HasValue lk f p) :
    ∀ u ∈ t.postorder, u.HasValue lk f p := by
  induction t with
  | const _ | symbol _ | here | symbolBank _ | bankHere | query _ _ => exact h.singleton
  | unary op operand ih =>
    obtain ⟨v, hv⟩ := h
    obtain ⟨a, ha, -⟩ := result_andThen_eq_ok.mp hv
    exact forall_hasValue_append (ih ⟨a, ha⟩) (HasValue.singleton ⟨v, hv⟩)
  | binary op left right ihLeft ihRight =>
    obtain ⟨v, hv⟩ := h
    obtain ⟨a, ha, hrest⟩ := result_andThen_eq_ok.mp hv
    obtain ⟨b, hb, -⟩ := result_andThen_eq_ok.mp hrest
    have hoperands := forall_hasValue_append (ihLeft ⟨a, ha⟩) (ihRight ⟨b, hb⟩)
    exact forall_hasValue_append hoperands (HasValue.singleton ⟨v, hv⟩)
  | range low high operand ih =>
    obtain ⟨v, hv⟩ := h
    obtain ⟨a, ha, -⟩ := result_andThen_eq_ok.mp hv
    exact forall_hasValue_append (ih ⟨a, ha⟩) (HasValue.singleton ⟨v, hv⟩)

/-- The error of an expression is that of its first subexpression that has no value. -/
theorem firstFails_postorder {t : Tree} {e : EvalError} (h : (t.eval lk f p).result = .error e) :
    FirstFails lk f p t.postorder e := by
  induction t with
  | const _ | symbol _ | here | symbolBank _ | bankHere | query _ _ => exact firstFails_singleton h
  | unary op operand ih =>
    rcases result_andThen_eq_error.mp h with hfirst | ⟨a, ha, -⟩
    · exact (ih hfirst).append_right _
    · exact (firstFails_singleton h).append_left (HasValue.postorder ⟨a, ha⟩)
  | binary op left right ihLeft ihRight =>
    rcases result_andThen_eq_error.mp h with hfirst | ⟨a, ha, hrest⟩
    · exact ((ihLeft hfirst).append_right _).append_right _
    · have hleft : ∀ u ∈ left.postorder, u.HasValue lk f p := HasValue.postorder ⟨a, ha⟩
      rcases result_andThen_eq_error.mp hrest with hsecond | ⟨b, hb, -⟩
      · exact ((ihRight hsecond).append_left hleft).append_right _
      · have hright : ∀ u ∈ right.postorder, u.HasValue lk f p := HasValue.postorder ⟨b, hb⟩
        exact (firstFails_singleton h).append_left (forall_hasValue_append hleft hright)
  | range low high operand ih =>
    rcases result_andThen_eq_error.mp h with hfirst | ⟨a, ha, -⟩
    · exact (ih hfirst).append_right _
    · exact (firstFails_singleton h).append_left (HasValue.postorder ⟨a, ha⟩)

end Tree

end Expr

/-! ## Patches -/

open BankedLinker.Expr (Tree)

/-- **Compiled expressions are evaluated as they are meant.** A patch, of whatever file and place,
whose bytecode was compiled from an expression is evaluated to the value of the expression, or
fails with the error of its first subexpression that has no value; and the warnings are those of
the expression, in the order in which its evaluation raises them. -/
theorem Linker.evaluate_compile (lk : Linker) (f : ObjectFile) (p : Patch) (t : Tree) :
    lk.evaluate f { p with expr := t.compile }
      = ({ lk with
            diagnostics := lk.diagnostics.warnAll
              ((t.eval lk f p).cautions.map (Warning.caution (f.trace p.source))) },
          (t.eval lk f p).result)
    ∧ ∀ e, (t.eval lk f p).result = .error e → Tree.FirstFails lk f p t.postorder e := by
  refine ⟨?_, fun e => Tree.firstFails_postorder⟩
  have hrun : (lk.environment f { p with expr := t.compile }).run t.compile
      = t.eval lk f p := Tree.run_compile lk f p t
  unfold evaluate
  dsimp only
  rw [hrun]

/-- A shift by 32 bits, which raises a warning, plus a negated quotient that does not exist. -/
def Expr.Tree.quotient : Tree :=
  .binary .add (.binary .shiftLeft (.const 1) (.const 32))
    (.unary .negate (.binary .div (.const 5) (.const 0)))

/-- The current address without the bits of the last restart target, plus one because 0x30 is such a
target. -/
def Expr.Tree.masked : Tree :=
  .binary .add (.binary .and .here (.unary .complement (.const 0x38)))
    (.unary .isRestartTarget (.const 0x30))

/-- A file with a section at the address 0x150. -/
def Linker.fixedFile : ObjectFile :=
  { (default : ObjectFile) with sections := [{ (default : Section) with org := some 0x150 }] }

/-- A patch that belongs to the instruction at the address 0x157 of that file. -/
def Linker.fixedPatch (expr : Bytes) : Patch :=
  { (default : Patch) with pcSection := some 0, pcOffset := 7, expr }

/-- The first expression raises the warning of the shift, and its first subexpression without a
value is the quotient. The value of the second one goes through two unary operators. -/
theorem Linker.evaluate_compile_quotient :
    Tree.quotient.compile = [0x80, 1, 0, 0, 0, 0x80, 32, 0, 0, 0, 0x40,
        0x80, 5, 0, 0, 0, 0x80, 0, 0, 0, 0, 0x03, 0x05, 0x00]
      ∧ ((start {} {} [fixedFile]).evaluate fixedFile
        (fixedPatch Tree.quotient.compile)).1.diagnostics.warnings = 1
      ∧ ((start {} {} [fixedFile]).evaluate fixedFile (fixedPatch Tree.quotient.compile)).2
        = .error (.divisionByZero 5 .quotient)
      ∧ Tree.FirstFails (start {} {} [fixedFile]) fixedFile (fixedPatch []) Tree.quotient.postorder
        (.divisionByZero 5 .quotient)
      ∧ Tree.masked.compile = [0x81, 0xFF, 0xFF, 0xFF, 0xFF, 0x80, 0x38, 0, 0, 0, 0x13, 0x11,
        0x80, 0x30, 0, 0, 0, 0x61, 0x00]
      ∧ ((start {} {} [fixedFile]).evaluate fixedFile (fixedPatch Tree.masked.compile)).2
        = .ok 0x148 := by
  rcases evaluate_compile (start {} {} [fixedFile]) fixedFile (fixedPatch []) Tree.quotient
    with ⟨hquotient, hfails⟩
  rcases evaluate_compile (start {} {} [fixedFile]) fixedFile (fixedPatch []) Tree.masked
    with ⟨hmasked, -⟩
  refine ⟨by decide, ?_, ?_, hfails _ rfl, by decide, ?_⟩
  · exact (congrArg (fun r => r.1.diagnostics.warnings) hquotient).trans rfl
  · exact (congrArg Prod.snd hquotient).trans rfl
  · have hvalue : (Tree.masked.eval (start {} {} [fixedFile]) fixedFile (fixedPatch [])).result
        = .ok 0x148 := by cbv
    exact (congrArg Prod.snd hmasked).trans hvalue

end BankedLinker
