import BankedLinker.Linker.Evaluate
import BankedLinker.Proofs.Bytecode

/-!
# Corrupt bytecode

Whether bytecode is corrupt does not depend on the values that it computes: a walk along its
instructions, which only counts the values on the stack, finds the first defect. This file relates
the walk to the execution.

* `Expr.defect?`: the walk, what it accepts (`Expr.defect?_eq_none_iff`) and where it stops
  (`Expr.defect?_eq_some_iff`);
* `Expr.Environment.step_of_depthAfter?_eq_some`: where the walk goes on, the machine has a stack of
  the expected height or stops for another reason;
* `Expr.Environment.fails_of_defectFrom?`: where the walk stops, the machine does not get past;
* `Linker.evaluate_of_defect?` is the result for the patches of a linker.
-/

namespace BankedLinker

namespace Expr

/-! ## Errors about the bytecode -/

/-- The error says that the bytecode is corrupt. -/
def EvalError.IsCorrupt (e : EvalError) : Prop :=
  Fault.corruptPatch ∈ e.faults

instance (e : EvalError) : Decidable e.IsCorrupt :=
  inferInstanceAs (Decidable (Fault.corruptPatch ∈ e.faults))

theorem EvalError.isCorrupt_of_faults {e : EvalError} (h : e.faults = [.corruptPatch]) :
    e.IsCorrupt := by
  unfold IsCorrupt
  rw [h]
  exact List.mem_singleton_self _

theorem EvalError.not_isCorrupt_of_faults {e : EvalError} {fault : Fault} (h : e.faults = [fault])
    (hfault : .corruptPatch ≠ fault) : ¬e.IsCorrupt := by
  unfold IsCorrupt
  rw [h, List.mem_singleton]
  exact hfault

/-- A look-up that failed says nothing about the bytecode. -/
theorem EvalError.not_isCorrupt_lookup (e : LookupError) : ¬(lookup e).IsCorrupt := by
  cases e with
  | undefinedSymbol name => exact not_isCorrupt_of_faults rfl (by decide)
  | noSuchIndex index file => exact List.not_mem_nil
  | constantHasNoBank name => exact not_isCorrupt_of_faults rfl (by decide)
  | sectionNotBanked description => exact not_isCorrupt_of_faults rfl (by decide)

theorem not_isCorrupt_of_divide {op : Division} {a b : Int32} {e : EvalError}
    (h : divide op a b = .error e) : ¬e.IsCorrupt := by
  unfold divide at h
  split at h
  · cases h
    exact EvalError.not_isCorrupt_of_faults rfl (by decide)
  · cases h

/-- An operator without a result says nothing about the bytecode. -/
theorem BinaryOp.not_isCorrupt_of_apply {op : BinaryOp} {a b : Int32} {e : EvalError}
    (h : op.apply a b = .error e) : ¬e.IsCorrupt := by
  cases op with
  | div => exact not_isCorrupt_of_divide h
  | mod => exact not_isCorrupt_of_divide h
  | exp =>
    unfold apply at h
    dsimp only at h
    split at h
    · cases h
      exact EvalError.not_isCorrupt_of_faults rfl (by decide)
    · cases h
  | _ => cases h

theorem Instruction.isCorrupt_of_withWord {position : ℕ} {rest : Bytes} {e : EvalError}
    {make : UInt32 → Instruction} (h : withWord position rest make = .error e) :
    e.IsCorrupt := by
  unfold withWord at h
  split at h
  · cases h
  · cases h
    exact EvalError.isCorrupt_of_faults rfl

/-- What cannot be read is corrupt. -/
theorem Instruction.isCorrupt_of_read {position : ℕ} {code : UInt8} {rest : Bytes} {e : EvalError}
    (h : read position code rest = .error e) : e.IsCorrupt := by
  unfold read at h
  split at h
  · cases h
  · cases h
  · split at h
    · cases h
    · cases h
      exact EvalError.isCorrupt_of_faults rfl
  · split_ifs at h
    · exact isCorrupt_of_withWord h
    · exact isCorrupt_of_withWord h
    · exact isCorrupt_of_withWord h
    · split at h
      · cases h
      · cases h
        exact EvalError.isCorrupt_of_faults rfl
      · cases h
        exact EvalError.isCorrupt_of_faults rfl
    · cases h
      exact EvalError.isCorrupt_of_faults rfl

/-! ## The walk -/

namespace Instruction

/-- The number of values that an instruction takes from the stack. -/
def arity : Instruction → ℕ
  | unary _ => 1
  | binary _ => 2
  | range _ _ => 1
  | _ => 0

/-- The symbol of an instruction is one of the first `count` symbols. -/
def RefersBelow (count : ℕ) : Instruction → Prop
  | symbol index => index.toNat < count
  | symbolBank index => index.toNat < count
  | _ => True

instance (count : ℕ) : (i : Instruction) → Decidable (i.RefersBelow count)
  | symbol index => inferInstanceAs (Decidable (index.toNat < count))
  | symbolBank index => inferInstanceAs (Decidable (index.toNat < count))
  | unary _ | binary _ | const _ | here | bankHere | query _ _ | range _ _ => .isTrue trivial

/-- The height of the stack after an instruction, which leaves one value in place of those that it
takes. There must be enough of them, and its symbol must exist. -/
def depthAfter? (count depth : ℕ) (i : Instruction) : Option ℕ :=
  if i.arity ≤ depth ∧ i.RefersBelow count then some (depth - i.arity + 1) else none

end Instruction

/-- The position at which the rest of an expression is corrupt, if it starts at `position` on a
stack of height `depth` in a file with `count` symbols. -/
def defectFrom? (count position depth : ℕ) : Bytes → Option ℕ
  | [] => if depth = 1 then none else some position
  | code :: rest =>
    match Instruction.read position code rest with
    | .error _ => some position
    | .ok (i, operands) =>
      match i.depthAfter? count depth with
      | none => some position
      | some depth' => defectFrom? count (position + 1 + operands) depth' (rest.drop operands)
termination_by bytes => bytes.length
decreasing_by simp only [List.length_drop, List.length_cons]; omega

/-- The position at which an expression of a file with `count` symbols is corrupt: where no
instruction can be read, where an instruction lacks values or its symbol, or at the end if there is
not exactly one value. -/
def defect? (count : ℕ) (expr : Bytes) : Option ℕ :=
  defectFrom? count 0 0 expr

section Walk

variable {count position depth d : ℕ} {i : Instruction} {rest expr : Bytes}

theorem defectFrom?_nil :
    defectFrom? count position depth [] = if depth = 1 then none else some position := by
  rw [defectFrom?]

/-- The walk stops at what cannot be read. -/
theorem defectFrom?_unreadable {code : UInt8} {e : EvalError}
    (h : Instruction.read position code rest = .error e) :
    defectFrom? count position depth (code :: rest) = some position := by
  rw [defectFrom?, h]

/-- The walk takes one instruction at a time. -/
theorem defectFrom?_bytes_append (hi : i.IsWritable) :
    defectFrom? count position depth (i.bytes ++ rest)
      = match i.depthAfter? count depth with
        | none => some position
        | some depth' => defectFrom? count (position + i.bytes.length) depth' rest := by
  obtain ⟨code, tail, hbytes, hread⟩ := i.read_bytes hi
  have hnext : position + (code :: tail).length = position + 1 + tail.length := by
    rw [List.length_cons]
    omega
  rw [hbytes, hnext, List.cons_append, defectFrom?, hread]
  dsimp only
  rw [List.drop_left]

/-- A defect is not in front of where the walk starts. -/
theorem le_of_defectFrom? (h : defectFrom? count position depth expr = some d) : position ≤ d := by
  induction expr using Instruction.bytes_induction generalizing position depth with
  | nil =>
    rw [defectFrom?_nil] at h
    split_ifs at h
    cases h
    exact Nat.le_refl _
  | unreadable code rest hunreadable =>
    obtain ⟨e, he⟩ := hunreadable position
    rw [defectFrom?_unreadable he] at h
    cases h
    exact Nat.le_refl _
  | instruction i rest hi ih =>
    rw [defectFrom?_bytes_append hi] at h
    split at h
    · cases h
      exact Nat.le_refl _
    · have hle := ih h
      omega

/-- The bytes of some instructions. -/
def bytesOf (program : List Instruction) : Bytes :=
  program.flatMap Instruction.bytes

theorem bytesOf_cons (program : List Instruction) :
    bytesOf (i :: program) = i.bytes ++ bytesOf program := rfl

/-- The height of the stack after some instructions. -/
def depthAfterAll? (count depth : ℕ) (program : List Instruction) : Option ℕ :=
  program.foldlM (fun depth i => i.depthAfter? count depth) depth

theorem depthAfterAll?_cons (program : List Instruction) :
    depthAfterAll? count depth (i :: program)
      = (i.depthAfter? count depth).bind fun depth' => depthAfterAll? count depth' program := by
  unfold depthAfterAll?
  rw [List.foldlM_cons]
  rfl

/-- The walk goes on behind instructions that have their values and symbols. -/
theorem defectFrom?_bytesOf_append {program : List Instruction} {depth' : ℕ}
    (hprogram : ∀ i ∈ program, i.IsWritable)
    (hdepth : depthAfterAll? count depth program = some depth') :
    defectFrom? count position depth (bytesOf program ++ rest)
      = defectFrom? count (position + (bytesOf program).length) depth' rest := by
  induction program generalizing position depth with
  | nil =>
    cases hdepth
    rfl
  | cons i program ih =>
    obtain ⟨hi, hlater⟩ := List.forall_mem_cons.mp hprogram
    rw [depthAfterAll?_cons] at hdepth
    obtain ⟨middle, hmiddle, hdepth⟩ := Option.bind_eq_some_iff.mp hdepth
    rw [bytesOf_cons, List.append_assoc, defectFrom?_bytes_append hi, hmiddle]
    dsimp only
    rw [ih hlater hdepth, List.length_append, Nat.add_assoc]

/-- The rest of an expression is corrupt right from its start, on a stack of the given height. -/
inductive IsStuck (count depth : ℕ) : Bytes → Prop
  | ending (h : depth ≠ 1) : IsStuck count depth []
  | unreadable {code : UInt8} {rest : Bytes}
      (h : ∀ position, ∃ e, Instruction.read position code rest = .error e) :
      IsStuck count depth (code :: rest)
  | instruction {i : Instruction} {rest : Bytes} (hi : i.IsWritable)
      (h : i.depthAfter? count depth = none) : IsStuck count depth (i.bytes ++ rest)

theorem IsStuck.defectFrom? (h : IsStuck count depth rest) :
    defectFrom? count position depth rest = some position := by
  cases h with
  | ending h => rw [defectFrom?_nil, if_neg h]
  | unreadable h =>
    obtain ⟨e, he⟩ := h position
    exact defectFrom?_unreadable he
  | instruction hi h => rw [defectFrom?_bytes_append hi, h]

variable (count depth expr) in
/-- Every expression starts with instructions that have their values and symbols. They are followed
by the end or by a defect. -/
theorem exists_program : ∃ (program : List Instruction) (depth' : ℕ) (rest : Bytes),
    (∀ i ∈ program, i.IsWritable) ∧ depthAfterAll? count depth program = some depth'
      ∧ expr = bytesOf program ++ rest ∧ (rest = [] ∧ depth' = 1 ∨ IsStuck count depth' rest) := by
  induction expr using Instruction.bytes_induction generalizing depth with
  | nil =>
    by_cases hdepth : depth = 1
    · exact ⟨[], depth, [], by simp, rfl, rfl, .inl ⟨rfl, hdepth⟩⟩
    · exact ⟨[], depth, [], by simp, rfl, rfl, .inr (.ending hdepth)⟩
  | unreadable code rest hunreadable =>
    exact ⟨[], depth, code :: rest, by simp, rfl, rfl, .inr (.unreadable hunreadable)⟩
  | instruction i rest hi ih =>
    cases hdepth : i.depthAfter? count depth with
    | none => exact ⟨[], depth, i.bytes ++ rest, by simp, rfl, rfl, .inr (.instruction hi hdepth)⟩
    | some middle =>
      obtain ⟨program, depth', rest, hprogram, hlater, rfl, hend⟩ := ih middle
      refine ⟨i :: program, depth', rest, List.forall_mem_cons.mpr ⟨hi, hprogram⟩, ?_, ?_, hend⟩
      · rw [depthAfterAll?_cons, hdepth]
        exact hlater
      · rw [bytesOf_cons, List.append_assoc]

/-- An expression consists of instructions, each of which has its values and its symbol, and leaves
one value. -/
def IsSound (count : ℕ) (expr : Bytes) : Prop :=
  ∃ program : List Instruction, (∀ i ∈ program, i.IsWritable)
    ∧ depthAfterAll? count 0 program = some 1 ∧ expr = bytesOf program

/-- An expression starts with instructions, each of which has its values and its symbol, and is
corrupt right behind them. -/
def IsDefect (count : ℕ) (expr : Bytes) (d : ℕ) : Prop :=
  ∃ (program : List Instruction) (depth : ℕ) (rest : Bytes), (∀ i ∈ program, i.IsWritable)
    ∧ depthAfterAll? count 0 program = some depth ∧ expr = bytesOf program ++ rest
    ∧ IsStuck count depth rest ∧ d = (bytesOf program).length

/-- The walk accepts the sound expressions. -/
theorem defect?_eq_none_iff : defect? count expr = none ↔ IsSound count expr := by
  unfold defect?
  constructor
  · intro h
    obtain ⟨program, depth', rest, hprogram, hdepth, rfl, hend⟩ := exists_program count 0 expr
    rw [defectFrom?_bytesOf_append hprogram hdepth] at h
    rcases hend with ⟨rfl, rfl⟩ | hstuck
    · exact ⟨program, hprogram, hdepth, List.append_nil _⟩
    · cases h.symm.trans hstuck.defectFrom?
  · rintro ⟨program, hprogram, hdepth, rfl⟩
    rw [← List.append_nil (bytesOf program), defectFrom?_bytesOf_append hprogram hdepth,
      defectFrom?_nil, if_pos rfl]

/-- The walk stops at the defect. -/
theorem defect?_eq_some_iff : defect? count expr = some d ↔ IsDefect count expr d := by
  unfold defect?
  constructor
  · intro h
    obtain ⟨program, depth, rest, hprogram, hdepth, rfl, hend⟩ := exists_program count 0 expr
    rw [defectFrom?_bytesOf_append hprogram hdepth, Nat.zero_add] at h
    rcases hend with ⟨rfl, rfl⟩ | hstuck
    · cases h.symm.trans defectFrom?_nil
    · rw [hstuck.defectFrom?] at h
      exact ⟨program, depth, rest, hprogram, hdepth, rfl, hstuck, (Option.some.inj h).symm⟩
  · rintro ⟨program, depth, rest, hprogram, hdepth, rfl, hstuck, rfl⟩
    rw [defectFrom?_bytesOf_append hprogram hdepth, Nat.zero_add, hstuck.defectFrom?]

end Walk

/-! ## Steps of the machine -/

namespace Environment

/-- What goes wrong with the answers is never said to be a defect of the bytecode. -/
structure NeverCorrupt (env : Environment) : Prop where
  here : ∀ e, env.here = .error e → ¬e.IsCorrupt
  bankHere : ∀ e, env.bankHere = .error e → ¬e.IsCorrupt
  query : ∀ q name e, env.query q name = .error e → ¬e.IsCorrupt

variable {env : Environment} {position d : ℕ} {stack : List Int32} {i : Instruction}
  {expr rest : Bytes} {e : EvalError}

/-- A step leaves a stack of the given height or fails, but not because of the bytecode. -/
def LeavesOrFails (outcome : Except EvalError (List Int32 × List Caution)) (depth : ℕ) : Prop :=
  (∃ stack cautions, outcome = .ok (stack, cautions) ∧ stack.length = depth)
    ∨ ∃ e, outcome = .error e ∧ ¬e.IsCorrupt

theorem leavesOrFails_push {result : Except EvalError Int32}
    (h : ∀ e, result = .error e → ¬e.IsCorrupt) :
    LeavesOrFails (push result stack) (stack.length + 1) := by
  cases result with
  | ok v => exact .inl ⟨v :: stack, [], rfl, rfl⟩
  | error e => exact .inr ⟨e, rfl, h e rfl⟩

theorem leavesOrFails_binary (op : BinaryOp) (a b : Int32) :
    LeavesOrFails (env.step position (.binary op) (b :: a :: stack)) (stack.length + 1) := by
  rw [step_binary]
  cases hvalue : op.apply a b with
  | ok r => exact .inl ⟨r.1 :: stack, r.2, rfl, rfl⟩
  | error e => exact .inr ⟨e, rfl, BinaryOp.not_isCorrupt_of_apply hvalue⟩

/-- A look-up of a symbol that exists may fail, but not because of the bytecode. -/
theorem not_isCorrupt_of_lookup {find : UInt32 → Except LookupError Int32} {index : UInt32}
    (hindex : index.toNat < env.symbolCount) (h : env.lookup find index = .error e) :
    ¬e.IsCorrupt := by
  unfold lookup at h
  rw [if_neg (by omega)] at h
  split at h
  · cases h
  · cases h
    exact EvalError.not_isCorrupt_lookup _

variable (position) in
/-- Where the walk goes on, the machine has a stack of the height that the walk expects, or it stops
for a reason other than the bytecode. -/
theorem step_of_depthAfter?_eq_some (henv : env.NeverCorrupt) {depth : ℕ}
    (h : i.depthAfter? env.symbolCount stack.length = some depth) :
    LeavesOrFails (env.step position i stack) depth := by
  unfold Instruction.depthAfter? at h
  split_ifs at h with hi
  obtain ⟨harity, hsymbol⟩ := hi
  cases h
  cases i with
  | unary op =>
    cases stack with
    | nil => cases harity
    | cons a stack => exact .inl ⟨op.apply env.map a :: stack, [], rfl, rfl⟩
  | binary op =>
    match stack, harity with
    | b :: a :: stack, _ => exact leavesOrFails_binary op a b
  | const value => exact .inl ⟨value :: stack, [], rfl, rfl⟩
  | here => exact leavesOrFails_push henv.here
  | symbol index => exact leavesOrFails_push fun e => not_isCorrupt_of_lookup hsymbol
  | symbolBank index => exact leavesOrFails_push fun e => not_isCorrupt_of_lookup hsymbol
  | bankHere => exact leavesOrFails_push henv.bankHere
  | query q name => exact leavesOrFails_push (henv.query q name)
  | range low high =>
    cases stack with
    | nil => cases harity
    | cons v stack =>
      by_cases hrange : v < low ∨ high < v
      · have hvalue : ¬(EvalError.outOfRange v low high).IsCorrupt :=
          EvalError.not_isCorrupt_of_faults rfl (by decide)
        exact .inr ⟨.outOfRange v low high, if_pos hrange, hvalue⟩
      · exact .inl ⟨v :: stack, [], if_neg hrange, rfl⟩

theorem lookup_of_le {find : UInt32 → Except LookupError Int32} {index : UInt32}
    (h : env.symbolCount ≤ index.toNat) :
    push (env.lookup find index) stack = .error (.noSuchSymbol index) := by
  rw [lookup, if_pos h]
  rfl

variable (position) in
/-- Where the walk stops at an instruction, the machine finds the bytecode to be corrupt. -/
theorem step_of_depthAfter?_eq_none
    (h : i.depthAfter? env.symbolCount stack.length = none) :
    ∃ e, env.step position i stack = .error e ∧ e.IsCorrupt := by
  have hstops : ¬(i.arity ≤ stack.length ∧ i.RefersBelow env.symbolCount) := by
    intro hi
    rw [Instruction.depthAfter?, if_pos hi] at h
    cases h
  cases i with
  | unary op =>
    cases stack with
    | nil => exact ⟨.underflow position, rfl, EvalError.isCorrupt_of_faults rfl⟩
    | cons a stack => exact absurd ⟨Nat.succ_le_succ (Nat.zero_le _), trivial⟩ hstops
  | binary op =>
    match stack with
    | [] => exact ⟨.underflow position, rfl, EvalError.isCorrupt_of_faults rfl⟩
    | [b] => exact ⟨.underflow position, rfl, EvalError.isCorrupt_of_faults rfl⟩
    | b :: a :: stack =>
      have harity : (Instruction.binary op).arity ≤ (b :: a :: stack).length := by
        simp [Instruction.arity]
      exact absurd ⟨harity, trivial⟩ hstops
  | symbol index =>
    have hindex : ¬index.toNat < env.symbolCount := fun hlt => hstops ⟨Nat.zero_le _, hlt⟩
    exact ⟨.noSuchSymbol index, lookup_of_le (by omega), EvalError.isCorrupt_of_faults rfl⟩
  | symbolBank index =>
    have hindex : ¬index.toNat < env.symbolCount := fun hlt => hstops ⟨Nat.zero_le _, hlt⟩
    exact ⟨.noSuchSymbol index, lookup_of_le (by omega), EvalError.isCorrupt_of_faults rfl⟩
  | const _ | here | bankHere | query _ _ => exact absurd ⟨Nat.zero_le _, trivial⟩ hstops
  | range low high =>
    cases stack with
    | nil => exact ⟨.underflow position, rfl, EvalError.isCorrupt_of_faults rfl⟩
    | cons v stack => exact absurd ⟨Nat.succ_le_succ (Nat.zero_le _), trivial⟩ hstops

/-! ## Executing what the walk has seen -/

variable (env) in
/-- The instruction at a place raises the error: the instructions from `position` up to it are
executed, and its own step fails. -/
inductive Raises (e : EvalError) (place : ℕ) : ℕ → List Int32 → Bytes → Prop
  | here {i : Instruction} {stack : List Int32} {rest : Bytes} (hi : i.IsWritable)
      (hstep : env.step (place + i.bytes.length - 1) i stack = .error e) :
      Raises e place place stack (i.bytes ++ rest)
  | later {i : Instruction} {position : ℕ} {stack stack' : List Int32} {cautions : List Caution}
      {rest : Bytes} (hi : i.IsWritable)
      (hstep : env.step (position + i.bytes.length - 1) i stack = .ok (stack', cautions))
      (hrest : Raises e place (position + i.bytes.length) stack' rest) :
      Raises e place position stack (i.bytes ++ rest)

theorem runFrom_nil : env.runFrom position stack [] = match stack with
    | [value] => ⟨[], .ok value⟩
    | _ => ⟨[], .error (.leftover stack.length)⟩ := by
  unfold runFrom
  rfl

theorem runFrom_unreadable {code : UInt8}
    (h : Instruction.read position code rest = .error e) :
    env.runFrom position stack (code :: rest) = ⟨[], .error e⟩ := by
  rw [runFrom, h]

/-- The execution of what the walk accepts does not find the bytecode to be corrupt. -/
theorem not_isCorrupt_of_defectFrom? (henv : env.NeverCorrupt)
    (h : defectFrom? env.symbolCount position stack.length expr = none)
    (he : (env.runFrom position stack expr).result = .error e) : ¬e.IsCorrupt := by
  induction expr using Instruction.bytes_induction generalizing position stack with
  | nil =>
    rw [defectFrom?_nil] at h
    split_ifs at h with hdepth
    obtain ⟨v, rfl⟩ := List.length_eq_one_iff.mp hdepth
    rw [runFrom_nil] at he
    cases he
  | unreadable code rest hunreadable =>
    obtain ⟨e', he'⟩ := hunreadable position
    rw [defectFrom?_unreadable he'] at h
    cases h
  | instruction i rest hi ih =>
    rw [defectFrom?_bytes_append hi] at h
    rw [runFrom_bytes_append env position stack hi] at he
    split at h
    · cases h
    · next depth hdepth =>
      obtain ⟨stack', cautions, hstep, rfl⟩ | ⟨e', hstep, he'⟩ :=
        step_of_depthAfter?_eq_some (position + i.bytes.length - 1) henv hdepth
      · rw [hstep] at he
        exact ih h he
      · rw [hstep] at he
        cases he
        exact he'

/-- The execution of what the walk rejects fails. The error says that the bytecode is corrupt, or
it is raised by an instruction in front of the defect. -/
theorem fails_of_defectFrom? (henv : env.NeverCorrupt)
    (h : defectFrom? env.symbolCount position stack.length expr = some d) :
    ∃ e, (env.runFrom position stack expr).result = .error e
      ∧ (e.IsCorrupt ∨ ¬e.IsCorrupt ∧ ∃ place < d, env.Raises e place position stack expr) := by
  induction expr using Instruction.bytes_induction generalizing position stack with
  | nil =>
    rw [runFrom_nil]
    split
    · cases h.symm.trans defectFrom?_nil
    · exact ⟨.leftover stack.length, rfl, .inl (EvalError.isCorrupt_of_faults rfl)⟩
  | unreadable code rest hunreadable =>
    obtain ⟨e, he⟩ := hunreadable position
    rw [runFrom_unreadable he]
    exact ⟨e, rfl, .inl (Instruction.isCorrupt_of_read he)⟩
  | instruction i rest hi ih =>
    rw [defectFrom?_bytes_append hi] at h
    rw [runFrom_bytes_append env position stack hi]
    split at h
    -- the walk stops at this instruction, and so does the machine
    · next hdepth =>
      obtain ⟨e, hstep, he⟩ :=
        step_of_depthAfter?_eq_none (position + i.bytes.length - 1) hdepth
      rw [hstep]
      exact ⟨e, rfl, .inl he⟩
    -- the walk goes on, so this instruction is in front of the defect
    · next depth hdepth =>
      have hlater : position + i.bytes.length ≤ d := le_of_defectFrom? h
      have hfront : 0 < i.bytes.length := List.length_pos_iff.mpr (Instruction.bytes_ne_nil hi)
      obtain ⟨stack', cautions, hstep, rfl⟩ | ⟨e, hstep, he⟩ :=
        step_of_depthAfter?_eq_some (position + i.bytes.length - 1) henv hdepth
      · rw [hstep]
        obtain ⟨e, hresult, hcorrupt | ⟨hcorrupt, place, hplace, hraises⟩⟩ := ih h
        · exact ⟨e, hresult, .inl hcorrupt⟩
        · exact ⟨e, hresult, .inr ⟨hcorrupt, place, hplace, .later hi hstep hraises⟩⟩
      · rw [hstep]
        exact ⟨e, rfl, .inr ⟨he, position, by omega, .here hi hstep⟩⟩

end Environment

end Expr

/-! ## Patches -/

namespace Linker

variable (lk : Linker) (f : ObjectFile) (p : Patch)

/-- The answers that a linker gives never fail because of the bytecode. -/
theorem environment_neverCorrupt : (lk.environment f p).NeverCorrupt where
  here e he := by
    have hhere : lk.hereOf f p = .error e := he
    unfold hereOf at hhere
    split at hhere
    · cases hhere
      exact Expr.EvalError.not_isCorrupt_of_faults rfl (by decide)
    · cases hhere
  bankHere e he := by
    have hbank : lk.bankHereOf f p = .error e := he
    unfold bankHereOf at hbank
    split at hbank
    · cases hbank
      exact Expr.EvalError.not_isCorrupt_of_faults rfl (by decide)
    · split at hbank
      · cases hbank
      · cases hbank
        exact Expr.EvalError.not_isCorrupt_lookup _
  query q name e he := by
    have hquery : lk.querySection q name = .error e := he
    unfold querySection at hquery
    split at hquery
    · cases hquery
      exact Expr.EvalError.not_isCorrupt_of_faults rfl (by decide)
    · split at hquery
      · cases hquery
      · cases hquery
      · split at hquery
        · cases hquery
          exact Expr.EvalError.not_isCorrupt_of_faults rfl (by decide)
        · split at hquery
          · cases hquery
          · cases hquery
            exact Expr.EvalError.not_isCorrupt_lookup _

/-- **Whether bytecode is corrupt can be told without executing it.** A walk that does not look at
values accepts the expressions that are sound and finds the defect of all others. The evaluation of
a patch with a sound expression never fails because the bytecode is corrupt. With any other
expression it fails: because the bytecode is corrupt, or with another error that an instruction in
front of the defect raises. -/
theorem evaluate_of_defect? :
    (Expr.defect? f.symbols.length p.expr = none ↔ Expr.IsSound f.symbols.length p.expr)
    ∧ (∀ d, Expr.defect? f.symbols.length p.expr = some d
      ↔ Expr.IsDefect f.symbols.length p.expr d)
    ∧ (Expr.defect? f.symbols.length p.expr = none →
      ∀ e, (lk.evaluate f p).2 = .error e → ¬e.IsCorrupt)
    ∧ ∀ d, Expr.defect? f.symbols.length p.expr = some d →
      ∃ e, (lk.evaluate f p).2 = .error e
        ∧ (e.IsCorrupt ∨ ¬e.IsCorrupt
          ∧ ∃ place < d, (lk.environment f p).Raises e place 0 [] p.expr) := by
  have henv : (lk.environment f p).NeverCorrupt := lk.environment_neverCorrupt f p
  have hwalk : Expr.defect? f.symbols.length p.expr = Expr.defectFrom?
      (lk.environment f p).symbolCount 0 ([] : List Int32).length p.expr := rfl
  refine ⟨Expr.defect?_eq_none_iff, fun d => Expr.defect?_eq_some_iff, ?_, ?_⟩
  · intro h e he
    rw [hwalk] at h
    exact Expr.Environment.not_isCorrupt_of_defectFrom? henv h he
  · intro d h
    rw [hwalk] at h
    exact Expr.Environment.fails_of_defectFrom? henv h

/-- A quotient that does not exist, and behind it a byte that is no opcode. -/
def brokenQuotient : Patch :=
  { (default : Patch) with expr := [0x80, 5, 0, 0, 0, 0x80, 0, 0, 0, 0, 0x03, 0xFF] }

/-- The division by zero in front of the defect is reported. -/
theorem evaluate_of_defect?_brokenQuotient :
    Expr.defect? 0 brokenQuotient.expr = some 11
      ∧ ((start {} {} []).evaluate default brokenQuotient).2 = .error (.divisionByZero 5 .quotient)
      ∧ ∃ place < 11, ((start {} {} []).environment default brokenQuotient).Raises
        (.divisionByZero 5 .quotient) place 0 [] brokenQuotient.expr := by
  have hdefect : Expr.defect? 0 brokenQuotient.expr = some 11 := by decide +kernel
  have herror : ((start {} {} []).evaluate default brokenQuotient).2
      = .error (.divisionByZero 5 .quotient) := by with_unfolding_all rfl
  obtain ⟨-, -, -, hfails⟩ := evaluate_of_defect? (start {} {} []) default brokenQuotient
  obtain ⟨e, he, hcases⟩ := hfails 11 hdefect
  obtain rfl := Except.error.inj (herror.symm.trans he)
  refine ⟨hdefect, herror, ?_⟩
  rcases hcases with hcorrupt | ⟨-, hraises⟩
  · exact absurd hcorrupt (by decide)
  · exact hraises

end Linker

end BankedLinker
