import BankedLinker.Output.Verify
import BankedLinker.Proofs.Representation
import BankedLinker.Proofs.Symbols

/-!
# Accesses by index

Linking looks into many sequences by index: into the table of regions, the source nodes and the
symbols of a file, the members of a merged section and its bytes, the bytes of an expression and
the stack of the machine, the free spans of a bank, the image. This file lists the accesses of each
step in the state in which it is taken. The lists may go beyond what is needed: a message is
counted even if there is nothing to report, and a search as if it went on to its end.

* `Access` is an access with the length of the sequence, `Access.Safe` says that all are in range;
* `SourceTree.traceAccesses`, `Registry.addAccesses`, `Placement.assignAccesses`,
  `Linker.applyAccesses` and their relatives are the accesses of the steps of a run;
* `Expr.safe_runAccesses`: an expression is safe whatever its bytes are, as far as the answers to
  its questions are;
* `Linker.linkAccesses` and `Program.accesses` are those of a whole run and of its program.
-/

namespace BankedLinker

/-- An access to a sequence of a given length: to one element, or to the part from `start` up to,
but not including, `stop`. -/
inductive Access where
  | element (index length : ℕ)
  | part (start stop length : ℕ)
deriving DecidableEq, Repr

namespace Access

/-- The access stays inside of the sequence. -/
def InRange : Access → Prop
  | .element index length => index < length
  | .part start stop length => start ≤ stop ∧ stop ≤ length

instance : DecidablePred InRange
  | .element index length => inferInstanceAs (Decidable (index < length))
  | .part start stop length => inferInstanceAs (Decidable (start ≤ stop ∧ stop ≤ length))

/-- All accesses are in range. -/
def Safe (accesses : List Access) : Prop :=
  ∀ a ∈ accesses, a.InRange

section Safe

variable {a : Access} {as bs : List Access}

@[simp] theorem inRange_element {index length : ℕ} :
    (element index length).InRange ↔ index < length := Iff.rfl

@[simp] theorem inRange_part {start stop length : ℕ} :
    (part start stop length).InRange ↔ start ≤ stop ∧ stop ≤ length := Iff.rfl

@[simp] theorem safe_nil : Safe [] := List.forall_mem_nil _

@[simp] theorem safe_cons : Safe (a :: as) ↔ a.InRange ∧ Safe as := List.forall_mem_cons

@[simp] theorem safe_append : Safe (as ++ bs) ↔ Safe as ∧ Safe bs := List.forall_mem_append

theorem safe_flatMap {α : Type} {items : List α} {accesses : α → List Access} :
    Safe (items.flatMap accesses) ↔ ∀ item ∈ items, Safe (accesses item) := by
  simp only [Safe, List.mem_flatMap]
  constructor
  · exact fun h item hitem a ha => h a ⟨item, hitem, ha⟩
  · rintro h a ⟨item, hitem, ha⟩
    exact h item hitem a ha

theorem safe_map {α : Type} {items : List α} {access : α → Access} :
    Safe (items.map access) ↔ ∀ item ∈ items, (access item).InRange := List.forall_mem_map

end Safe

end Access

open Access (Safe)

/-! ## Regions -/

/-- The look-up of a region, or of its name. -/
def RegionKind.access (k : RegionKind) : Access :=
  .element k.tag.toNat RegionKind.all.length

theorem RegionKind.inRange_access {k : RegionKind} : k.access.InRange ↔ k.isKnown = true := by
  show k.tag.toNat < 8 ↔ decide (k.tag < 8) = true
  rw [decide_eq_true_eq, UInt8.lt_iff_toNat_lt]
  rfl

theorem RegionKind.inRange_access_hram : RegionKind.hram.access.InRange := by decide

theorem RegionKind.inRange_access_rom0 : RegionKind.rom0.access.InRange := by decide

theorem RegionKind.inRange_access_romx : RegionKind.romx.access.InRange := by decide

/-! ## Source nodes -/

namespace SourceTree

/-- The look-up of a node. An index beyond the nodes is not looked up. -/
def nodeAccesses (t : SourceTree) : Option UInt32 → List Access
  | none => []
  | some i => if i.toNat < t.nodes.size then [.element i.toNat t.nodes.size] else []

/-- The nodes that the name of a node depends on. -/
def nameAccesses (t : SourceTree) : (bound : ℕ) → SourceNode → List Access
  | bound, node =>
    match node.content with
    | .iterations _ =>
      t.nodeAccesses node.parent ++
        match bound, t.node? node.parent with
        | bound + 1, some parent => t.nameAccesses bound parent
        | _, _ => []
    | _ => []

/-- The nodes from an index upwards, with their names. -/
def nodesUpAccesses (t : SourceTree) : (depth : ℕ) → Option UInt32 → List Access
  | 0, _ => []
  | depth + 1, i =>
    t.nodeAccesses i ++
      match t.node? i with
      | none => []
      | some node => t.nameAccesses t.nodes.size node ++ t.nodesUpAccesses depth node.parent

/-- Turning `count` locations around, which exchanges the outer ones first. -/
def turnAccesses (count : ℕ) : List Access :=
  (List.range (count / 2)).flatMap fun i => [.element i count, .element (count - 1 - i) count]

/-- The trace of a reference. -/
def traceAccesses (t : SourceTree) : Option SourceRef → List Access
  | none => []
  | some ref =>
    t.nodesUpAccesses maxTraceDepth ref.node
      ++ turnAccesses (t.locationsUp maxTraceDepth ref.node ref.line).length

theorem safe_nodeAccesses (t : SourceTree) (i : Option UInt32) : Safe (t.nodeAccesses i) := by
  unfold nodeAccesses
  split
  · exact Access.safe_nil
  · split
    · next h => simpa using h
    · exact Access.safe_nil

theorem safe_nameAccesses (t : SourceTree) (bound : ℕ) (node : SourceNode) :
    Safe (t.nameAccesses bound node) := by
  induction bound generalizing node with
  | zero =>
    unfold nameAccesses
    split
    · rw [Access.safe_append]
      exact ⟨t.safe_nodeAccesses _, Access.safe_nil⟩
    · exact Access.safe_nil
  | succ bound ih =>
    unfold nameAccesses
    split
    · rw [Access.safe_append]
      refine ⟨t.safe_nodeAccesses _, ?_⟩
      cases t.node? node.parent with
      | none => exact Access.safe_nil
      | some parent => exact ih parent
    · exact Access.safe_nil

theorem safe_nodesUpAccesses (t : SourceTree) (depth : ℕ) (i : Option UInt32) :
    Safe (t.nodesUpAccesses depth i) := by
  induction depth generalizing i with
  | zero => exact Access.safe_nil
  | succ depth ih =>
    unfold nodesUpAccesses
    rw [Access.safe_append]
    refine ⟨t.safe_nodeAccesses i, ?_⟩
    cases t.node? i with
    | none => exact Access.safe_nil
    | some node => exact Access.safe_append.mpr ⟨t.safe_nameAccesses _ node, ih node.parent⟩

/-- The trace of any reference into any tree is safe. -/
theorem safe_traceAccesses (t : SourceTree) (ref : Option SourceRef) :
    Safe (t.traceAccesses ref) := by
  cases ref with
  | none => exact Access.safe_nil
  | some ref =>
    refine Access.safe_append.mpr ⟨t.safe_nodesUpAccesses _ _, ?_⟩
    refine Access.safe_flatMap.mpr fun i hi => ?_
    have hlt := List.mem_range.mp hi
    simp only [Access.safe_cons, Access.safe_nil, and_true, Access.inRange_element]
    omega

end SourceTree

/-- The description of a section of a file. -/
def ObjectFile.describeAccesses (f : ObjectFile) (s : Section) : List Access :=
  s.kind.access :: f.tree.traceAccesses s.source

theorem ObjectFile.safe_describeAccesses {f : ObjectFile} {s : Section}
    (h : s.kind.isKnown = true) : Safe (f.describeAccesses s) :=
  Access.safe_cons.mpr ⟨RegionKind.inRange_access.mpr h, f.tree.safe_traceAccesses s.source⟩

/-! ## Merging -/

namespace Merged

/-- The first member of a merged section. -/
def firstAccess (m : Merged) : Access :=
  .element 0 m.members.size

/-- The description of a merged section, which names its first member. -/
def describeAccesses (m : Merged) : List Access :=
  m.firstAccess :: m.kind.access ::
    match m.members[0]? with
    | none => []
    | some first => first.file.tree.traceAccesses first.content.source

/-- The window of a member in the bytes of its merged section. Its end is counted in a word. -/
def windowAccess (m : Merged) (x : Member) : Access :=
  .part x.offset.toNat (x.offset + x.content.size).toNat m.data.size

/-- A merged section that can be looked into: it has a first member and a region. -/
structure Solid (m : Merged) : Prop where
  nonempty : m.members ≠ #[]
  isKnown : m.kind.isKnown = true

theorem Solid.inRange_firstAccess {m : Merged} (h : m.Solid) : m.firstAccess.InRange :=
  Array.size_pos_iff.mpr h.nonempty

theorem Solid.safe_describeAccesses {m : Merged} (h : m.Solid) : Safe m.describeAccesses := by
  unfold describeAccesses
  rw [Access.safe_cons, Access.safe_cons]
  refine ⟨h.inRange_firstAccess, RegionKind.inRange_access.mpr h.isKnown, ?_⟩
  cases m.members[0]? with
  | none => exact Access.safe_nil
  | some first => exact first.file.tree.safe_traceAccesses _

end Merged

namespace Registry

/-- Merging a section: the first member of the merged section of its name, and after the merge the
windows of all members in ROM. -/
def addAccesses (r : Registry) (f : ObjectFile) (s : Section) : List Access :=
  f.describeAccesses s ++ ((r.find? s.name).elim [] Merged.describeAccesses ++
    match r.add f s with
    | (_, some _) => []
    | (r', none) =>
      if s.kind.hasData then
        (r'.find? s.name).elim [] fun m => m.members.toList.map m.windowAccess
      else [])

/-- Merging sections one after the other. -/
def addAllAccesses (r : Registry) : List (ObjectFile × Section) → List Access
  | [] => []
  | (f, s) :: rest => r.addAccesses f s ++ (r.add f s).1.addAllAccesses rest

end Registry

/-! ## Placing -/

/-- Reserving a span of a bank: the free span that it is taken from and replaced by what is left of
it, and the position among the occupants at which the new one is put. -/
def BankSpace.reserveAccesses (b : BankSpace) (s : Span) : List Access :=
  if s.isEmpty then []
  else
    match b.free.findIdx? s.isInside with
    | none => []
    | some i =>
      [.element i b.free.length, .part i (i + 1) b.free.length,
        .part (b.used.takeWhile (·.span.start < s.start)).length b.used.length b.used.length]

theorem BankSpace.safe_reserveAccesses (b : BankSpace) (s : Span) :
    Safe (b.reserveAccesses s) := by
  unfold reserveAccesses
  split
  · exact Access.safe_nil
  · split
    · exact Access.safe_nil
    · next i hi =>
      have hlt : i < b.free.length := (List.findIdx?_eq_some_iff_findIdx_eq.mp hi).1
      have hle : (b.used.takeWhile (·.span.start < s.start)).length ≤ b.used.length :=
        (List.takeWhile_sublist _).length_le
      simp only [Access.safe_cons, Access.safe_nil, and_true, Access.inRange_element,
        Access.inRange_part]
      exact ⟨hlt, ⟨by omega, hlt⟩, hle, le_refl _⟩

namespace Placement

/-- Placing a section whose address and bank are known. Who is in the way is described. -/
def fixedAccesses (l : Ledger) (m : Merged) : List Access :=
  let bank := if m.bankFixed then m.bank else (l.map.region m.kind).firstBank
  let target := extent m m.org.toNat
  m.kind.access :: (m.describeAccesses ++
    match (l.space ⟨m.kind, bank⟩).overlapping? target with
    | some other => other.user.describeAccesses
    | none => (l.space ⟨m.kind, bank⟩).reserveAccesses target)

/-- Trying the free spans of a bank. -/
def fitAccesses (space : BankSpace) (m : Merged) : List Access :=
  space.free.flatMap fun free =>
    (candidate? m free).elim [] fun start => space.reserveAccesses (extent m start)

/-- Trying banks. -/
def searchAccesses (l : Ledger) (m : Merged) : (count : ℕ) → (bank : UInt32) → List Access
  | 0, _ => []
  | count + 1, bank =>
    m.kind.access :: (fitAccesses (l.space ⟨m.kind, bank⟩) m ++ searchAccesses l m count (bank + 1))

/-- Placing a section at the first place that suits it. -/
def floatingAccesses (l : Ledger) (m : Merged) : List Access :=
  let r := l.map.region m.kind
  m.kind.access :: (m.describeAccesses ++
    searchAccesses l m (if m.bankFixed then 1 else r.bankCount.toNat)
      (if m.bankFixed then m.bank else r.firstBank))

/-- Placing sections one after the other. -/
def placeAllAccesses (placeOne : Ledger → Merged → Except PlacementError (Location × Ledger))
    (accesses : Ledger → Merged → List Access) : Ledger → List Merged → List Access
  | _, [] => []
  | l, m :: rest =>
    accesses l m ++
      match placeOne l m with
      | .error _ => placeAllAccesses placeOne accesses l rest
      | .ok (_, placed) => placeAllAccesses placeOne accesses placed rest

/-- Placing all sections: every one is checked against its region, then those that can be placed
are placed. -/
def assignAccesses (map : MemoryMap) (sections : List Merged) : List Access :=
  let valid := sections.filter fun m => (rejection? map m).isNone
  let (fixed, floating) := valid.partition (isFixed map)
  let fixed := fixed.mergeSort fun a b => (compareFixed a b).isLE
  let floating := floating.mergeSort fun a b => (compareFloating a b).isLE
  sections.flatMap (fun m => m.kind.access :: m.describeAccesses) ++
    (placeAllAccesses placeFixed fixedAccesses { map } fixed ++
      placeAllAccesses placeFloating floatingAccesses (placeAll placeFixed { map } fixed).2
        floating)

end Placement

/-! ## Expressions -/

namespace Expr

/-- Reading a word at a position of an expression of `total` bytes, if there is one. -/
def wordAccesses (total position : ℕ) (rest : Bytes) : List Access :=
  match word? rest with
  | none => []
  | some _ => [.part position total total, .part position (position + 4) total]

/-- Reading a string: the rest of the expression is searched for its end. -/
def stringAccesses (total position : ℕ) (rest : Bytes) : List Access :=
  .part position total total ::
    match string? rest with
    | none => []
    | some name => [.part position (position + name.length) total]

/-- Reading the instruction whose first byte is at a position. -/
def readAccesses (total position : ℕ) (code : UInt8) (rest : Bytes) : List Access :=
  .element position total ::
    if (UnaryOp.ofOpcode? code).isSome || (BinaryOp.ofOpcode? code).isSome then []
    else if (SectionQuery.ofOpcode? code).isSome then stringAccesses total (position + 1) rest
    else if code = rangeOpcode then
      wordAccesses total (position + 1) rest ++ wordAccesses total (position + 5) (rest.drop 4)
    else wordAccesses total (position + 1) rest

/-- Taking the topmost of some values from the stack, if there is one. -/
def popAccesses (depth : ℕ) : List Access :=
  if depth = 0 then [] else [.element (depth - 1) depth, .part 0 (depth - 1) depth]

/-- The values that an instruction takes from the stack. -/
def stackAccesses (depth : ℕ) : Instruction → List Access
  | .unary _ => popAccesses depth
  | .binary _ => popAccesses depth ++ popAccesses (depth - 1)
  | .range _ _ => popAccesses depth
  | _ => []

/-- Executing the rest of an expression of `total` bytes on a stack. What an instruction asks the
environment for has accesses of its own. -/
def runAccesses (env : Environment) (asked : Instruction → List Access) (total position : ℕ)
    (stack : List Int32) : Bytes → List Access
  | [] => if stack.length = 1 then [.element 0 stack.length] else []
  | code :: rest =>
    readAccesses total position code rest ++
      match Instruction.read position code rest with
      | .error _ => []
      | .ok (instruction, operands) =>
        stackAccesses stack.length instruction ++ (asked instruction ++
          match env.step (position + operands) instruction stack with
          | .error _ => []
          | .ok (stack', _) =>
            runAccesses env asked total (position + 1 + operands) stack' (rest.drop operands))
termination_by bytes => bytes.length
decreasing_by simp only [List.length_drop, List.length_cons]; omega

theorem four_le_length_of_word? {rest : Bytes} {w : UInt32} (h : word? rest = some w) :
    4 ≤ rest.length := by
  unfold word? at h
  split at h
  · simp only [List.length_cons]
    omega
  · cases h

theorem length_lt_of_string? {rest name : Bytes} (h : string? rest = some name) :
    name.length < rest.length := by
  induction rest generalizing name with
  | nil => cases h
  | cons b rest ih =>
    unfold string? at h
    split at h
    · cases h
      exact Nat.succ_pos _
    · obtain ⟨tail, htail, rfl⟩ := Option.map_eq_some_iff.mp h
      exact Nat.succ_lt_succ (ih htail)

/-- An instruction takes no more bytes than there are. -/
theorem operands_le_of_read {position operands : ℕ} {code : UInt8} {rest : Bytes}
    {instruction : Instruction}
    (h : Instruction.read position code rest = .ok (instruction, operands)) :
    operands ≤ rest.length := by
  have hword : ∀ make, Instruction.withWord position rest make = .ok (instruction, operands) →
      operands ≤ rest.length := by
    intro make h
    unfold Instruction.withWord at h
    split at h
    · next w hw =>
      cases h
      exact four_le_length_of_word? hw
    · cases h
  unfold Instruction.read at h
  split at h
  · cases h
    exact Nat.zero_le _
  · cases h
    exact Nat.zero_le _
  · split at h
    · next name hname =>
      cases h
      exact length_lt_of_string? hname
    · cases h
  · split_ifs at h
    · exact hword _ h
    · exact hword _ h
    · exact hword _ h
    · cases h
      exact Nat.zero_le _
    · split at h
      · next low high _ hhigh =>
        cases h
        have hlength := four_le_length_of_word? hhigh
        rw [List.length_drop] at hlength
        omega
      · cases h
      · cases h

theorem safe_wordAccesses {total position : ℕ} {rest : Bytes}
    (h : position + rest.length = total) : Safe (wordAccesses total position rest) := by
  unfold wordAccesses
  split
  · exact Access.safe_nil
  · next w hw =>
    have hlength := four_le_length_of_word? hw
    simp only [Access.safe_cons, Access.safe_nil, and_true, Access.inRange_part]
    omega

theorem safe_stringAccesses {total position : ℕ} {rest : Bytes}
    (h : position + rest.length = total) : Safe (stringAccesses total position rest) := by
  unfold stringAccesses
  rw [Access.safe_cons, Access.inRange_part]
  refine ⟨by omega, ?_⟩
  split
  · exact Access.safe_nil
  · next name hname =>
    have hlength := length_lt_of_string? hname
    simp only [Access.safe_cons, Access.safe_nil, and_true, Access.inRange_part]
    omega

theorem safe_readAccesses {total position : ℕ} {code : UInt8} {rest : Bytes}
    (h : position + (code :: rest).length = total) :
    Safe (readAccesses total position code rest) := by
  rw [List.length_cons] at h
  unfold readAccesses
  rw [Access.safe_cons, Access.inRange_element]
  refine ⟨by omega, ?_⟩
  split_ifs
  · exact Access.safe_nil
  · exact safe_stringAccesses (by omega)
  · -- the second word is read only after the first one
    refine Access.safe_append.mpr ⟨safe_wordAccesses (by omega), ?_⟩
    by_cases hlength : 4 ≤ rest.length
    · exact safe_wordAccesses (by rw [List.length_drop]; omega)
    · have hnone : rest.drop 4 = [] := List.drop_eq_nil_of_le (by omega)
      rw [hnone]
      exact Access.safe_nil
  · exact safe_wordAccesses (by omega)

theorem safe_popAccesses (depth : ℕ) : Safe (popAccesses depth) := by
  unfold popAccesses
  split
  · exact Access.safe_nil
  · simp only [Access.safe_cons, Access.safe_nil, and_true, Access.inRange_element,
      Access.inRange_part]
    omega

theorem safe_stackAccesses (depth : ℕ) (instruction : Instruction) :
    Safe (stackAccesses depth instruction) := by
  unfold stackAccesses
  split
  · exact safe_popAccesses depth
  · exact Access.safe_append.mpr ⟨safe_popAccesses depth, safe_popAccesses (depth - 1)⟩
  · exact safe_popAccesses depth
  · exact Access.safe_nil

/-- The run: an expression of any bytes stays inside of its bytes and of its stack. The induction
is over what is left of the bytes, which always reaches to the end of the expression. -/
theorem safe_runAccesses {env : Environment} {asked : Instruction → List Access}
    (hasked : ∀ instruction, Safe (asked instruction)) {total position : ℕ} {stack : List Int32}
    {bytes : Bytes} (h : position + bytes.length = total) :
    Safe (runAccesses env asked total position stack bytes) := by
  induction hlength : bytes.length using Nat.strongRecOn generalizing position stack bytes with
  | ind n ih =>
    cases bytes with
    | nil =>
      unfold runAccesses
      split
      · next hone => simp [hone]
      · exact Access.safe_nil
    | cons code rest =>
      have hread := safe_readAccesses h
      rw [List.length_cons] at h hlength
      unfold runAccesses
      refine Access.safe_append.mpr ⟨hread, ?_⟩
      split
      · exact Access.safe_nil
      · next instruction operands hinstruction =>
        have hle := operands_le_of_read hinstruction
        refine Access.safe_append.mpr ⟨safe_stackAccesses _ instruction,
          Access.safe_append.mpr ⟨hasked instruction, ?_⟩⟩
        split
        · exact Access.safe_nil
        · refine ih (rest.drop operands).length ?_ ?_ rfl
          · rw [List.length_drop]
            omega
          · rw [List.length_drop]
            omega

end Expr

/-! ## Patches and assertions -/

namespace Linker

/-- The look-up of a symbol of a file, if there is one of this index. -/
def symbolAccesses (f : ObjectFile) (index : UInt32) : List Access :=
  if index.toNat < f.symbols.length then [.element index.toNat f.symbols.length] else []

/-- What an instruction of the expression of a patch asks for: regions, symbols of the file and
their sections, and the first member of a merged section. A section whose bank is asked for is
described if it has none. -/
def askedAccesses (lk : Linker) (f : ObjectFile) (p : Patch) : Expr.Instruction → List Access
  | .unary .inHighPage => [RegionKind.hram.access]
  | .unary .isRestartTarget => [RegionKind.rom0.access]
  | .symbol index => symbolAccesses f index
  | .symbolBank index =>
    symbolAccesses f index ++
      match lk.table.definition f index with
      | .error _ => []
      | .ok d => d.ownerSection?.elim [] d.file.describeAccesses
  | .bankHere => (f.sectionAt? p.pcSection).elim [] f.describeAccesses
  | .query .bank name =>
    (lk.registry.find? name).elim [] fun m =>
      m.firstAccess :: (m.members[0]?).elim [] fun first =>
        first.file.describeAccesses first.content
  | _ => []

/-- Evaluating the expression of a patch, with a trace for its messages. -/
def evaluateAccesses (lk : Linker) (f : ObjectFile) (p : Patch) : List Access :=
  f.tree.traceAccesses p.source ++
    Expr.runAccesses (lk.environment f p) (lk.askedAccesses f p) p.expr.length 0 [] p.expr

/-- Storing a value: a part of the bytes of the section, up to an end that is counted in a word,
and the last byte of that part. -/
def storeAccesses (lk : Linker) (f : ObjectFile) (s : Section) (p : Patch) : List Access :=
  let stop := (p.offset + p.kind.width.toUInt32).toNat
  [.part p.offset.toNat stop (lk.registry.byteCount f s),
    .element (p.kind.width - 1) (stop - p.offset.toNat)]

/-- Applying a patch of a section. The value is stored without a look at the bytes of the section,
so that the check in front of it can be seen to be needless. -/
def applyAccesses (lk : Linker) (f : ObjectFile) (s : Section) (p : Patch) : List Access :=
  f.describeAccesses s ++ (lk.evaluateAccesses f p ++
    match lk.valueOf f p with
    | .error _ => []
    | .ok _ => lk.storeAccesses f s p)

/-- Applying patches in order. -/
def applyPatchesAccesses (lk : Linker) (f : ObjectFile) : List (Section × Patch) → List Access
  | [] => []
  | (s, p) :: rest =>
    lk.applyAccesses f s p ++
      match lk.apply f s p with
      | (lk, .ok ()) => lk.applyPatchesAccesses f rest
      | (lk, .error e) =>
        if e.isCorrupt then [] else (lk.report (.patch f s p e)).applyPatchesAccesses f rest

/-- Applying all patches of a file. -/
def applyFileAccesses (lk : Linker) (f : ObjectFile) : List Access :=
  lk.applyPatchesAccesses f (patchesOf f)

/-- Checking assertions in order. -/
def checkEachAccesses (lk : Linker) (f : ObjectFile) : List Assertion → List Access
  | [] => []
  | a :: rest =>
    lk.evaluateAccesses f a.patch ++
      match lk.checkAssertion f a with
      | (lk, none) => lk.checkEachAccesses f rest
      | (_, some _) => []

/-- Working through files until one of them ends the work. -/
def forFilesAccesses (work : Linker → ObjectFile → Linker × Except Problem Unit)
    (accesses : Linker → ObjectFile → List Access) (lk : Linker) : List ObjectFile → List Access
  | [] => []
  | f :: rest =>
    accesses lk f ++
      match work lk f with
      | (lk, .ok ()) => lk.forFilesAccesses work accesses rest
      | (_, .error _) => []

/-! ## The whole run -/

/-- Collecting the symbols and sections of files. Symbols are described if they are exported
twice. -/
def collectAccesses (files : List ObjectFile) : List Access :=
  (definitionsOf files).flatMap (fun d => d.file.tree.traceAccesses d.symbol.source) ++
    Registry.addAllAccesses {} (callsOf files)

/-- Working off patches and assertions. -/
def patchStageAccesses (lk : Linker) : List Access :=
  lk.forFilesAccesses applyFile applyFileAccesses lk.files ++
    match lk.forFiles applyFile lk.files with
    | (_, .error _) => []
    | (patched, .ok ()) =>
      patched.forFilesAccesses checkAssertions (fun lk f => lk.checkEachAccesses f f.assertions)
        lk.files

/-- Placing the sections and going on to the patches. -/
def assignStageAccesses (lk : Linker) (cancellation : Cancellation) (looks : ℕ) : List Access :=
  Placement.assignAccesses lk.map lk.sections ++
    match lk.noteUnresolved.assign.finishStage cancellation looks .assigning with
    | .error _ => []
    | .ok lk => lk.patchStageAccesses

/-- Linking the files of a fresh linker, up to the image. -/
def linkAccesses (lk : Linker) (cancellation : Cancellation) (looks : ℕ) : List Access :=
  collectAccesses lk.files ++
    match (lk.files.foldl addFile lk).finishStage cancellation looks .merging with
    | .error _ => []
    | .ok lk => lk.assignStageAccesses cancellation looks

end Linker

namespace Rom

/-- Building the image: the rest of it from the position of each section that is stored. -/
def imageAccesses (map : MemoryMap) (sections : List Merged) : List Access :=
  let size := (size map sections).toNat
  RegionKind.rom0.access :: RegionKind.romx.access ::
    (sections.filter isStored).map fun m => .part (position map m) size size

/-- Comparing the bytes of a section with those of the image, if they are as many. -/
def compareAccesses (expected found : Bytes) : List Access :=
  if expected.length = found.length then
    (List.range expected.length).flatMap fun i =>
      [.element i expected.length, .element i found.length]
  else []

/-- Comparing sections with an image. -/
def verifyAccesses (map : MemoryMap) (image : Array UInt8) : List Merged → List Access
  | [] => []
  | m :: rest =>
    if isStored m then
      let start := position map m
      let stop := start + m.size.toNat
      m.describeAccesses ++
        if image.size < stop then []
        else
          .part start stop image.size ::
            (compareAccesses m.data.toList (slice image start stop) ++
              verifyAccesses map image rest)
    else verifyAccesses map image rest

end Rom

/-- Writing the map file: the regions, and those of the banks that are in use. -/
def MapFile.accesses (sections : List Merged) : List Access :=
  regionOrder.flatMap fun k => k.access :: (usedBanks sections k).map fun _ => k.access

/-- What comes of a run that succeeds: the image is built, the map file is written and the image is
verified. Sorting and writing labels goes from element to element. -/
def Program.accesses (p : Program) : List Access :=
  Rom.imageAccesses p.map p.sections ++
    (MapFile.accesses p.sections ++ Rom.verifyAccesses p.map p.image p.sections)

end BankedLinker
