import BankedLinker.Proofs.Patching

/-!
# What patches and assertions demand

After placing, problems come from patches, from assertions, and from warnings that count as
problems. This file says of each patch and each assertion what has to hold if it is to leave no
problem, and that a run over all of them leaves none exactly if all demands are met. Demands are
about symbols, places and switches only, which the run does not change, so they can be stated once
and for all in the state after placing.

* `WarningOptions.Promotes` and `PatchKind.Fits`: which warnings are problems, which values fit;
* `Linker.Applies` and `Linker.Holds`: what patches and assertions must do;
* `Linker.SameView`: two linkers have the same symbols, places and switches;
* `Linker.Demands`: what has to hold for a piece of work to leave no problem, with one rule for each
  kind of work.
-/

namespace BankedLinker

/-! ## Promoted warnings -/

/-- The settings make the warning a problem. -/
def WarningOptions.Promotes (o : WarningOptions) (w : Warning) : Prop :=
  o.mode w.switchName ≠ .off ∧ (o.mode w.switchName = .error ∨ o.allAsErrors = true)

namespace Diagnostics

@[simp] theorem options_warn (d : Diagnostics) (w : Warning) : (d.warn w).options = d.options := by
  unfold warn
  dsimp only
  split
  · rfl
  · split <;> rfl

@[simp] theorem options_warnAll (d : Diagnostics) (ws : List Warning) :
    (d.warnAll ws).options = d.options := by
  induction ws generalizing d with
  | nil => rfl
  | cons w ws ih =>
    show ((d.warn w).warnAll ws).options = d.options
    rw [ih, options_warn]

theorem problemCount_warn_eq_zero_iff {d : Diagnostics} {w : Warning} :
    (d.warn w).problemCount = 0 ↔ d.problemCount = 0 ∧ ¬d.options.Promotes w := by
  unfold warn WarningOptions.Promotes
  dsimp only
  by_cases hoff : d.options.mode w.switchName = .off
  · rw [if_pos hoff]
    exact ⟨fun h => ⟨h, fun h => h.1 hoff⟩, fun h => h.1⟩
  · rw [if_neg hoff]
    by_cases hraised : d.options.mode w.switchName = .error ∨ d.options.allAsErrors = true
    · rw [if_pos hraised]
      have hreport : (d.report (.promoted w)).problemCount ≠ 0 := by
        simp [report, note, problemCount]
      exact ⟨fun h => absurd h hreport, fun h => absurd ⟨hoff, hraised⟩ h.2⟩
    · rw [if_neg hraised]
      exact ⟨fun h => ⟨h, fun h => hraised h.2⟩, fun h => h.1⟩

theorem problemCount_warnAll_eq_zero_iff {d : Diagnostics} {ws : List Warning} :
    (d.warnAll ws).problemCount = 0
      ↔ d.problemCount = 0 ∧ ∀ w ∈ ws, ¬d.options.Promotes w := by
  induction ws generalizing d with
  | nil => simp [warnAll]
  | cons w ws ih =>
    show ((d.warn w).warnAll ws).problemCount = 0 ↔ _
    rw [ih, problemCount_warn_eq_zero_iff, options_warn, List.forall_mem_cons, and_assoc]

end Diagnostics

/-! ## Values that fit -/

/-- The value can be stored in as many bytes as the patch has, be it read with or without a
sign. -/
def PatchKind.Fits (k : PatchKind) (value : Int32) : Prop :=
  -2 ^ (8 * k.width - 1) ≤ value.toInt ∧ value.toInt < 2 ^ (8 * k.width)

/-- A value that is refused outside of bounds. -/
theorem ite_outside_eq_ok_iff {α : Type} {value low high : Int32} {e : PatchError} {a b : α} :
    (if value < low ∨ high < value then Except.error e else .ok a) = .ok b
      ↔ b = a ∧ low.toInt ≤ value.toInt ∧ value.toInt ≤ high.toInt := by
  split
  · next hout =>
    rw [Int32.lt_iff_toInt_lt, Int32.lt_iff_toInt_lt] at hout
    constructor
    · intro h
      cases h
    · intro h
      omega
  · next hin =>
    rw [Int32.lt_iff_toInt_lt, Int32.lt_iff_toInt_lt] at hin
    rw [Except.ok.injEq, eq_comm]
    constructor
    · intro h
      exact ⟨h, by omega⟩
    · exact fun h => h.1

theorem PatchKind.checkWidth_eq_ok_iff {k : PatchKind} {value : Int32} :
    k.checkWidth value = .ok () ↔ k.Fits value := by
  have hwidth : k.width = 1 ∨ k.width = 2 ∨ k.width = 4 := by
    unfold width
    split
    · exact Or.inr (Or.inl rfl)
    · split
      · exact Or.inr (Or.inr rfl)
      · exact Or.inl rfl
  unfold checkWidth limits? Fits
  rcases hwidth with h | h | h
  · simp only [h, ite_outside_eq_ok_iff, true_and]
    show -128 ≤ value.toInt ∧ value.toInt ≤ 255 ↔ -2 ^ 7 ≤ value.toInt ∧ value.toInt < 2 ^ 8
    omega
  · simp only [h, ite_outside_eq_ok_iff, true_and]
    show -32768 ≤ value.toInt ∧ value.toInt ≤ 65535 ↔ -2 ^ 15 ≤ value.toInt ∧ value.toInt < 2 ^ 16
    omega
  · -- four bytes hold every value
    simp only [h, true_iff]
    have hlow := value.le_toInt
    have hhigh := value.toInt_lt
    omega

/-- The distance of a relative jump from the instruction after it, which is two bytes long. -/
def jumpLength (value : Int32) (org : UInt16) (pcOffset : UInt32) : Int32 :=
  value - (org.toUInt32 + pcOffset + 2).toInt32

theorem jumpDistance_eq_ok_iff {value distance : Int32} {org : UInt16} {pcOffset : UInt32} :
    jumpDistance value org pcOffset = .ok distance
      ↔ distance = jumpLength value org pcOffset
        ∧ -128 ≤ (jumpLength value org pcOffset).toInt
        ∧ (jumpLength value org pcOffset).toInt ≤ 127 :=
  ite_outside_eq_ok_iff

/-- The text of an assertion in messages. -/
def Assertion.text (a : Assertion) : Bytes :=
  if a.message.isEmpty then "assertion failed" else a.message

namespace Linker

variable {lk : Linker} {f : ObjectFile} {s : Section} {p : Patch}

/-! ## Work after placing -/

/-- What the expression of a patch of a file evaluates to. -/
def valueOf (lk : Linker) (f : ObjectFile) (p : Patch) : Except Expr.EvalError Int32 :=
  ((lk.environment f p).run p.expr).result

/-- The warnings that the expression of a patch of a file raises. -/
def cautionsOf (lk : Linker) (f : ObjectFile) (p : Patch) : List Warning :=
  ((lk.environment f p).run p.expr).cautions.map (Warning.caution (f.trace p.source))

/-- The patch has a value, and the number that it stores fits: of a relative jump the distance is
stored, which has a range of its own. -/
def Applies (lk : Linker) (f : ObjectFile) (p : Patch) : Prop :=
  ∃ value, lk.valueOf f p = .ok value ∧
    if p.kind = .jump then
      ∃ s, f.sectionAt? p.pcSection = some s
        ∧ -128 ≤ (jumpLength value (lk.registry.org f s) p.pcOffset).toInt
        ∧ (jumpLength value (lk.registry.org f s) p.pcOffset).toInt ≤ 127
    else p.kind.Fits value

/-- The patched bytes lie inside of the bytes of the section. -/
def Inside (lk : Linker) (f : ObjectFile) (s : Section) (p : Patch) : Prop :=
  p.offset.toNat + p.kind.width ≤ lk.registry.byteCount f s

/-- The assertion has a value, and the value is not zero if more than a warning depends on it. -/
def Holds (lk : Linker) (f : ObjectFile) (a : Assertion) : Prop :=
  ∃ value, lk.valueOf f a.patch = .ok value ∧ (a.level ≠ .warning → value ≠ 0)

/-- Checking the assertion raises the warning. -/
def RaisedBy (lk : Linker) (f : ObjectFile) (a : Assertion) (w : Warning) : Prop :=
  w ∈ lk.cautionsOf f a.patch
    ∨ a.level = .warning ∧ lk.valueOf f a.patch = .ok 0
      ∧ w = .assertion (f.trace a.patch.source) a.text

/-- The two linkers have the same symbols, places and switches. -/
structure SameView (lk₀ lk : Linker) : Prop where
  outline_eq : lk.outline = lk₀.outline
  options_eq : lk.diagnostics.options = lk₀.diagnostics.options

namespace SameView

variable {lk₀ : Linker}

theorem refl (lk : Linker) : SameView lk lk := ⟨rfl, rfl⟩

theorem trans {lk₁ lk₂ : Linker} (h : SameView lk₀ lk₁) (h' : SameView lk₁ lk₂) :
    SameView lk₀ lk₂ :=
  ⟨h'.outline_eq.trans h.outline_eq, h'.options_eq.trans h.options_eq⟩

variable (h : SameView lk₀ lk)

include h

theorem environment_eq (f : ObjectFile) (p : Patch) :
    lk.environment f p = lk₀.environment f p := by
  rw [← environment_outline, h.outline_eq, environment_outline]

theorem valueOf_eq (f : ObjectFile) (p : Patch) : lk.valueOf f p = lk₀.valueOf f p := by
  unfold valueOf
  rw [h.environment_eq]

theorem cautionsOf_eq (f : ObjectFile) (p : Patch) : lk.cautionsOf f p = lk₀.cautionsOf f p := by
  unfold cautionsOf
  rw [h.environment_eq]

theorem member?_eq (f : ObjectFile) (s : Section) :
    lk.registry.member? f s = lk₀.registry.member? f s := by
  have hregistry : lk.registry.outline = lk₀.registry.outline :=
    congrArg Linker.registry h.outline_eq
  rw [← Registry.member?_outline, hregistry, Registry.member?_outline]

theorem applies_iff (f : ObjectFile) (p : Patch) : lk.Applies f p ↔ lk₀.Applies f p := by
  unfold Applies Registry.org
  simp only [h.valueOf_eq, h.member?_eq]

theorem inside_iff (f : ObjectFile) (s : Section) (p : Patch) :
    lk.Inside f s p ↔ lk₀.Inside f s p := by
  unfold Inside Registry.byteCount
  rw [h.member?_eq]

theorem holds_iff (f : ObjectFile) (a : Assertion) : lk.Holds f a ↔ lk₀.Holds f a := by
  unfold Holds
  rw [h.valueOf_eq]

theorem raisedBy_iff (f : ObjectFile) (a : Assertion) (w : Warning) :
    lk.RaisedBy f a w ↔ lk₀.RaisedBy f a w := by
  unfold RaisedBy
  rw [h.cautionsOf_eq, h.valueOf_eq]

end SameView

/-- The work was finished and has left no problem. -/
def Succeeds {ε α : Type} (result : Linker × Except ε α) : Prop :=
  (∃ a, result.2 = .ok a) ∧ result.1.Clean

@[simp] theorem succeeds_ok_iff {ε α : Type} {a : α} :
    Succeeds (lk, (.ok a : Except ε α)) ↔ lk.Clean :=
  ⟨fun h => h.2, fun h => ⟨⟨a, rfl⟩, h⟩⟩

@[simp] theorem not_succeeds_error {ε α : Type} {e : ε} :
    ¬Succeeds (lk, (.error e : Except ε α)) := by
  intro h
  obtain ⟨⟨a, ha⟩, -⟩ := h
  cases ha

/-- Wherever symbols, places and switches are those of `lk₀`, the work leaves them as they are, and
it succeeds from a state without problems exactly if `P` holds. -/
def Demands {ε α : Type} (lk₀ : Linker) (work : Linker → Linker × Except ε α) (P : Prop) : Prop :=
  ∀ lk, SameView lk₀ lk → SameView lk₀ (work lk).1 ∧ (Succeeds (work lk) ↔ lk.Clean ∧ P)

/-! ## Patches -/

theorem evaluate_spec (lk : Linker) (f : ObjectFile) (p : Patch) :
    SameView lk (lk.evaluate f p).1 ∧ (lk.evaluate f p).2 = lk.valueOf f p
      ∧ ((lk.evaluate f p).1.Clean
        ↔ lk.Clean ∧ ∀ w ∈ lk.cautionsOf f p, ¬lk.diagnostics.options.Promotes w) :=
  ⟨⟨rfl, Diagnostics.options_warnAll _ _⟩, rfl, Diagnostics.problemCount_warnAll_eq_zero_iff⟩

theorem exists_patchedBytes_iff {value : Int32} :
    (∃ bytes, lk.patchedBytes f s p value = .ok bytes)
      ↔ (∃ number, lk.patchedValue f p value = .ok number ∧ p.kind.Fits number)
        ∧ lk.Inside f s p := by
  unfold patchedBytes Inside
  cases lk.patchedValue f p value with
  | error e => simp [bind, Except.bind]
  | ok number =>
    have hwidth : p.kind.checkWidth number = .ok () ↔ p.kind.Fits number :=
      PatchKind.checkWidth_eq_ok_iff
    cases hcheck : p.kind.checkWidth number with
    | error e =>
      rw [hcheck] at hwidth
      have hfits : ¬p.kind.Fits number := fun h => nomatch hwidth.mpr h
      simp [bind, Except.bind, hcheck, hfits]
    | ok u =>
      have hfits : p.kind.Fits number := hwidth.mp hcheck
      by_cases hinside : lk.registry.byteCount f s < p.offset.toNat + p.kind.width
      · simp [bind, Except.bind, hcheck, hinside, throw, throwThe, MonadExceptOf.throw]
      · have hle : p.offset.toNat + p.kind.width ≤ lk.registry.byteCount f s := by omega
        simp [bind, Except.bind, hcheck, hinside, hfits, hle, pure, Except.pure]

theorem exists_patchedValue_iff {value : Int32} :
    (∃ number, lk.patchedValue f p value = .ok number ∧ p.kind.Fits number)
      ↔ if p.kind = .jump then
          ∃ s, f.sectionAt? p.pcSection = some s
            ∧ -128 ≤ (jumpLength value (lk.registry.org f s) p.pcOffset).toInt
            ∧ (jumpLength value (lk.registry.org f s) p.pcOffset).toInt ≤ 127
        else p.kind.Fits value := by
  unfold patchedValue
  by_cases hjump : p.kind = .jump
  · rw [if_pos hjump, if_pos hjump, hjump]
    cases f.sectionAt? p.pcSection with
    | none => simp
    | some s =>
      simp only [jumpDistance_eq_ok_iff, Option.some.injEq, exists_eq_left']
      constructor
      · rintro ⟨number, ⟨-, hrange⟩, -⟩
        exact hrange
      · intro hrange
        -- a distance in the range of jumps fits into a byte
        have hfits : PatchKind.jump.Fits (jumpLength value (lk.registry.org f s) p.pcOffset) := by
          show -2 ^ 7 ≤ (_ : Int) ∧ (_ : Int) < 2 ^ 8
          omega
        exact ⟨_, ⟨rfl, hrange⟩, hfits⟩
  · rw [if_neg hjump, if_neg hjump]
    simp

/-- What one patch demands: it applies, inside of its section, and raises no warning that is a
problem. -/
def PatchDemand (lk : Linker) (f : ObjectFile) (s : Section) (p : Patch) : Prop :=
  (lk.Applies f p ∧ lk.Inside f s p)
    ∧ ∀ w ∈ lk.cautionsOf f p, ¬lk.diagnostics.options.Promotes w

theorem SameView.patchDemand_iff {lk₀ : Linker} (h : SameView lk₀ lk) :
    lk.PatchDemand f s p ↔ lk₀.PatchDemand f s p := by
  unfold PatchDemand
  rw [h.applies_iff, h.inside_iff, h.cautionsOf_eq, h.options_eq]

theorem sameView_write (lk : Linker) (f : ObjectFile) (s : Section) (position : ℕ) (new : Bytes) :
    SameView lk (lk.write f s position new) := by
  refine ⟨outline_write lk f s position new, ?_⟩
  unfold write
  split <;> rfl

theorem sameView_report (lk : Linker) (p : Problem) : SameView lk (lk.report p) := ⟨rfl, rfl⟩

theorem sameView_debug (lk : Linker) (message : Bytes) (attributes : List Attribute) :
    SameView lk (lk.debug message attributes) := ⟨rfl, rfl⟩

/-- A patch applies inside of its section exactly if there are bytes that it writes. -/
theorem applies_and_inside_iff :
    lk.Applies f p ∧ lk.Inside f s p
      ↔ ∃ value bytes, lk.valueOf f p = .ok value ∧ lk.patchedBytes f s p value = .ok bytes := by
  have hbytes : ∀ value, (∃ bytes, lk.patchedBytes f s p value = .ok bytes) ↔ _ :=
    fun value => exists_patchedBytes_iff.trans (and_congr_left' exists_patchedValue_iff)
  simp only [exists_and_left, hbytes]
  unfold Applies
  constructor
  · rintro ⟨⟨value, hvalue, hfits⟩, hinside⟩
    exact ⟨value, hvalue, hfits, hinside⟩
  · rintro ⟨value, hvalue, hfits, hinside⟩
    exact ⟨⟨value, hvalue, hfits⟩, hinside⟩

/-- The step: one patch. -/
theorem demands_apply (lk₀ : Linker) (f : ObjectFile) (s : Section) (p : Patch) :
    Demands lk₀ (fun lk => lk.apply f s p) (lk₀.PatchDemand f s p) := by
  intro lk hview
  rw [← hview.patchDemand_iff]
  obtain ⟨hview', hvalue, hclean⟩ := evaluate_spec lk f p
  unfold apply PatchDemand
  dsimp only
  rw [hvalue, applies_and_inside_iff]
  -- evaluation changes nothing that the bytes depend on
  have hsame : ∀ value, (lk.evaluate f p).1.patchedBytes f s p value
      = lk.patchedBytes f s p value := fun _ => rfl
  cases hresult : lk.valueOf f p with
  | error e => exact ⟨hview.trans hview', by simp⟩
  | ok value =>
    dsimp only
    rw [hsame]
    cases hbytes : lk.patchedBytes f s p value with
    | error e => exact ⟨hview.trans hview', by simp [hbytes]⟩
    | ok bytes =>
      refine ⟨(hview.trans hview').trans (sameView_write ..), ?_⟩
      simp [clean_write_iff, hclean, hbytes]

/-- The run: patches of one file. -/
theorem demands_applyPatches (lk₀ : Linker) (f : ObjectFile) (jobs : List (Section × Patch))
    (count : ℕ) :
    Demands lk₀ (fun lk => lk.applyPatches f count jobs)
      (∀ job ∈ jobs, lk₀.PatchDemand f job.1 job.2) := by
  induction jobs generalizing count with
  | nil =>
    intro lk hview
    exact ⟨hview, by simp [applyPatches]⟩
  | cons job jobs ih =>
    intro lk hview
    obtain ⟨s, p⟩ := job
    obtain ⟨hview', hstep⟩ := demands_apply lk₀ f s p lk hview
    dsimp only at hview' hstep ⊢
    rw [List.forall_mem_cons, ← and_assoc, ← hstep]
    unfold applyPatches
    split
    · next after happly =>
      rw [happly] at hview' ⊢
      obtain ⟨hview'', hrest⟩ := ih (count + 1) after hview'
      exact ⟨hview'', hrest.trans (and_congr_left' succeeds_ok_iff.symm)⟩
    · next after e happly =>
      rw [happly] at hview' ⊢
      split
      · exact ⟨hview', by simp⟩
      · -- the work goes on, but with a problem that stays
        obtain ⟨hview'', hrest⟩ := ih count _ (hview'.trans (sameView_report after _))
        refine ⟨hview'', hrest.trans (and_congr_left' ?_)⟩
        exact iff_of_false (not_clean_report _ _) not_succeeds_error

theorem demands_applyFile (lk₀ : Linker) (f : ObjectFile) :
    Demands lk₀ (fun lk => lk.applyFile f)
      (∀ s ∈ f.sections, ∀ p ∈ s.patches, lk₀.PatchDemand f s p) := by
  intro lk hview
  obtain ⟨hview', hrun⟩ := demands_applyPatches lk₀ f (patchesOf f) 0 lk hview
  have hjobs : (∀ job ∈ patchesOf f, lk₀.PatchDemand f job.1 job.2)
      ↔ ∀ s ∈ f.sections, ∀ p ∈ s.patches, lk₀.PatchDemand f s p := by
    simp only [patchesOf, List.forall_mem_flatMap, List.forall_mem_map]
  dsimp only at hview' hrun ⊢
  rw [← hjobs, ← hrun]
  unfold applyFile
  split
  · next after problem h =>
    rw [h] at hview' ⊢
    exact ⟨hview', by simp⟩
  · next after count h =>
    rw [h] at hview' ⊢
    refine ⟨hview'.trans (sameView_debug ..), ?_⟩
    rw [succeeds_ok_iff, succeeds_ok_iff]
    exact Iff.rfl

/-! ## Assertions -/

/-- What one assertion demands: it holds and raises no warning that is a problem. -/
def AssertionDemand (lk : Linker) (f : ObjectFile) (a : Assertion) : Prop :=
  lk.Holds f a ∧ ∀ w, lk.RaisedBy f a w → ¬lk.diagnostics.options.Promotes w

theorem SameView.assertionDemand_iff {lk₀ : Linker} (h : SameView lk₀ lk) {a : Assertion} :
    lk.AssertionDemand f a ↔ lk₀.AssertionDemand f a := by
  unfold AssertionDemand
  simp only [h.holds_iff, h.raisedBy_iff, h.options_eq]

/-- The step: one assertion. -/
theorem checkAssertion_spec {lk₀ : Linker} (f : ObjectFile) (a : Assertion)
    (hview : SameView lk₀ lk) :
    SameView lk₀ (lk.checkAssertion f a).1
      ∧ ((lk.checkAssertion f a).2 = none ∧ (lk.checkAssertion f a).1.Clean
        ↔ lk.Clean ∧ lk₀.AssertionDemand f a) := by
  rw [← hview.assertionDemand_iff]
  obtain ⟨hview', hvalue, hclean⟩ := evaluate_spec lk f a.patch
  have hview'' := hview.trans hview'
  unfold checkAssertion AssertionDemand Holds RaisedBy
  dsimp only
  rw [hvalue]
  cases hresult : lk.valueOf f a.patch with
  | error e =>
    dsimp only
    split
    · exact ⟨hview'', by simp⟩
    · refine ⟨hview''.trans (sameView_report _ _), ?_⟩
      simp [not_clean_report]
  | ok value =>
    dsimp only
    split
    · next hne =>
      refine ⟨hview'', ?_⟩
      simp [hclean, hne]
    · next hzero =>
      obtain rfl : value = 0 := not_not.mp hzero
      unfold failAssertion
      dsimp only
      split
      · next hlevel =>
        -- the failure is a warning, like those of the expression
        have hoptions := hview'.options_eq
        refine ⟨hview''.trans ⟨rfl, Diagnostics.options_warn _ _⟩, ?_⟩
        unfold Clean at hclean ⊢
        rw [Diagnostics.problemCount_warn_eq_zero_iff, hclean, hoptions]
        simp only [hlevel, or_imp, forall_and, true_and, forall_eq, ne_eq, not_true_eq_false,
          false_implies, and_true, Except.ok.injEq, exists_eq', Assertion.text]
        exact and_assoc
      · next hlevel =>
        split
        · refine ⟨hview''.trans (sameView_report _ _), ?_⟩
          simp [not_clean_report, hlevel]
        · refine ⟨hview'', ?_⟩
          simp [hlevel]

theorem demands_checkEach (lk₀ : Linker) (f : ObjectFile) (assertions : List Assertion) :
    Demands lk₀ (fun lk => lk.checkEach f assertions)
      (∀ a ∈ assertions, lk₀.AssertionDemand f a) := by
  induction assertions with
  | nil =>
    intro lk hview
    exact ⟨hview, by simp [checkEach]⟩
  | cons a assertions ih =>
    intro lk hview
    obtain ⟨hview', hstep⟩ := checkAssertion_spec f a hview
    dsimp only
    rw [List.forall_mem_cons, ← and_assoc, ← hstep]
    unfold checkEach
    split
    · next after hcheck =>
      rw [hcheck] at hview' ⊢
      obtain ⟨hview'', hrest⟩ := ih after hview'
      exact ⟨hview'', hrest.trans (and_congr_left' (and_iff_right rfl).symm)⟩
    · next after problem hcheck =>
      rw [hcheck] at hview' ⊢
      exact ⟨hview', by simp⟩

/-- The run: what work on files demands of all of them. -/
theorem demands_forFiles {lk₀ : Linker} {work : Linker → ObjectFile → Linker × Except Problem Unit}
    {P : ObjectFile → Prop} (hwork : ∀ f, Demands lk₀ (fun lk => work lk f) (P f))
    (files : List ObjectFile) :
    Demands lk₀ (fun lk => lk.forFiles work files) (∀ f ∈ files, P f) := by
  induction files with
  | nil =>
    intro lk hview
    exact ⟨hview, by simp [forFiles]⟩
  | cons f files ih =>
    intro lk hview
    obtain ⟨hview', hstep⟩ := hwork f lk hview
    dsimp only at hview' hstep ⊢
    rw [List.forall_mem_cons, ← and_assoc, ← hstep]
    unfold forFiles
    split
    · next after hrun =>
      rw [hrun] at hview' ⊢
      obtain ⟨hview'', hrest⟩ := ih after hview'
      exact ⟨hview'', hrest.trans (and_congr_left' succeeds_ok_iff.symm)⟩
    · next after problem hrun =>
      rw [hrun] at hview' ⊢
      exact ⟨hview', by simp⟩

end Linker

end BankedLinker
