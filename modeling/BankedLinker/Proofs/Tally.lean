import BankedLinker.Proofs.Outcome

/-!
# The number of warnings

Warnings come from expressions and from assertions of the lowest level. Those that are neither
dropped nor problems are shown and counted. Values do not change once sections are placed, so the
warnings of a run can be listed beforehand, and the program counts those of the list that are shown.

* `WarningOptions.shows`: which warnings are counted;
* `Linker.Raises`: the warnings that a piece of work raises, with one rule for each kind of work;
* `Linker.raisedIn` lists the warnings of files, and `Linker.warnings_of_link` counts them.
-/

namespace BankedLinker

/-- The settings let the warning be shown as a warning. -/
def WarningOptions.shows (o : WarningOptions) (w : Warning) : Bool :=
  o.mode w.switchName = .on && !o.allAsErrors

namespace Diagnostics

theorem warnings_warn (d : Diagnostics) (w : Warning) :
    (d.warn w).warnings = d.warnings + [w].countP d.options.shows := by
  rw [List.countP_singleton]
  unfold warn WarningOptions.shows
  dsimp only
  cases d.options.mode w.switchName <;> cases d.options.allAsErrors <;> rfl

theorem warnings_warnAll (d : Diagnostics) (ws : List Warning) :
    (d.warnAll ws).warnings = d.warnings + ws.countP d.options.shows := by
  induction ws generalizing d with
  | nil => rfl
  | cons w ws ih =>
    show ((d.warn w).warnAll ws).warnings = _
    rw [ih, options_warn, warnings_warn, Nat.add_assoc, ← List.countP_append, List.singleton_append]

end Diagnostics

namespace Linker

variable {lk lk₀ : Linker} {f : ObjectFile}

/-- The warnings that checking an assertion raises: those of its expression, and one of its own if
it is of the lowest level and does not hold. -/
def raisedBy (lk : Linker) (f : ObjectFile) (a : Assertion) : List Warning :=
  lk.cautionsOf f a.patch
    ++ if a.level = .warning ∧ lk.valueOf f a.patch = .ok 0
      then [.assertion (f.trace a.patch.source) a.text] else []

theorem SameView.raisedBy_eq (h : SameView lk₀ lk) (f : ObjectFile) (a : Assertion) :
    lk.raisedBy f a = lk₀.raisedBy f a := by
  unfold raisedBy
  rw [h.cautionsOf_eq, h.valueOf_eq]

/-! ## One patch, one assertion -/

theorem warnings_evaluate (lk : Linker) (f : ObjectFile) (p : Patch) :
    (lk.evaluate f p).1.diagnostics.warnings
      = lk.diagnostics.warnings + (lk.cautionsOf f p).countP lk.diagnostics.options.shows :=
  Diagnostics.warnings_warnAll _ _

theorem warnings_write (lk : Linker) (f : ObjectFile) (s : Section) (position : ℕ) (new : Bytes) :
    (lk.write f s position new).diagnostics.warnings = lk.diagnostics.warnings := by
  unfold write
  split <;> rfl

/-- A patch raises the warnings of its expression, whether it can be applied or not. -/
theorem warnings_apply (lk : Linker) (f : ObjectFile) (s : Section) (p : Patch) :
    (lk.apply f s p).1.diagnostics.warnings
      = lk.diagnostics.warnings + (lk.cautionsOf f p).countP lk.diagnostics.options.shows := by
  rw [← warnings_evaluate]
  unfold apply
  dsimp only
  split
  · rfl
  · split
    · rfl
    · exact warnings_write ..

theorem warnings_checkAssertion (lk : Linker) (f : ObjectFile) (a : Assertion) :
    (lk.checkAssertion f a).1.diagnostics.warnings
      = lk.diagnostics.warnings + (lk.raisedBy f a).countP lk.diagnostics.options.shows := by
  obtain ⟨hview, hvalue, -⟩ := evaluate_spec lk f a.patch
  unfold raisedBy
  rw [List.countP_append, ← Nat.add_assoc, ← warnings_evaluate]
  unfold checkAssertion failAssertion
  dsimp only
  rw [hvalue]
  by_cases hfails : a.level = .warning ∧ lk.valueOf f a.patch = .ok 0
  · rw [if_pos hfails, hfails.2, ← hview.options_eq]
    dsimp only
    rw [if_neg (not_not.mpr rfl), if_pos hfails.1]
    exact Diagnostics.warnings_warn _ _
  · -- any other assertion is a problem or nothing at all
    rw [if_neg hfails, List.countP_nil, Nat.add_zero]
    cases hresult : lk.valueOf f a.patch with
    | error e =>
      dsimp only
      split <;> rfl
    | ok value =>
      dsimp only
      split
      · rfl
      next hne =>
      obtain rfl : value = 0 := not_not.mp hne
      have hlevel : a.level ≠ .warning := fun h => hfails ⟨h, hresult⟩
      rw [if_neg hlevel]
      split <;> rfl

/-! ## Runs -/

/-- Wherever symbols, places and switches are those of `lk₀`, the work leaves them as they are, and
if it is finished it has raised the warnings of the list. -/
def Raises {ε α : Type} (lk₀ : Linker) (work : Linker → Linker × Except ε α)
    (ws : List Warning) : Prop :=
  ∀ lk, SameView lk₀ lk → SameView lk₀ (work lk).1
    ∧ ∀ a, (work lk).2 = .ok a → (work lk).1.diagnostics.warnings
      = lk.diagnostics.warnings + ws.countP lk₀.diagnostics.options.shows

theorem raises_applyPatches (lk₀ : Linker) (f : ObjectFile) (jobs : List (Section × Patch))
    (count : ℕ) :
    Raises lk₀ (fun lk => lk.applyPatches f count jobs)
      (jobs.flatMap fun job => lk₀.cautionsOf f job.2) := by
  induction jobs generalizing count with
  | nil => exact fun lk hview => ⟨hview, fun _ _ => rfl⟩
  | cons job jobs ih =>
    intro lk hview
    obtain ⟨s, p⟩ := job
    have hview' := (demands_apply lk₀ f s p lk hview).1
    have hstep := warnings_apply lk f s p
    rw [hview.cautionsOf_eq, hview.options_eq] at hstep
    rw [List.flatMap_cons, List.countP_append, ← Nat.add_assoc, ← hstep]
    dsimp only at hview' ⊢
    unfold applyPatches
    split
    · next after happly =>
      rw [happly] at hview' ⊢
      exact ih (count + 1) after hview'
    · next after e happly =>
      rw [happly] at hview' ⊢
      split
      · exact ⟨hview', fun _ h => nomatch h⟩
      · exact ih count _ (hview'.trans (sameView_report after _))

theorem raises_applyFile (lk₀ : Linker) (f : ObjectFile) :
    Raises lk₀ (fun lk => lk.applyFile f)
      ((patchesOf f).flatMap fun job => lk₀.cautionsOf f job.2) := by
  intro lk hview
  obtain ⟨hview', hcount⟩ := raises_applyPatches lk₀ f (patchesOf f) 0 lk hview
  dsimp only at hview' hcount ⊢
  unfold applyFile
  split
  · next after problem h =>
    rw [h] at hview'
    exact ⟨hview', fun _ h => nomatch h⟩
  · next after count h =>
    rw [h] at hview' hcount
    exact ⟨hview'.trans (sameView_debug ..), fun _ _ => hcount count rfl⟩

theorem raises_checkEach (lk₀ : Linker) (f : ObjectFile) (assertions : List Assertion) :
    Raises lk₀ (fun lk => lk.checkEach f assertions) (assertions.flatMap (lk₀.raisedBy f)) := by
  induction assertions with
  | nil => exact fun lk hview => ⟨hview, fun _ _ => rfl⟩
  | cons a assertions ih =>
    intro lk hview
    have hview' := (checkAssertion_spec f a hview).1
    have hstep := warnings_checkAssertion lk f a
    rw [hview.raisedBy_eq, hview.options_eq] at hstep
    rw [List.flatMap_cons, List.countP_append, ← Nat.add_assoc, ← hstep]
    dsimp only
    unfold checkEach
    split
    · next after hcheck =>
      rw [hcheck] at hview' ⊢
      exact ih after hview'
    · next after problem hcheck =>
      rw [hcheck] at hview' ⊢
      exact ⟨hview', fun _ h => nomatch h⟩

theorem raises_forFiles {work : Linker → ObjectFile → Linker × Except Problem Unit}
    {ws : ObjectFile → List Warning} (hwork : ∀ f, Raises lk₀ (fun lk => work lk f) (ws f))
    (files : List ObjectFile) :
    Raises lk₀ (fun lk => lk.forFiles work files) (files.flatMap ws) := by
  induction files with
  | nil => exact fun lk hview => ⟨hview, fun _ _ => rfl⟩
  | cons f files ih =>
    intro lk hview
    obtain ⟨hview', hstep⟩ := hwork f lk hview
    rw [List.flatMap_cons, List.countP_append, ← Nat.add_assoc]
    dsimp only at hview' hstep ⊢
    unfold forFiles
    split
    · next after hrun =>
      rw [hrun] at hview' hstep
      rw [← hstep () rfl]
      exact ih after hview'
    · next after problem hrun =>
      rw [hrun] at hview'
      exact ⟨hview', fun _ h => nomatch h⟩

/-! ## The whole run -/

/-- The warnings that patches and assertions of files raise. -/
def raisedIn (lk : Linker) (files : List ObjectFile) : List Warning :=
  (files.flatMap fun f => (patchesOf f).flatMap fun job => lk.cautionsOf f job.2)
    ++ files.flatMap fun f => f.assertions.flatMap (lk.raisedBy f)

theorem warnings_noteUnresolved (lk : Linker) :
    lk.noteUnresolved.diagnostics.warnings = lk.diagnostics.warnings := by
  unfold noteUnresolved
  generalize lk.table.unresolved = names
  induction names generalizing lk with
  | nil => rfl
  | cons name names ih => exact ih (lk.debug _ _)

theorem warnings_foldl_settle (outcomes : List Placement.Outcome) (lk : Linker) :
    (outcomes.foldl settle lk).diagnostics.warnings = lk.diagnostics.warnings := by
  induction outcomes generalizing lk with
  | nil => rfl
  | cons o outcomes ih =>
    rw [List.foldl_cons, ih]
    unfold settle
    split <;> rfl

section Start

variable {map : MemoryMap} {warnings : WarningOptions} {files : List ObjectFile} {pad : UInt8}
  {cancellation : Cancellation} {looks : ℕ} {lk' : Linker} {program : Program}

/-- Collecting and placing raise no warnings. -/
theorem warnings_afterAssigning (h : (files.foldl addFile (start map warnings files)).Clean) :
    (start map warnings files).afterAssigning.diagnostics.warnings = 0 := by
  obtain ⟨-, -, table, heq⟩ := merged_of_clean h
  have hmerged : (start map warnings files).afterMerging.diagnostics.warnings = 0 := by
    show (files.foldl addFile (start map warnings files)).diagnostics.warnings = 0
    rw [heq]
    rfl
  rw [← warnings_noteUnresolved] at hmerged
  unfold afterAssigning
  generalize (start map warnings files).afterMerging.noteUnresolved = collected at hmerged ⊢
  rw [← hmerged]
  exact warnings_foldl_settle (Placement.assign collected.map collected.sections) collected

/-- A program counts the warnings that its files raise and the settings show. -/
theorem warnings_of_link
    (h : (start map warnings files).link pad cancellation looks = (lk', .ok program)) :
    program.warnings
      = ((start map warnings files).afterAssigning.raisedIn files).countP warnings.shows := by
  obtain ⟨hmerged, -, hpatched, ⟨_, hchecked⟩, -⟩ :=
    exists_link_iff_stages.mp ⟨_, _, (link_eq_ok_iff_spares.mp h).2⟩
  obtain ⟨hfiles, hoptions⟩ := afterAssigning_of_clean hmerged
  have hzero := warnings_afterAssigning hmerged
  rw [(outcome_of_link h).program_eq]
  unfold checkRun patchRun at *
  generalize (start map warnings files).afterAssigning = placed at *
  subst hfiles hoptions
  obtain ⟨hview, hpatches⟩ :=
    raises_forFiles (raises_applyFile placed) placed.files placed (.refl _)
  obtain ⟨-, hassertions⟩ := raises_forFiles
    (fun f => raises_checkEach placed f f.assertions) placed.files _ hview
  unfold raisedIn
  rw [List.countP_append, ← Nat.zero_add (List.countP _ _), ← hzero, ← hpatches () hpatched]
  exact hassertions _ hchecked

end Start

end Linker

end BankedLinker
