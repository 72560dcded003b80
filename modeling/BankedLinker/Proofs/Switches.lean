import BankedLinker.Proofs.Execution
import BankedLinker.Proofs.Outcome

/-!
# Warning switches do not reach the output

Switches decide whether a warning is dropped, shown or counted as a problem. They are kept with the
diagnostics, and so is everything that depends on them: of two runs that differ by their switches
each step does the same to sections, symbols and files.

* `Linker.Alike`: two linkers differ by their diagnostics only;
* `Linker.Oblivious`: a piece of work does the same to linkers that are alike, with one rule for
  each kind of work;
* `Linker.alike_checkRun`: two runs with different switches stay alike to their end;
* `Linker.output_of_switches` is the result.
-/

namespace BankedLinker

namespace Linker

variable {lk lk' : Linker} {f : ObjectFile}

/-- The two linkers differ by their diagnostics only. -/
def Alike (lk lk' : Linker) : Prop :=
  ∃ diagnostics, lk' = { lk with diagnostics }

theorem Alike.trans {lk'' : Linker} (h : lk.Alike lk') (h' : lk'.Alike lk'') : lk.Alike lk'' := by
  obtain ⟨d, rfl⟩ := h
  obtain ⟨d', rfl⟩ := h'
  exact ⟨d', rfl⟩

theorem Alike.symm (h : lk.Alike lk') : lk'.Alike lk := by
  obtain ⟨d, rfl⟩ := h
  exact ⟨lk.diagnostics, rfl⟩

theorem Noted.alike (h : lk.Noted lk') : lk.Alike lk' := h.1

section Views

variable (h : lk.Alike lk')

include h

theorem Alike.files_eq : lk'.files = lk.files := by
  obtain ⟨d, rfl⟩ := h
  rfl

theorem Alike.sections_eq : lk'.sections = lk.sections := by
  obtain ⟨d, rfl⟩ := h
  rfl

theorem Alike.applies_iff (f : ObjectFile) (p : Patch) : lk'.Applies f p ↔ lk.Applies f p := by
  obtain ⟨d, rfl⟩ := h
  exact Iff.rfl

theorem Alike.inside_iff (f : ObjectFile) (s : Section) (p : Patch) :
    lk'.Inside f s p ↔ lk.Inside f s p := by
  obtain ⟨d, rfl⟩ := h
  exact Iff.rfl

theorem Alike.holds_iff (f : ObjectFile) (a : Assertion) : lk'.Holds f a ↔ lk.Holds f a := by
  obtain ⟨d, rfl⟩ := h
  exact Iff.rfl

theorem Alike.patchedBytes_eq (s : Section) (p : Patch) (value : Int32) :
    lk'.patchedBytes f s p value = lk.patchedBytes f s p value := by
  obtain ⟨d, rfl⟩ := h
  rfl

end Views

/-- Steps that keep linkers alike do so in any number. -/
theorem Alike.foldl {α : Type} {step : Linker → α → Linker}
    (hstep : ∀ lk lk' a, Alike lk lk' → Alike (step lk a) (step lk' a)) (h : lk.Alike lk')
    (items : List α) : (items.foldl step lk).Alike (items.foldl step lk') := by
  induction items generalizing lk lk' with
  | nil => exact h
  | cons a items ih => exact ih (hstep lk lk' a h)

/-! ## Collecting and placing -/

theorem Alike.addSymbol (h : lk.Alike lk') (symbol : Symbol) :
    (lk.addSymbol f symbol).Alike (lk'.addSymbol f symbol) := by
  obtain ⟨d, rfl⟩ := h
  unfold Linker.addSymbol
  cases lk.table.add ⟨f, symbol⟩ with
  | mk table e =>
    cases e with
    | none => exact ⟨_, rfl⟩
    | some e => exact ⟨_, rfl⟩

theorem Alike.addSection (h : lk.Alike lk') (s : Section) :
    (lk.addSection f s).Alike (lk'.addSection f s) := by
  obtain ⟨d, rfl⟩ := h
  unfold Linker.addSection
  cases lk.registry.add f s with
  | mk registry e =>
    cases e with
    | none => exact ⟨_, rfl⟩
    | some e => exact ⟨_, rfl⟩

theorem Alike.addFile (h : lk.Alike lk') (f : ObjectFile) :
    (lk.addFile f).Alike (lk'.addFile f) := by
  have hsymbols : (lk.addSymbols f).Alike (lk'.addSymbols f) :=
    h.foldl (fun _ _ symbol h => h.addSymbol symbol) f.symbols
  exact hsymbols.foldl (fun _ _ s h => h.addSection s) f.sections

theorem Alike.settle (h : lk.Alike lk') (o : Placement.Outcome) :
    (lk.settle o).Alike (lk'.settle o) := by
  obtain ⟨d, rfl⟩ := h
  unfold Linker.settle
  cases o.result with
  | error e => exact ⟨_, rfl⟩
  | ok location => exact ⟨_, rfl⟩

theorem Alike.assign (h : lk.Alike lk') : lk.assign.Alike lk'.assign := by
  have houtcomes : Placement.assign lk'.map lk'.sections = Placement.assign lk.map lk.sections := by
    obtain ⟨d, rfl⟩ := h
    rfl
  unfold Linker.assign
  rw [houtcomes]
  exact h.foldl (fun _ _ o h => h.settle o) _

theorem Alike.afterAssigning (h : lk.Alike lk') : lk.afterAssigning.Alike lk'.afterAssigning := by
  have hmerged : (lk.files.foldl Linker.addFile lk).Alike (lk'.files.foldl Linker.addFile lk') := by
    rw [h.files_eq]
    exact h.foldl (fun _ _ f h => h.addFile f) lk.files
  -- records of the log are diagnostics
  have hnoted : ∀ lk : Linker,
      (lk.files.foldl Linker.addFile lk).Alike lk.afterMerging.noteUnresolved :=
    fun lk => (noted_debug _ _ _).alike.trans (noted_noteUnresolved _).alike
  have hplaced := (((hnoted lk).symm.trans hmerged).trans (hnoted lk')).assign
  exact ((noted_debug _ _ _).alike.symm.trans hplaced).trans (noted_debug _ _ _).alike

/-! ## Patches and assertions -/

/-- The work does the same to linkers that are alike and has the same result. -/
def Oblivious {α : Type} (work : Linker → Linker × α) : Prop :=
  ∀ lk lk', Alike lk lk' → Alike (work lk).1 (work lk').1 ∧ (work lk').2 = (work lk).2

theorem Alike.write (h : lk.Alike lk') (s : Section) (position : ℕ) (new : Bytes) :
    (lk.write f s position new).Alike (lk'.write f s position new) := by
  obtain ⟨d, rfl⟩ := h
  unfold Linker.write
  dsimp only
  cases s.kind.hasData <;> cases lk.registry.member? f s <;> exact ⟨_, rfl⟩

theorem Alike.report (h : lk.Alike lk') (p : Problem) : (lk.report p).Alike (lk'.report p) := by
  obtain ⟨d, rfl⟩ := h
  exact ⟨_, rfl⟩

theorem oblivious_evaluate (f : ObjectFile) (p : Patch) :
    Oblivious fun lk => lk.evaluate f p := by
  rintro lk _ ⟨d, rfl⟩
  exact ⟨⟨_, rfl⟩, rfl⟩

/-- The step: one patch. Warnings of its expression are raised in the diagnostics, and whatever
becomes of them, the value is written. -/
theorem oblivious_apply (f : ObjectFile) (s : Section) (p : Patch) :
    Oblivious fun lk => lk.apply f s p := by
  intro lk lk' h
  obtain ⟨halike, hresult⟩ := oblivious_evaluate f p lk lk' h
  dsimp only at halike hresult ⊢
  unfold apply
  dsimp only
  rw [hresult]
  cases (lk.evaluate f p).2 with
  | error e => exact ⟨halike, rfl⟩
  | ok value =>
    dsimp only
    rw [halike.patchedBytes_eq]
    cases (lk.evaluate f p).1.patchedBytes f s p value with
    | error e => exact ⟨halike, rfl⟩
    | ok bytes => exact ⟨halike.write s _ bytes, rfl⟩

/-- The run: patches of one file. -/
theorem oblivious_applyPatches (f : ObjectFile) (jobs : List (Section × Patch)) (count : ℕ) :
    Oblivious fun lk => lk.applyPatches f count jobs := by
  induction jobs generalizing count with
  | nil => exact fun lk lk' h => ⟨h, rfl⟩
  | cons job jobs ih =>
    intro lk lk' h
    obtain ⟨s, p⟩ := job
    obtain ⟨halike, hresult⟩ := oblivious_apply f s p lk lk' h
    dsimp only at halike hresult ⊢
    unfold applyPatches
    cases hstep : lk.apply f s p with
    | mk after result =>
      cases hstep' : lk'.apply f s p with
      | mk after' result' =>
        rw [hstep, hstep'] at halike hresult
        obtain rfl : result' = result := hresult
        cases result' with
        | ok u => exact ih (count + 1) after after' halike
        | error e =>
          dsimp only
          split
          · exact ⟨halike, rfl⟩
          · exact ih count _ _ (halike.report _)

theorem oblivious_applyFile (f : ObjectFile) : Oblivious fun lk => lk.applyFile f := by
  intro lk lk' h
  obtain ⟨halike, hresult⟩ := oblivious_applyPatches f (patchesOf f) 0 lk lk' h
  dsimp only at halike hresult ⊢
  unfold applyFile
  cases hrun : lk.applyPatches f 0 (patchesOf f) with
  | mk after result =>
    cases hrun' : lk'.applyPatches f 0 (patchesOf f) with
    | mk after' result' =>
      rw [hrun, hrun'] at halike hresult
      obtain rfl : result' = result := hresult
      cases result' with
      | error e => exact ⟨halike, rfl⟩
      | ok count =>
        refine ⟨?_, rfl⟩
        exact ((noted_debug _ _ _).alike.symm.trans halike).trans (noted_debug _ _ _).alike

/-- The step: one assertion. -/
theorem oblivious_checkAssertion (f : ObjectFile) (a : Assertion) :
    Oblivious fun lk => lk.checkAssertion f a := by
  intro lk lk' h
  obtain ⟨halike, hresult⟩ := oblivious_evaluate f a.patch lk lk' h
  dsimp only at halike hresult ⊢
  unfold checkAssertion
  dsimp only
  rw [hresult]
  cases (lk.evaluate f a.patch).2 with
  | error e =>
    dsimp only
    split
    · exact ⟨halike, rfl⟩
    · exact ⟨halike.report _, rfl⟩
  | ok value =>
    dsimp only
    split
    · exact ⟨halike, rfl⟩
    · unfold failAssertion
      dsimp only
      split
      · obtain ⟨d, hd⟩ := halike
        rw [hd]
        exact ⟨⟨_, rfl⟩, rfl⟩
      · split
        · exact ⟨halike.report _, rfl⟩
        · exact ⟨halike, rfl⟩

theorem oblivious_checkEach (f : ObjectFile) (assertions : List Assertion) :
    Oblivious fun lk => lk.checkEach f assertions := by
  induction assertions with
  | nil => exact fun lk lk' h => ⟨h, rfl⟩
  | cons a assertions ih =>
    intro lk lk' h
    obtain ⟨halike, hresult⟩ := oblivious_checkAssertion f a lk lk' h
    dsimp only at halike hresult ⊢
    unfold checkEach
    cases hstep : lk.checkAssertion f a with
    | mk after problem =>
      cases hstep' : lk'.checkAssertion f a with
      | mk after' problem' =>
        rw [hstep, hstep'] at halike hresult
        obtain rfl : problem' = problem := hresult
        cases problem' with
        | none => exact ih after after' halike
        | some p => exact ⟨halike, rfl⟩

/-- The run: work on files. -/
theorem oblivious_forFiles {work : Linker → ObjectFile → Linker × Except Problem Unit}
    (hwork : ∀ f, Oblivious fun lk => work lk f) (files : List ObjectFile) :
    Oblivious fun lk => lk.forFiles work files := by
  induction files with
  | nil => exact fun lk lk' h => ⟨h, rfl⟩
  | cons f files ih =>
    intro lk lk' h
    obtain ⟨halike, hresult⟩ := hwork f lk lk' h
    dsimp only at halike hresult ⊢
    unfold forFiles
    cases hstep : work lk f with
    | mk after result =>
      cases hstep' : work lk' f with
      | mk after' result' =>
        rw [hstep, hstep'] at halike hresult
        obtain rfl : result' = result := hresult
        cases result' with
        | ok u => exact ih after after' halike
        | error p => exact ⟨halike, rfl⟩

/-! ## The whole run -/

/-- Runs that start alike are alike after the assertions. -/
theorem alike_checkRun (h : lk.Alike lk') : lk.checkRun.1.Alike lk'.checkRun.1 := by
  have hassigned := h.afterAssigning
  have hfiles := hassigned.files_eq
  obtain ⟨hpatched, -⟩ :=
    oblivious_forFiles oblivious_applyFile lk.afterAssigning.files _ _ hassigned
  have hpatched' : lk.patchRun.1.Alike lk'.patchRun.1 := by
    unfold patchRun
    rw [hfiles]
    exact hpatched
  unfold checkRun
  rw [hfiles]
  exact (oblivious_forFiles (fun f => oblivious_checkEach f f.assertions) _ _ _ hpatched').1

/-- Runs that are alike after the assertions have the same output. -/
theorem Outcome.of_alike {checked checked' : Linker} {pad : UInt8} {program program' : Program}
    (h : checked.Outcome pad lk program) (h' : checked'.Outcome pad lk' program')
    (halike : checked.Alike checked') :
    lk'.registry = lk.registry ∧ program'.image = program.image
      ∧ program'.sections = program.sections ∧ program'.labels = program.labels := by
  obtain ⟨d, rfl⟩ := halike
  rw [h.registry_eq, h'.registry_eq, h.program_eq, h'.program_eq]
  exact ⟨rfl, rfl, rfl, rfl⟩

section Start

variable {map : MemoryMap} {files : List ObjectFile} {first second : WarningOptions}

theorem alike_start (map : MemoryMap) (files : List ObjectFile) (first second : WarningOptions) :
    (start map first files).Alike (start map second files) :=
  ⟨{ options := second }, rfl⟩

theorem not_promotes (hmode : ∀ name, second.mode name ≠ .error)
    (hall : second.allAsErrors = false) (w : Warning) : ¬second.Promotes w := by
  rintro ⟨-, herror | herror⟩
  · exact hmode _ herror
  · rw [hall] at herror
    cases herror

/-- What is wrong with files apart from promoted warnings is so under all switches. -/
theorem Flawless.of_unpromoted (h : Flawless map first files)
    (hunpromoted : ∀ w, ¬second.Promotes w) : Flawless map second files := by
  have halike := (alike_start map files first second).afterAssigning
  refine ⟨h.added, h.merged, ?_, ?_, ?_, fun w _ => hunpromoted w⟩
  · rw [halike.sections_eq]
    exact h.placed
  · simp only [halike.applies_iff]
    exact h.applies
  · simp only [halike.holds_iff]
    exact h.holds

/-- Two runs that differ by their warning switches have the same image, sections, labels and places
if they succeed, and a run that succeeds does so under all switches that make no warning a
problem. -/
theorem output_of_switches (map : MemoryMap) (pad : UInt8) (files : List ObjectFile)
    (first second : WarningOptions) :
    (∀ (c c' : Cancellation) (looks looks' : ℕ) (lk lk' : Linker) (program program' : Program),
      (start map first files).link pad c looks = (lk, .ok program) →
      (start map second files).link pad c' looks' = (lk', .ok program') →
      program'.image = program.image ∧ program'.sections = program.sections
        ∧ program'.labels = program.labels
        ∧ ∀ f s, lk'.registry.org f s = lk.registry.org f s
          ∧ lk'.registry.bank f s = lk.registry.bank f s)
    ∧ ∀ (c : Cancellation) (looks : ℕ), (∀ name, second.mode name ≠ .error) →
      second.allAsErrors = false →
      (∃ lk program, (start map first files).link pad c looks = (lk, .ok program)) →
      ∃ lk program, (start map second files).link pad c looks = (lk, .ok program) := by
  constructor
  · intro c c' looks looks' lk lk' program program' h h'
    obtain ⟨hregistry, himage, hsections, hlabels⟩ :=
      (outcome_of_link h).of_alike (outcome_of_link h') (alike_checkRun (alike_start ..))
    rw [hregistry]
    exact ⟨himage, hsections, hlabels, fun f s => ⟨rfl, rfl⟩⟩
  · intro c looks hmode hall hlink
    obtain ⟨hspares, hplain⟩ := exists_link_iff_spares.mp hlink
    obtain ⟨hflawless, hinside⟩ := exists_link_iff_flawless_and_inside.mp hplain
    have halike := (alike_start map files first second).afterAssigning
    refine exists_link_iff_spares.mpr ⟨hspares, exists_link_iff_flawless_and_inside.mpr
      ⟨hflawless.of_unpromoted (not_promotes hmode hall), ?_⟩⟩
    simp only [halike.inside_iff]
    exact hinside

/-- The file with the loop has an assertion that fails as a warning. It is linked whether the
warning is shown or not, and to the same image. -/
theorem output_of_switches_loopFile :
    ∃ lk lk' program program',
      (start {} {} [Run.loopFile]).link 0xFF {} 1 = (lk, .ok program)
        ∧ (start {} { modes := [("assert", .off)] } [Run.loopFile]).link 0xFF {} 1
          = (lk', .ok program')
        ∧ program'.image = program.image := by
  obtain ⟨houtput, hsuccess⟩ := output_of_switches {} 0xFF [Run.loopFile] {}
    { modes := [("assert", .off)] }
  obtain ⟨lk, program, h⟩ := Run.exists_link_loopFile
  have hmode : ∀ name, WarningOptions.mode { modes := [("assert", .off)] } name ≠ .error := by
    intro name
    unfold WarningOptions.mode
    rw [List.lookup_cons]
    split <;> simp
  obtain ⟨lk', program', h'⟩ := hsuccess {} 1 hmode rfl ⟨lk, program, h⟩
  exact ⟨lk, lk', program, program', h, h',
    (houtput {} {} 1 1 lk lk' program program' h h').1⟩

end Start

end Linker

end BankedLinker
