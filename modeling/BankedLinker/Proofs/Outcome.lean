import BankedLinker.Proofs.Success

/-!
# What a successful run returns

A run that succeeds was not cancelled at any look and left no problem in any stage. So it is also
a successful run without a cancellation, and its program is read off the linker after the
assertions.

* `Cancellation.Spares`: no look of a run finds it cancelled;
* `Linker.link_eq_ok_iff_spares`: a run succeeds exactly if it is spared and succeeds without a
  cancellation;
* `Linker.outcome_of_link`: linker and program at the end of a successful run.
-/

namespace BankedLinker

/-- None of the looks after the stages of a run finds it cancelled. -/
def Cancellation.Spares (c : Cancellation) (looks : ℕ) : Prop :=
  ∀ stage : Stage, c.showsAt (looks + stage.index) = false

namespace Linker

variable {lk lk' : Linker} {pad : UInt8} {cancellation : Cancellation} {looks : ℕ}
  {program : Program}

theorem finishStage_of_spares (h : cancellation.Spares looks) (lk : Linker) (stage : Stage) :
    lk.finishStage cancellation looks stage = lk.finishStage {} looks stage := by
  unfold finishStage
  rw [h stage]
  rfl

theorem not_shows_of_finishStage {stage : Stage}
    (h : lk.finishStage cancellation looks stage = .ok lk') :
    cancellation.showsAt (looks + stage.index) = false := by
  unfold finishStage at h
  split at h
  · cases h
  split at h
  · cases h
  · next hshows => exact Bool.not_eq_true _ ▸ hshows

theorem link_of_spares (h : cancellation.Spares looks) :
    lk.link pad cancellation looks = lk.link pad {} looks := by
  unfold link assignStage patchStage
  simp only [finishStage_of_spares h]

theorem spares_of_link (h : lk.link pad cancellation looks = (lk', .ok program)) :
    cancellation.Spares looks := by
  unfold link at h
  dsimp only at h
  split at h
  · cases h
  next first hfirst =>
  unfold assignStage at h
  dsimp only at h
  split at h
  · cases h
  next second hsecond =>
  unfold patchStage at h
  dsimp only at h
  split at h
  · cases h
  split at h
  · cases h
  split at h
  · cases h
  next third hthird =>
  intro stage
  cases stage with
  | merging => exact not_shows_of_finishStage hfirst
  | assigning => exact not_shows_of_finishStage hsecond
  | patching => exact not_shows_of_finishStage hthird

/-- A run succeeds exactly if no look finds it cancelled and it succeeds without a cancellation,
and the result is the same. -/
theorem link_eq_ok_iff_spares :
    lk.link pad cancellation looks = (lk', .ok program)
      ↔ cancellation.Spares looks ∧ lk.link pad {} looks = (lk', .ok program) := by
  constructor
  · intro h
    have hspares := spares_of_link h
    exact ⟨hspares, (link_of_spares hspares).symm.trans h⟩
  · rintro ⟨hspares, h⟩
    exact (link_of_spares hspares).trans h

theorem exists_link_iff_spares :
    (∃ lk' program, lk.link pad cancellation looks = (lk', .ok program))
      ↔ cancellation.Spares looks
        ∧ ∃ lk' program, lk.link pad {} looks = (lk', .ok program) := by
  constructor
  · rintro ⟨lk', program, h⟩
    obtain ⟨hspares, hplain⟩ := link_eq_ok_iff_spares.mp h
    exact ⟨hspares, lk', program, hplain⟩
  · rintro ⟨hspares, lk', program, h⟩
    exact ⟨lk', program, link_eq_ok_iff_spares.mpr ⟨hspares, h⟩⟩

/-- Linker and program at the end of a run that finished its assertions in the state `checked`:
nothing is changed any more, and the program is made of the sections and labels that are there. -/
structure Outcome (checked : Linker) (pad : UInt8) (lk' : Linker) (program : Program) :
    Prop where
  registry_eq : lk'.registry = checked.registry
  program_eq : program = {
    map := checked.map
    sections := checked.sections
    labels := checked.labels
    image := Rom.image checked.map pad checked.sections
    warnings := checked.diagnostics.warnings }
  outline_eq : lk'.outline = checked.outline

theorem outcome_finish (checked : Linker) (pad : UInt8) (message : Bytes)
    (attributes : List Attribute) :
    checked.Outcome pad ((checked.debug message attributes).finish pad).1
      ((checked.debug message attributes).finish pad).2 :=
  ⟨rfl, rfl, rfl⟩

theorem outcome_of_link (h : lk.link pad cancellation looks = (lk', .ok program)) :
    lk.checkRun.1.Outcome pad lk' program := by
  have hplain := (link_eq_ok_iff_spares.mp h).2
  obtain ⟨hmerged, hassigned, hpatched, ⟨_, hchecked⟩, hclean⟩ :=
    exists_link_iff_stages.mp ⟨lk', program, hplain⟩
  have hpatch : lk.afterAssigning.forFiles applyFile lk.afterAssigning.files
      = (lk.patchRun.1, .ok ()) := Prod.ext rfl hpatched
  have hcheck : lk.patchRun.1.forFiles checkAssertions lk.afterAssigning.files
      = (lk.checkRun.1, .ok ()) := Prod.ext rfl hchecked
  unfold link at hplain
  dsimp only at hplain
  rw [finishStage_of_clean hmerged] at hplain
  change lk.afterMerging.assignStage pad {} looks = _ at hplain
  unfold assignStage at hplain
  dsimp only at hplain
  rw [finishStage_of_clean hassigned] at hplain
  change lk.afterAssigning.patchStage pad {} looks = _ at hplain
  unfold patchStage at hplain
  dsimp only at hplain
  rw [hpatch] at hplain
  dsimp only at hplain
  rw [hcheck] at hplain
  dsimp only at hplain
  rw [finishStage_of_clean hclean] at hplain
  generalize lk.checkRun.1 = checked at hplain ⊢
  cases hplain
  exact outcome_finish checked pad _ _

/-- Patches and assertions keep symbols, places and switches. -/
theorem sameView_checkRun (lk : Linker) : SameView lk.afterAssigning lk.checkRun.1 := by
  have hpatched : SameView lk.afterAssigning lk.patchRun.1 :=
    (demands_forFiles (demands_applyFile lk.afterAssigning) lk.afterAssigning.files _ (.refl _)).1
  exact (demands_forFiles (fun f => demands_checkEach lk.afterAssigning f f.assertions)
    lk.afterAssigning.files _ hpatched).1

/-- At the end of a successful run symbols and places are those after placing. -/
theorem outline_of_link (h : lk.link pad cancellation looks = (lk', .ok program)) :
    lk'.outline = lk.afterAssigning.outline :=
  (outcome_of_link h).outline_eq.trans (sameView_checkRun lk).outline_eq

/-- The program has the labels of the linker. -/
theorem labels_of_link (h : lk.link pad cancellation looks = (lk', .ok program)) :
    program.labels = lk'.labels := by
  obtain ⟨hregistry, hprogram, houtline⟩ := outcome_of_link h
  generalize lk.checkRun.1 = checked at hregistry hprogram houtline
  have htable : lk'.table = checked.table := by
    show lk'.outline.table = checked.outline.table
    rw [houtline]
  unfold labels
  rw [hprogram, hregistry, htable]
  rfl

section Start

variable {map : MemoryMap} {warnings : WarningOptions} {files : List ObjectFile}

theorem map_afterAssigning (h : (files.foldl addFile (start map warnings files)).Clean) :
    (start map warnings files).afterAssigning.map = map := by
  obtain ⟨-, hmap, -⟩ := unresolved_of_clean h
  unfold afterAssigning
  generalize (start map warnings files).afterMerging.noteUnresolved = collected at hmap ⊢
  rw [← hmap]
  exact (foldl_settle_frame (Placement.assign collected.map collected.sections) collected).1

/-- The program has the map of the run and the sections of the linker. -/
theorem program_of_link
    (h : (start map warnings files).link pad cancellation looks = (lk', .ok program)) :
    program.map = map ∧ program.sections = lk'.sections
      ∧ program.image = Rom.image map pad lk'.sections := by
  obtain ⟨hmerged, -⟩ := exists_link_iff_stages.mp ⟨_, _, (link_eq_ok_iff_spares.mp h).2⟩
  obtain ⟨hregistry, hprogram, -⟩ := outcome_of_link h
  have houtline := (sameView_checkRun (start map warnings files)).outline_eq
  have hassigned := map_afterAssigning hmerged
  generalize (start map warnings files).checkRun.1 = checked at hregistry hprogram houtline
  generalize (start map warnings files).afterAssigning = placed at houtline hassigned
  have hmap : checked.map = map := (congrArg Linker.map houtline).trans hassigned
  unfold sections
  rw [hprogram, hregistry, hmap]
  exact ⟨rfl, rfl, rfl⟩

end Start

end Linker

end BankedLinker
