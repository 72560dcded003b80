import BankedLinker.Proofs.Demands
import BankedLinker.Proofs.Linking

/-!
# When linking succeeds

A link run goes on after most problems, and problems come from many places: symbols, sections,
placement, patches, assertions and warnings that count as problems. This file says of each stage
when it leaves no problem, and puts the stages together: a run that is not cancelled succeeds
exactly when nothing at all is wrong.

* `Linker.foldl_addFile_spec` and `Linker.clean_assign_iff`: collecting and placing;
* `Linker.Flawless`: nothing is wrong with the files, said stage by stage;
* `Linker.exists_link_iff_flawless_and_inside`: the whole run;
* `Linker.inside_of_clean`: in decoded files patches lie inside of their sections.
-/

namespace BankedLinker

/-! ## Collecting -/

/-- The symbols of files in the order in which they are added. -/
def definitionsOf (files : List ObjectFile) : List Definition :=
  files.flatMap fun f => f.symbols.map fun symbol => { file := f, symbol }

namespace SymbolTable

/-- Adds symbols one after the other; one that is refused does not end the sequence. -/
def addAll (t : SymbolTable) (definitions : List Definition) : SymbolTable :=
  definitions.foldl (fun t d => (t.add d).1) t

/-- Whether every symbol of a sequence could be added. -/
def AllAdded (t : SymbolTable) : List Definition → Prop
  | [] => True
  | d :: rest => (t.add d).2 = none ∧ (t.add d).1.AllAdded rest

theorem allAdded_append {t : SymbolTable} {ds ds' : List Definition} :
    t.AllAdded (ds ++ ds') ↔ t.AllAdded ds ∧ (t.addAll ds).AllAdded ds' := by
  induction ds generalizing t with
  | nil => exact ⟨fun h => ⟨trivial, h⟩, fun h => h.2⟩
  | cons d ds ih =>
    show _ ∧ _ ↔ (_ ∧ _) ∧ _
    rw [and_assoc]
    exact and_congr_right fun _ => ih

end SymbolTable

theorem Registry.allMerged_append_iff {r : Registry} {calls calls' : List (ObjectFile × Section)} :
    r.AllMerged (calls ++ calls') ↔ r.AllMerged calls ∧ (r.addAll calls).AllMerged calls' := by
  induction calls generalizing r with
  | nil => exact ⟨fun h => ⟨trivial, h⟩, fun h => h.2⟩
  | cons call calls ih =>
    show _ ∧ _ ↔ (_ ∧ _) ∧ _
    rw [and_assoc]
    exact and_congr_right fun _ => ih

namespace Linker

variable {lk : Linker} {f : ObjectFile}

theorem addSymbol_spec (lk : Linker) (f : ObjectFile) (symbol : Symbol) :
    (lk.addSymbol f symbol).registry = lk.registry
      ∧ (lk.addSymbol f symbol).table = (lk.table.add ⟨f, symbol⟩).1
      ∧ ((lk.addSymbol f symbol).Clean ↔ lk.Clean ∧ (lk.table.add ⟨f, symbol⟩).2 = none) := by
  unfold addSymbol
  split
  · next table h =>
    rw [h]
    exact ⟨rfl, rfl, fun h => ⟨h, rfl⟩, fun h => h.1⟩
  · next table e h =>
    rw [h]
    exact ⟨rfl, rfl, fun h => absurd h (not_clean_report _ _), fun h => nomatch h.2⟩

theorem addSymbols_spec (lk : Linker) (f : ObjectFile) :
    (lk.addSymbols f).registry = lk.registry
      ∧ (lk.addSymbols f).table = lk.table.addAll (f.symbols.map fun symbol => ⟨f, symbol⟩)
      ∧ ((lk.addSymbols f).Clean
        ↔ lk.Clean ∧ lk.table.AllAdded (f.symbols.map fun symbol => ⟨f, symbol⟩)) := by
  unfold addSymbols
  generalize f.symbols = symbols
  induction symbols generalizing lk with
  | nil => exact ⟨rfl, rfl, fun h => ⟨h, trivial⟩, fun h => h.1⟩
  | cons symbol symbols ih =>
    obtain ⟨hregistry, htable, hclean⟩ := addSymbol_spec lk f symbol
    obtain ⟨hregistry', htable', hclean'⟩ := ih (lk.addSymbol f symbol)
    rw [htable] at htable' hclean'
    refine ⟨hregistry'.trans hregistry, htable', ?_⟩
    rw [List.foldl_cons, hclean', hclean, and_assoc]
    exact Iff.rfl

theorem addSection_spec (lk : Linker) (f : ObjectFile) (s : Section) :
    (lk.addSection f s).table = lk.table
      ∧ (lk.addSection f s).registry = (lk.registry.add f s).1
      ∧ ((lk.addSection f s).Clean ↔ lk.Clean ∧ (lk.registry.add f s).2 = none) := by
  unfold addSection
  split
  · next registry h =>
    rw [h]
    exact ⟨rfl, rfl, fun h => ⟨h, rfl⟩, fun h => h.1⟩
  · next registry conflict h =>
    rw [h]
    exact ⟨rfl, rfl, fun h => absurd h (not_clean_report _ _), fun h => nomatch h.2⟩

theorem addSections_spec (lk : Linker) (f : ObjectFile) :
    (lk.addSections f).table = lk.table
      ∧ (lk.addSections f).registry = lk.registry.addAll (f.sections.map (f, ·))
      ∧ ((lk.addSections f).Clean
        ↔ lk.Clean ∧ lk.registry.AllMerged (f.sections.map (f, ·))) := by
  unfold addSections
  generalize f.sections = sections
  induction sections generalizing lk with
  | nil => exact ⟨rfl, rfl, fun h => ⟨h, trivial⟩, fun h => h.1⟩
  | cons s sections ih =>
    obtain ⟨htable, hregistry, hclean⟩ := addSection_spec lk f s
    obtain ⟨htable', hregistry', hclean'⟩ := ih (lk.addSection f s)
    rw [hregistry] at hregistry' hclean'
    refine ⟨htable'.trans htable, hregistry', ?_⟩
    rw [List.foldl_cons, hclean', hclean, and_assoc]
    exact Iff.rfl

theorem foldl_addFile_spec (lk : Linker) (files : List ObjectFile) :
    (files.foldl addFile lk).registry = lk.registry.addAll (callsOf files)
      ∧ ((files.foldl addFile lk).Clean
        ↔ lk.Clean ∧ lk.table.AllAdded (definitionsOf files)
          ∧ lk.registry.AllMerged (callsOf files)) := by
  induction files generalizing lk with
  | nil => exact ⟨rfl, fun h => ⟨h, trivial, trivial⟩, fun h => h.1⟩
  | cons f files ih =>
    obtain ⟨hregistry, htable, hclean⟩ := addSymbols_spec lk f
    obtain ⟨htable', hregistry', hclean'⟩ := addSections_spec (lk.addSymbols f) f
    obtain ⟨hregistry'', hclean''⟩ := ih (lk.addFile f)
    rw [htable] at htable'
    rw [hregistry] at hregistry' hclean'
    have hfile : (lk.addFile f).table = _ ∧ (lk.addFile f).registry = _ := ⟨htable', hregistry'⟩
    have hfileClean : (lk.addFile f).Clean ↔ _ := hclean'.trans (and_congr_left' hclean)
    rw [hfile.1, hfile.2, hfileClean] at hclean''
    rw [hfile.2, ← Registry.addAll_append] at hregistry''
    refine ⟨hregistry'', hclean''.trans ?_⟩
    -- the symbols and the sections of the first file come first
    show _ ↔ lk.Clean ∧ lk.table.AllAdded (_ ++ definitionsOf files)
      ∧ lk.registry.AllMerged (_ ++ callsOf files)
    rw [SymbolTable.allAdded_append, Registry.allMerged_append_iff]
    constructor
    · rintro ⟨⟨⟨hlk, hadded⟩, hmerged⟩, hadded', hmerged'⟩
      exact ⟨hlk, ⟨hadded, hadded'⟩, hmerged, hmerged'⟩
    · rintro ⟨hlk, ⟨hadded, hadded'⟩, hmerged, hmerged'⟩
      exact ⟨⟨⟨hlk, hadded⟩, hmerged⟩, hadded', hmerged'⟩

/-! ## Placing -/

theorem clean_settle_iff {o : Placement.Outcome} :
    (lk.settle o).Clean ↔ lk.Clean ∧ ∃ loc, o.result = .ok loc := by
  refine ⟨settle_of_clean, ?_⟩
  rintro ⟨hclean, loc, hloc⟩
  unfold settle
  rw [hloc]
  exact hclean

theorem clean_foldl_settle_iff {outcomes : List Placement.Outcome} :
    (outcomes.foldl settle lk).Clean
      ↔ lk.Clean ∧ ∀ o ∈ outcomes, ∃ loc, o.result = .ok loc := by
  induction outcomes generalizing lk with
  | nil => simp
  | cons o outcomes ih =>
    rw [List.foldl_cons, ih, clean_settle_iff, List.forall_mem_cons, and_assoc]

theorem options_foldl_settle (outcomes : List Placement.Outcome) (lk : Linker) :
    (outcomes.foldl settle lk).diagnostics.options = lk.diagnostics.options := by
  induction outcomes generalizing lk with
  | nil => rfl
  | cons o outcomes ih =>
    rw [List.foldl_cons, ih]
    unfold settle
    split <;> rfl

theorem nodup_sections (h : lk.registry.Indexed) : lk.sections.Nodup := by
  unfold sections
  rw [List.nodup_iff_getElem?_ne_getElem?]
  intro i j hij hj heq
  rw [Array.getElem?_toList, Array.getElem?_toList] at heq
  rw [Array.length_toList] at hj
  have hm := Array.getElem?_eq_getElem hj
  have hi := h.id_eq (heq.trans hm)
  rw [h.id_eq hm] at hi
  omega

/-- Placing leaves no problem exactly when it places every merged section. -/
theorem clean_assign_iff (hindexed : lk.registry.Indexed)
    (hunplaced : ∀ m ∈ lk.sections, m.placed = false) :
    lk.assign.Clean ↔ lk.Clean ∧ ∀ m ∈ lk.assign.sections, m.placed = true := by
  refine clean_foldl_settle_iff.trans (and_congr_right fun _ => ?_)
  constructor
  · intro h m' hm'
    obtain ⟨i, hi'⟩ := Array.mem_iff_getElem?.mp (Array.mem_toList_iff.mp hm')
    obtain ⟨m, hi⟩ := exists_section_of_assigned hi'
    have hm : m ∈ lk.sections := Array.mem_toList_iff.mpr (Array.mem_of_getElem? hi)
    obtain ⟨o, ho, hsubject⟩ := Placement.exists_mem_assign lk.map hm
    obtain ⟨loc, hloc⟩ := h o ho
    obtain ⟨n, hn, hplaced⟩ :=
      exists_placed_of_mem hi ho (by rw [hsubject, hindexed.id_eq hi]) hloc
    rwa [Option.some.inj (hi'.symm.trans hn)]
  · intro h o ho
    have hm : o.subject ∈ lk.sections := Placement.subject_mem_of_mem_assign ho
    obtain ⟨i, hi⟩ := Array.mem_iff_getElem?.mp (Array.mem_toList_iff.mp hm)
    obtain hkept | ⟨before, subject, loc, after, heq, hid, -⟩ :=
      foldl_settle_cases (Placement.assign lk.map lk.sections) hi
    · -- a section without a place would have been left unplaced
      have hplaced := h o.subject (Array.mem_toList_iff.mpr (Array.mem_of_getElem? hkept))
      rw [hunplaced o.subject hm] at hplaced
      cases hplaced
    · -- the outcome that placed the section is the only one of that section
      have hplacer : (⟨subject, .ok loc⟩ : Placement.Outcome)
          ∈ Placement.assign lk.map lk.sections := by
        rw [heq]
        exact List.mem_append_right _ List.mem_cons_self
      have hmem : subject ∈ lk.sections := Placement.subject_mem_of_mem_assign hplacer
      obtain ⟨j, hj⟩ := Array.mem_iff_getElem?.mp (Array.mem_toList_iff.mp hmem)
      have hji : j = i := by rw [← hid, hindexed.id_eq hj]
      rw [hji] at hj
      have hsame : subject = o.subject := Option.some.inj (hj.symm.trans hi)
      have hnodup : ((Placement.assign lk.map lk.sections).map Placement.Outcome.subject).Nodup :=
        (Placement.subjects_assign lk.map lk.sections).nodup_iff.mpr (nodup_sections hindexed)
      have ho' := List.inj_on_of_nodup_map hnodup hplacer ho hsame
      exact ⟨loc, by rw [← ho']⟩

/-! ## The whole run -/

/-- Applying the patches and checking the assertions of the files raises the warning. -/
def Raised (lk : Linker) (files : List ObjectFile) (w : Warning) : Prop :=
  (∃ f ∈ files, ∃ s ∈ f.sections, ∃ p ∈ s.patches, w ∈ lk.cautionsOf f p)
    ∨ ∃ f ∈ files, ∃ a ∈ f.assertions, lk.RaisedBy f a w

/-- Nothing is wrong with the files: their symbols and sections can be collected in order, every
merged section finds a place, and in the state after placing all patches apply, all assertions hold
and no warning counts as a problem. -/
structure Flawless (map : MemoryMap) (warnings : WarningOptions) (files : List ObjectFile) :
    Prop where
  added : SymbolTable.AllAdded {} (definitionsOf files)
  merged : Registry.AllMerged {} (callsOf files)
  placed : ∀ m ∈ (start map warnings files).afterAssigning.sections, m.placed = true
  applies : ∀ f ∈ files, ∀ s ∈ f.sections, ∀ p ∈ s.patches,
    (start map warnings files).afterAssigning.Applies f p
  holds : ∀ f ∈ files, ∀ a ∈ f.assertions, (start map warnings files).afterAssigning.Holds f a
  unpromoted : ∀ w, (start map warnings files).afterAssigning.Raised files w → ¬warnings.Promotes w

theorem finishStage_of_not_clean {cancellation : Cancellation} {looks : ℕ} {stage : Stage}
    (h : ¬lk.Clean) : lk.finishStage cancellation looks stage
      = .error (.problems stage lk.diagnostics.problems.toList) :=
  if_pos h

/-- A run that is not cancelled succeeds exactly if its stages do. -/
theorem exists_link_iff_stages {pad : UInt8} {looks : ℕ} :
    (∃ lk' program, lk.link pad {} looks = (lk', .ok program))
      ↔ (lk.files.foldl addFile lk).Clean ∧ lk.afterMerging.noteUnresolved.assign.Clean
        ∧ lk.patchRun.2 = .ok () ∧ Succeeds lk.checkRun := by
  constructor
  · rintro ⟨lk', program, h⟩
    unfold link at h
    dsimp only at h
    by_cases hmerged : (lk.files.foldl addFile lk).Clean
    · rw [finishStage_of_clean hmerged] at h
      change lk.afterMerging.assignStage pad {} looks = _ at h
      unfold assignStage at h
      dsimp only at h
      by_cases hassigned : lk.afterMerging.noteUnresolved.assign.Clean
      · rw [finishStage_of_clean hassigned] at h
        change lk.afterAssigning.patchStage pad {} looks = _ at h
        unfold patchStage at h
        dsimp only at h
        split at h
        · cases h
        next patched hpatched =>
        split at h
        · cases h
        next checked hchecked =>
        by_cases hclean : checked.Clean
        · have hpatchRun : lk.patchRun = (patched, .ok ()) := hpatched
          have hcheckRun : lk.checkRun = (checked, .ok ()) := by
            unfold checkRun
            rw [hpatchRun]
            exact hchecked
          refine ⟨hmerged, hassigned, by rw [hpatchRun], ?_⟩
          rw [hcheckRun, succeeds_ok_iff]
          exact hclean
        · rw [finishStage_of_not_clean hclean] at h
          cases h
      · rw [finishStage_of_not_clean hassigned] at h
        cases h
    · rw [finishStage_of_not_clean hmerged] at h
      cases h
  · rintro ⟨hmerged, hassigned, hpatched, ⟨_, hchecked⟩, hclean⟩
    exact exists_link_eq_ok hmerged hassigned hpatched hchecked hclean pad looks

theorem noteUnresolved_spec (lk : Linker) :
    SameView lk lk.noteUnresolved ∧ (lk.noteUnresolved.Clean ↔ lk.Clean) := by
  unfold noteUnresolved
  generalize lk.table.unresolved = names
  induction names generalizing lk with
  | nil => exact ⟨.refl lk, Iff.rfl⟩
  | cons name names ih =>
    obtain ⟨hview, hclean⟩ := ih (lk.debug _ _)
    exact ⟨(sameView_debug ..).trans hview, hclean⟩

/-- Patches and assertions leave no problem exactly if each of them meets its demand. -/
theorem succeeds_after_assigning_iff :
    lk.patchRun.2 = .ok () ∧ Succeeds lk.checkRun
      ↔ lk.afterAssigning.Clean
        ∧ (∀ f ∈ lk.afterAssigning.files, ∀ s ∈ f.sections, ∀ p ∈ s.patches,
          lk.afterAssigning.PatchDemand f s p)
        ∧ ∀ f ∈ lk.afterAssigning.files, ∀ a ∈ f.assertions,
          lk.afterAssigning.AssertionDemand f a := by
  obtain ⟨hview, hpatch⟩ := demands_forFiles (demands_applyFile lk.afterAssigning)
    lk.afterAssigning.files lk.afterAssigning (.refl _)
  obtain ⟨-, hcheck⟩ :=
    demands_forFiles (fun f => demands_checkEach lk.afterAssigning f f.assertions)
      lk.afterAssigning.files lk.patchRun.1 hview
  have hcheck' : Succeeds lk.checkRun ↔ _ := hcheck
  have hpatch' : Succeeds lk.patchRun ↔ _ := hpatch
  rw [hcheck', ← and_assoc, ← and_assoc, ← hpatch']
  refine and_congr_left' ?_
  exact ⟨fun h => ⟨⟨(), h.1⟩, h.2⟩, fun h => ⟨h.1.choose_spec, h.2⟩⟩

/-- The record of a finished stage changes nothing else. -/
theorem afterAssigning_spec (lk : Linker) :
    lk.afterAssigning.registry = lk.afterMerging.noteUnresolved.assign.registry
      ∧ lk.afterAssigning.files = lk.afterMerging.noteUnresolved.assign.files
      ∧ lk.afterAssigning.diagnostics.options
        = lk.afterMerging.noteUnresolved.assign.diagnostics.options
      ∧ (lk.afterAssigning.Clean ↔ lk.afterMerging.noteUnresolved.assign.Clean) := by
  unfold afterAssigning
  generalize lk.afterMerging.noteUnresolved.assign = assigned
  exact ⟨rfl, rfl, rfl, Iff.rfl⟩

section Start

variable {map : MemoryMap} {warnings : WarningOptions} {files : List ObjectFile}

theorem clean_merged_iff :
    (files.foldl addFile (start map warnings files)).Clean
      ↔ SymbolTable.AllAdded {} (definitionsOf files) ∧ Registry.AllMerged {} (callsOf files) :=
  (foldl_addFile_spec _ files).2.trans (and_iff_right rfl)

/-- What placing starts from if collecting left no problem. -/
theorem unresolved_of_clean (h : (files.foldl addFile (start map warnings files)).Clean) :
    (start map warnings files).afterMerging.noteUnresolved.registry
        = Registry.addAll {} (callsOf files)
      ∧ (start map warnings files).afterMerging.noteUnresolved.map = map
      ∧ (start map warnings files).afterMerging.noteUnresolved.files = files
      ∧ (start map warnings files).afterMerging.noteUnresolved.diagnostics.options = warnings
      ∧ (start map warnings files).afterMerging.noteUnresolved.Clean := by
  obtain ⟨-, -, table, heq⟩ := merged_of_clean h
  have hmerged : (start map warnings files).afterMerging
      = (files.foldl addFile (start map warnings files)).debug _ _ := rfl
  obtain ⟨hview, hclean⟩ := noteUnresolved_spec (start map warnings files).afterMerging
  obtain ⟨⟨d, hnoted⟩, -⟩ := noted_noteUnresolved (start map warnings files).afterMerging
  refine ⟨?_, ?_, ?_, ?_, hclean.mpr h⟩
  · rw [hnoted, hmerged, heq]
    rfl
  · rw [hnoted, hmerged, heq]
    rfl
  · rw [hnoted, hmerged, heq]
    rfl
  · rw [hview.options_eq, hmerged, heq]
    rfl

/-- Placing leaves no problem exactly if all merged sections are placed. -/
theorem clean_assigned_iff (h : (files.foldl addFile (start map warnings files)).Clean) :
    (start map warnings files).afterMerging.noteUnresolved.assign.Clean
      ↔ ∀ m ∈ (start map warnings files).afterAssigning.sections, m.placed = true := by
  obtain ⟨hregistry, -, -, -, hclean⟩ := unresolved_of_clean h
  have hassign := (afterAssigning_spec (start map warnings files)).1
  unfold sections
  rw [hassign]
  refine (clean_assign_iff ?_ ?_).trans (and_iff_right hclean)
  · rw [hregistry]
    exact Registry.indexed_addAll Registry.indexed_empty _
  · intro m hm
    unfold sections at hm
    rw [hregistry, Array.mem_toList_iff] at hm
    exact Registry.placed_addAll _ m hm

theorem afterAssigning_of_clean (h : (files.foldl addFile (start map warnings files)).Clean) :
    (start map warnings files).afterAssigning.files = files
      ∧ (start map warnings files).afterAssigning.diagnostics.options = warnings := by
  obtain ⟨-, -, hfiles, hoptions, -⟩ := unresolved_of_clean h
  obtain ⟨-, hfiles', hoptions', -⟩ := afterAssigning_spec (start map warnings files)
  refine ⟨hfiles'.trans ?_, hoptions'.trans ?_⟩
  · exact (foldl_settle_frame _ _).2.1.trans hfiles
  · exact (options_foldl_settle _ _).trans hoptions

theorem Flawless.clean_merged (h : Flawless map warnings files) :
    (files.foldl addFile (start map warnings files)).Clean :=
  clean_merged_iff.mpr ⟨h.added, h.merged⟩

theorem Flawless.clean_assigned (h : Flawless map warnings files) :
    (start map warnings files).afterMerging.noteUnresolved.assign.Clean :=
  (clean_assigned_iff h.clean_merged).mpr h.placed

/-- A run that is not cancelled succeeds exactly if nothing is wrong with the files and all patches
lie inside of their sections. -/
theorem exists_link_iff_flawless_and_inside {pad : UInt8} {looks : ℕ} :
    (∃ lk program, (start map warnings files).link pad {} looks = (lk, .ok program))
      ↔ Flawless map warnings files ∧ ∀ f ∈ files, ∀ s ∈ f.sections, ∀ p ∈ s.patches,
        (start map warnings files).afterAssigning.Inside f s p := by
  refine exists_link_iff_stages.trans ?_
  rw [succeeds_after_assigning_iff]
  show (files.foldl addFile (start map warnings files)).Clean ∧ _ ↔ _
  constructor
  · rintro ⟨hmerged, hassigned, -, hpatches, hassertions⟩
    obtain ⟨hfiles, hoptions⟩ := afterAssigning_of_clean hmerged
    obtain ⟨hadded, hall⟩ := clean_merged_iff.mp hmerged
    rw [hfiles] at hpatches hassertions
    unfold PatchDemand AssertionDemand at *
    rw [hoptions] at hpatches hassertions
    refine ⟨⟨hadded, hall, (clean_assigned_iff hmerged).mp hassigned, ?_, ?_, ?_⟩, ?_⟩
    · exact fun f hf s hs p hp => (hpatches f hf s hs p hp).1.1
    · exact fun f hf a ha => (hassertions f hf a ha).1
    · rintro w (⟨f, hf, s, hs, p, hp, hw⟩ | ⟨f, hf, a, ha, hw⟩)
      · exact (hpatches f hf s hs p hp).2 w hw
      · exact (hassertions f hf a ha).2 w hw
    · exact fun f hf s hs p hp => (hpatches f hf s hs p hp).1.2
  · rintro ⟨hflawless, hinside⟩
    obtain ⟨hfiles, hoptions⟩ := afterAssigning_of_clean hflawless.clean_merged
    unfold PatchDemand AssertionDemand
    rw [hfiles, hoptions]
    have hclean := (afterAssigning_spec (start map warnings files)).2.2.2.mpr hflawless.clean_assigned
    refine ⟨hflawless.clean_merged, hflawless.clean_assigned, hclean, ?_, ?_⟩
    · intro f hf s hs p hp
      refine ⟨⟨hflawless.applies f hf s hs p hp, hinside f hf s hs p hp⟩, ?_⟩
      exact fun w hw => hflawless.unpromoted w (Or.inl ⟨f, hf, s, hs, p, hp, hw⟩)
    · intro f hf a ha
      refine ⟨hflawless.holds f hf a ha, ?_⟩
      exact fun w hw => hflawless.unpromoted w (Or.inr ⟨f, hf, a, ha, hw⟩)

/-- In decoded files all patches lie inside of their sections, and they still do when the sections
are merged and placed. -/
theorem inside_of_clean (hfiles : ∀ f ∈ files, f.WellFormed)
    (hindex : (files.map ObjectFile.index).Nodup) (htotal : totalSize (callsOf files) < 2 ^ 32)
    (hmerged : (files.foldl addFile (start map warnings files)).Clean)
    (hassigned : (start map warnings files).afterMerging.noteUnresolved.assign.Clean) :
    ∀ f ∈ files, ∀ s ∈ f.sections, ∀ p ∈ s.patches,
      (start map warnings files).afterAssigning.Inside f s p := by
  intro f hf s hs p hp
  have hcall := mem_callsOf.mpr ⟨hf, hs⟩
  have hwell : ∀ call ∈ callsOf files, call.2.WellFormed := by
    rintro ⟨g, t⟩ hcall
    obtain ⟨hg, ht⟩ := mem_callsOf.mp hcall
    exact (hfiles g hg).wellFormed t ht
  obtain ⟨hregistry, -, -, -, -⟩ := unresolved_of_clean hmerged
  have hkeys := nodup_callKeys hfiles hindex
  have hcollected : (start map warnings files).afterMerging.noteUnresolved.registry.Collected
      (callsOf files) := by
    rw [hregistry]
    exact Registry.collected_addAll (clean_merged_iff.mp hmerged).2 hwell hkeys htotal
  have hassignable := assignable_of_addAll hregistry fun call hcall => (hwell call hcall).align_le
  have hhouses := Registry.houses_of_collected hcollected hkeys
    (places_of_clean hassignable hassigned)
  -- the section has a window of its own size in the merged bytes
  obtain ⟨i, m, x, hw⟩ := hhouses.window f s hcall
  obtain ⟨-, hdata, hle⟩ := jobsInside_jobsOf hwell f s p
    (List.mem_flatMap.mpr ⟨(f, s), hcall, List.mem_map_of_mem hp⟩)
  have hcount : (start map warnings files).afterAssigning.registry.byteCount f s
      = s.size.toNat := by
    unfold Registry.byteCount
    rw [(afterAssigning_spec _).1, hw.member?_eq]
    dsimp only
    rw [if_pos hdata, hw.content_eq]
  unfold Inside
  rw [hcount]
  exact hle

theorem inside_of_flawless (hfiles : ∀ f ∈ files, f.WellFormed)
    (hindex : (files.map ObjectFile.index).Nodup) (htotal : totalSize (callsOf files) < 2 ^ 32)
    (h : Flawless map warnings files) :
    ∀ f ∈ files, ∀ s ∈ f.sections, ∀ p ∈ s.patches,
      (start map warnings files).afterAssigning.Inside f s p :=
  inside_of_clean hfiles hindex htotal h.clean_merged h.clean_assigned

end Start

end Linker

end BankedLinker
