import BankedLinker.Linker.Link
import BankedLinker.Proofs.Assignment
import BankedLinker.Proofs.Tiling

/-!
# Runs without problems

A stage goes on after a problem, and the run ends with the stage. So a run that succeeds has
recorded no problem, and every step of it did what it was meant to do.

* `Linker.Clean`: no problem was recorded so far;
* `Linker.merged_of_clean`: after collecting without a problem, every section was merged;
* `Linker.placed_of_clean`: after placing without a problem, every merged section is placed;
* `Linker.link_eq_ok` takes a successful run apart;
* `Linker.exists_link_eq_ok`: a run whose stages record no problem succeeds.
-/

namespace BankedLinker

/-- The sections of files in the order in which they are merged. -/
def callsOf (files : List ObjectFile) : List (ObjectFile × Section) :=
  files.flatMap fun f => f.sections.map (f, ·)

theorem mem_callsOf {files : List ObjectFile} {f : ObjectFile} {s : Section} :
    (f, s) ∈ callsOf files ↔ f ∈ files ∧ s ∈ f.sections := by
  unfold callsOf
  simp only [List.mem_flatMap, List.mem_map, Prod.mk.injEq]
  constructor
  · rintro ⟨g, hg, t, ht, rfl, rfl⟩
    exact ⟨hg, ht⟩
  · rintro ⟨hf, hs⟩
    exact ⟨f, hf, s, hs, rfl, rfl⟩

namespace Registry

theorem addAll_append (r : Registry) (calls calls' : List (ObjectFile × Section)) :
    r.addAll (calls ++ calls') = (r.addAll calls).addAll calls' :=
  List.foldl_append

theorem allMerged_append {r : Registry} {calls calls' : List (ObjectFile × Section)}
    (h : r.AllMerged calls) (h' : (r.addAll calls).AllMerged calls') :
    r.AllMerged (calls ++ calls') := by
  induction calls generalizing r with
  | nil => exact h'
  | cons call calls ih => exact ⟨h.1, ih h.2 h'⟩

end Registry

namespace Linker

variable {lk lk' : Linker} {f : ObjectFile} {s : Section}

/-- No problem was recorded so far. -/
def Clean (lk : Linker) : Prop :=
  lk.diagnostics.problemCount = 0

theorem not_clean_report (lk : Linker) (p : Problem) : ¬(lk.report p).Clean := by
  unfold Clean report Diagnostics.report Diagnostics.note Diagnostics.problemCount
  simp

theorem clean_of_clean_foldl {α : Type} {step : Linker → α → Linker}
    (hstep : ∀ lk a, (step lk a).Clean → lk.Clean) {items : List α}
    (h : (items.foldl step lk).Clean) : lk.Clean := by
  induction items generalizing lk with
  | nil => exact h
  | cons a items ih => exact hstep lk a (ih h)

/-! ## Collecting -/

theorem addSymbol_of_clean {symbol : Symbol} (h : (lk.addSymbol f symbol).Clean) :
    lk.Clean ∧ ∃ table, lk.addSymbol f symbol = { lk with table } := by
  unfold addSymbol at h ⊢
  split at h
  · next table heq => exact ⟨h, table, rfl⟩
  · exact absurd h (not_clean_report _ _)

theorem addSymbols_of_clean (h : (lk.addSymbols f).Clean) :
    lk.Clean ∧ ∃ table, lk.addSymbols f = { lk with table } := by
  -- the induction is over the symbols, apart from the file that they belong to
  suffices hrun : ∀ (symbols : List Symbol) (lk : Linker),
      (symbols.foldl (fun lk symbol => lk.addSymbol f symbol) lk).Clean →
      lk.Clean ∧ ∃ table,
        symbols.foldl (fun lk symbol => lk.addSymbol f symbol) lk = { lk with table } from
    hrun f.symbols lk h
  intro symbols
  induction symbols with
  | nil =>
    intro lk h
    exact ⟨h, lk.table, rfl⟩
  | cons symbol symbols ih =>
    intro lk h
    obtain ⟨hclean, table, heq⟩ := ih (lk.addSymbol f symbol) h
    obtain ⟨hclean', table', heq'⟩ := addSymbol_of_clean hclean
    refine ⟨hclean', table, ?_⟩
    rw [List.foldl_cons, heq, heq']

theorem addSection_of_clean (h : (lk.addSection f s).Clean) :
    lk.Clean ∧ (lk.registry.add f s).2 = none
      ∧ lk.addSection f s = { lk with registry := (lk.registry.add f s).1 } := by
  unfold addSection at h ⊢
  split at h
  · next registry heq =>
    rw [heq]
    exact ⟨h, rfl, rfl⟩
  · exact absurd h (not_clean_report _ _)

theorem addSections_of_clean (h : (lk.addSections f).Clean) :
    lk.Clean ∧ lk.registry.AllMerged (f.sections.map (f, ·))
      ∧ lk.addSections f = { lk with registry := lk.registry.addAll (f.sections.map (f, ·)) } := by
  suffices hrun : ∀ (sections : List Section) (lk : Linker),
      (sections.foldl (fun lk s => lk.addSection f s) lk).Clean →
      lk.Clean ∧ lk.registry.AllMerged (sections.map (f, ·))
        ∧ sections.foldl (fun lk s => lk.addSection f s) lk
          = { lk with registry := lk.registry.addAll (sections.map (f, ·)) } from
    hrun f.sections lk h
  intro sections
  induction sections with
  | nil =>
    intro lk h
    exact ⟨h, trivial, rfl⟩
  | cons s sections ih =>
    intro lk h
    obtain ⟨hclean, hmerged, heq⟩ := ih (lk.addSection f s) h
    obtain ⟨hclean', hadd, heq'⟩ := addSection_of_clean hclean
    rw [heq'] at hmerged heq
    refine ⟨hclean', ⟨hadd, hmerged⟩, ?_⟩
    rw [List.foldl_cons, heq', heq]
    rfl

/-- After collecting without a problem every section was merged. -/
theorem merged_of_clean {files : List ObjectFile} (h : (files.foldl addFile lk).Clean) :
    lk.Clean ∧ lk.registry.AllMerged (callsOf files)
      ∧ ∃ table, files.foldl addFile lk
        = { lk with table, registry := lk.registry.addAll (callsOf files) } := by
  induction files generalizing lk with
  | nil => exact ⟨h, trivial, lk.table, rfl⟩
  | cons f files ih =>
    -- backwards: a clean end means a clean state after the first file, and before it
    obtain ⟨hclean, hrest, table, heq⟩ := ih h
    obtain ⟨hclean', hmerged, heq'⟩ := addSections_of_clean hclean
    obtain ⟨hclean'', table', heq''⟩ := addSymbols_of_clean hclean'
    have hfile : lk.addFile f = { lk with
        table := table', registry := lk.registry.addAll (f.sections.map (f, ·)) } := by
      rw [addFile, heq', heq'']
    rw [heq''] at hmerged
    rw [hfile] at hrest heq
    refine ⟨hclean'', Registry.allMerged_append hmerged hrest, table, ?_⟩
    rw [List.foldl_cons, hfile, heq]
    show _ = { lk with table, registry := lk.registry.addAll (_ ++ callsOf files) }
    rw [Registry.addAll_append]

/-! ## Placing -/

theorem settle_of_clean {o : Placement.Outcome} (h : (lk.settle o).Clean) :
    lk.Clean ∧ ∃ loc, o.result = .ok loc := by
  unfold settle at h
  split at h
  · exact absurd h (not_clean_report _ _)
  · next loc hloc => exact ⟨h, loc, hloc⟩

/-- After a clean sequence every outcome has found a place. -/
theorem ok_of_clean_foldl_settle {outcomes : List Placement.Outcome}
    (h : (outcomes.foldl settle lk).Clean) : ∀ o ∈ outcomes, ∃ loc, o.result = .ok loc := by
  induction outcomes generalizing lk with
  | nil => exact fun o ho => absurd ho List.not_mem_nil
  | cons o rest ih =>
    have hclean : (lk.settle o).Clean :=
      clean_of_clean_foldl (fun lk a h => (settle_of_clean h).1) h
    intro o' ho'
    rcases List.mem_cons.mp ho' with rfl | ho'
    · exact (settle_of_clean hclean).2
    · exact ih h o' ho'

/-- Placing changes neither the memory map, nor the files, nor the symbols, nor the names. -/
theorem foldl_settle_frame (outcomes : List Placement.Outcome) (lk : Linker) :
    (outcomes.foldl settle lk).map = lk.map ∧ (outcomes.foldl settle lk).files = lk.files
      ∧ (outcomes.foldl settle lk).table = lk.table
      ∧ (outcomes.foldl settle lk).registry.positions = lk.registry.positions := by
  induction outcomes generalizing lk with
  | nil => exact ⟨rfl, rfl, rfl, rfl⟩
  | cons o rest ih =>
    have hstep : (lk.settle o).map = lk.map ∧ (lk.settle o).files = lk.files
        ∧ (lk.settle o).table = lk.table
        ∧ (lk.settle o).registry.positions = lk.registry.positions := by
      unfold settle
      split <;> exact ⟨rfl, rfl, rfl, rfl⟩
    obtain ⟨hmap, hfiles, htable, hpositions⟩ := ih (lk.settle o)
    rw [List.foldl_cons, hmap, hfiles, htable, hpositions]
    exact hstep

/-- A merged section that an outcome placed is placed in the end. -/
theorem exists_placed_of_mem {outcomes : List Placement.Outcome} {i : ℕ} {m : Merged}
    (hm : lk.registry.sections[i]? = some m) {o : Placement.Outcome} (ho : o ∈ outcomes)
    (hid : o.subject.id = i) {loc : Location} (hok : o.result = .ok loc) :
    ∃ m', (outcomes.foldl settle lk).registry.sections[i]? = some m' ∧ m'.placed = true := by
  obtain ⟨before, after, rfl⟩ := List.append_of_mem ho
  rw [List.foldl_append, List.foldl_cons]
  -- whatever happens before, the section is still there
  obtain ⟨n, hn⟩ : ∃ n, (before.foldl settle lk).registry.sections[i]? = some n := by
    obtain h | ⟨_, _, _, _, -, -, h⟩ := foldl_settle_cases before hm
    · exact ⟨_, h⟩
    · exact ⟨_, h⟩
  -- the outcome places it, and nothing removes it from its place
  have hplaced := sections_settle (before.foldl settle lk) o i
  simp only [hok, hid, if_true, hn, Option.map_some] at hplaced
  obtain h | ⟨_, _, _, _, -, -, h⟩ := foldl_settle_cases after hplaced
  · exact ⟨_, h, rfl⟩
  · exact ⟨_, h, rfl⟩

/-- After placing without a problem every merged section is placed, by an outcome of its own. -/
theorem placed_of_clean (hlk : lk.Assignable) (h : lk.assign.Clean) {i : ℕ} {m : Merged}
    (hm : lk.registry.sections[i]? = some m) :
    ∃ before loc, lk.assign.registry.sections[i]? = some (m.place loc.org loc.bank)
      ∧ Placement.Settled lk.map before m loc := by
  have hmem : m ∈ lk.sections := Array.mem_toList_iff.mpr (Array.mem_of_getElem? hm)
  obtain ⟨o, ho, hsubject⟩ := Placement.exists_mem_assign lk.map hmem
  -- its outcome is no problem, since none was recorded
  obtain ⟨loc, hloc⟩ := ok_of_clean_foldl_settle h o ho
  have hid : o.subject.id = i := by rw [hsubject, hlk.indexed.id_eq hm]
  obtain ⟨m', hm', hplaced⟩ := exists_placed_of_mem hm ho hid hloc
  obtain ⟨before, loc, -, -, rfl, hsettled⟩ :=
    exists_outcome_of_placed hlk (fun _ h => h) hm hm' hplaced
  exact ⟨before, loc, hm', hsettled⟩

/-! ## From stage to stage -/

/-- The second linker differs from the first one by its diagnostics only, and what the first one
recorded is still there. -/
def Noted (lk lk' : Linker) : Prop :=
  (∃ diagnostics, lk' = { lk with diagnostics }) ∧ (lk'.Clean → lk.Clean)

theorem Noted.refl (lk : Linker) : lk.Noted lk :=
  ⟨⟨lk.diagnostics, rfl⟩, fun h => h⟩

theorem Noted.trans {lk₁ lk₂ lk₃ : Linker} (h : lk₁.Noted lk₂) (h' : lk₂.Noted lk₃) :
    lk₁.Noted lk₃ := by
  obtain ⟨⟨d, rfl⟩, hclean⟩ := h
  obtain ⟨⟨d', rfl⟩, hclean'⟩ := h'
  exact ⟨⟨d', rfl⟩, fun h => hclean (hclean' h)⟩

theorem noted_debug (lk : Linker) (message : Bytes) (attributes : List Attribute) :
    lk.Noted (lk.debug message attributes) :=
  ⟨⟨_, rfl⟩, fun h => h⟩

theorem noted_report (lk : Linker) (p : Problem) : lk.Noted (lk.report p) :=
  ⟨⟨_, rfl⟩, fun h => absurd h (not_clean_report lk p)⟩

theorem noted_noteUnresolved (lk : Linker) : lk.Noted lk.noteUnresolved := by
  unfold noteUnresolved
  generalize lk.table.unresolved = names
  induction names generalizing lk with
  | nil => exact .refl lk
  | cons name names ih => exact (noted_debug lk _ _).trans (ih _)

theorem finishStage_eq_ok {cancellation : Cancellation} {looks : ℕ} {stage : Stage}
    (h : lk.finishStage cancellation looks stage = .ok lk') : lk.Clean ∧ lk.Noted lk' := by
  unfold finishStage at h
  split at h
  · cases h
  next hcount =>
  split at h
  · cases h
  · cases h
    exact ⟨not_not.mp hcount, noted_debug ..⟩

/-- A successful run, stage by stage. -/
theorem link_eq_ok {pad : UInt8} {cancellation : Cancellation} {looks : ℕ} {program : Program}
    (h : lk.link pad cancellation looks = (lk', .ok program)) :
    ∃ collected placed patched checked : Linker,
      (lk.files.foldl addFile lk).Clean ∧ (lk.files.foldl addFile lk).Noted collected
      ∧ collected.assign.Clean ∧ collected.assign.Noted placed
      ∧ placed.forFiles applyFile placed.files = (patched, .ok ())
      ∧ patched.forFiles checkAssertions placed.files = (checked, .ok ())
      ∧ checked.Clean ∧ checked.Noted lk' ∧ program.sections = checked.sections
      ∧ program.image = Rom.image checked.map pad checked.sections := by
  unfold link at h
  dsimp only at h
  split at h
  · cases h
  next first hfirst =>
  obtain ⟨hclean, hnoted⟩ := finishStage_eq_ok hfirst
  unfold assignStage at h
  dsimp only at h
  split at h
  · cases h
  next second hsecond =>
  obtain ⟨hclean', hnoted'⟩ := finishStage_eq_ok hsecond
  unfold patchStage at h
  dsimp only at h
  split at h
  · cases h
  next patched hpatched =>
  split at h
  · cases h
  next checked hchecked =>
  split at h
  · cases h
  next third hthird =>
  obtain ⟨hclean'', hnoted''⟩ := finishStage_eq_ok hthird
  obtain ⟨⟨d, rfl⟩, -⟩ := hnoted''
  cases h
  exact ⟨_, second, patched, checked, hclean, hnoted.trans (noted_noteUnresolved first), hclean',
    hnoted', hpatched, hchecked, hclean'', ⟨⟨_, rfl⟩, fun _ => hclean''⟩, rfl, rfl⟩

/-! ## Runs that succeed -/

/-- The linker after the first stage, if nothing stops the run there. -/
def afterMerging (lk : Linker) : Linker :=
  (lk.files.foldl addFile lk).debug "Stage completed" [.text "stage" Stage.merging.name]

/-- The linker after the second stage, if nothing stops the run there. -/
def afterAssigning (lk : Linker) : Linker :=
  lk.afterMerging.noteUnresolved.assign.debug "Stage completed"
    [.text "stage" Stage.assigning.name]

/-- Applying all patches after the second stage. -/
def patchRun (lk : Linker) : Linker × Except Problem Unit :=
  lk.afterAssigning.forFiles applyFile lk.afterAssigning.files

/-- Checking all assertions after the patches. -/
def checkRun (lk : Linker) : Linker × Except Problem Unit :=
  lk.patchRun.1.forFiles checkAssertions lk.afterAssigning.files

theorem finishStage_of_clean {looks : ℕ} {stage : Stage} (h : lk.Clean) :
    lk.finishStage {} looks stage
      = .ok (lk.debug "Stage completed" [.text "stage" stage.name]) := by
  have hcount : ¬lk.diagnostics.problemCount ≠ 0 := not_not.mpr h
  have hcancelled : ¬(({} : Cancellation).showsAt (looks + stage.index) = true) := by
    simp [Cancellation.showsAt]
  unfold finishStage
  rw [if_neg hcount, if_neg hcancelled]

/-- A run that is not cancelled and whose stages record no problem succeeds. -/
theorem exists_link_eq_ok (hmerged : (lk.files.foldl addFile lk).Clean)
    (hassigned : lk.afterMerging.noteUnresolved.assign.Clean) (hpatched : lk.patchRun.2 = .ok ())
    (hchecked : lk.checkRun.2 = .ok ()) (hclean : lk.checkRun.1.Clean) (pad : UInt8) (looks : ℕ) :
    ∃ lk' program, lk.link pad {} looks = (lk', .ok program) := by
  have hpatch : lk.afterAssigning.forFiles applyFile lk.afterAssigning.files
      = (lk.patchRun.1, .ok ()) := Prod.ext rfl hpatched
  have hcheck : lk.patchRun.1.forFiles checkAssertions lk.afterAssigning.files
      = (lk.checkRun.1, .ok ()) := Prod.ext rfl hchecked
  unfold link
  dsimp only
  rw [finishStage_of_clean hmerged]
  show ∃ lk' program, lk.afterMerging.assignStage pad {} looks = (lk', .ok program)
  unfold assignStage
  dsimp only
  rw [finishStage_of_clean hassigned]
  show ∃ lk' program, lk.afterAssigning.patchStage pad {} looks = (lk', .ok program)
  unfold patchStage
  dsimp only
  rw [hpatch]
  dsimp only
  rw [hcheck]
  dsimp only
  rw [finishStage_of_clean hclean]
  exact ⟨_, _, rfl⟩

end Linker

end BankedLinker
