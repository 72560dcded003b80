import BankedLinker.Proofs.Success
import BankedLinker.Run.Execute

/-!
# What a run writes

Follows a run through its effects on files. Loading, linking and verifying leave files alone, so a
run that changed a file has come as far as writing, and nothing is written before linking has
succeeded.

* `Run.outcome`: a run from a log and a state of the files;
* `Run.Keeps`: the files stay as they are, with one rule for each way of putting runs together;
* `Run.linked_of_changed`: files change only in runs that have loaded their inputs and linked them;
* `Run.links_iff_flawless_and_writes_linked_only`: when a run of the linker succeeds, and that
  nothing is written otherwise.
-/

namespace BankedLinker

namespace Run

variable {σ α β : Type} {log log' : Log} {s s' : σ}

/-- What a run comes to: its result, its log and the files that it leaves. -/
def outcome (x : Run (StateM σ) α) (log : Log) (s : σ) : (Except RunError α × Log) × σ :=
  StateT.run (StateT.run (ExceptT.run x) log) s

/-- A run goes on with the result of its first part, or ends with its failure. -/
theorem outcome_bind (x : Run (StateM σ) α) (k : α → Run (StateM σ) β) :
    outcome (x >>= k) log s = match outcome x log s with
      | ((.ok a, log'), s') => outcome (k a) log' s'
      | ((.error e, log'), s') => ((.error e, log'), s') := by
  unfold outcome
  rw [ExceptT.run_bind, StateT.run_bind, StateT.run_bind]
  generalize StateT.run (StateT.run (ExceptT.run x) log) s = first
  obtain ⟨⟨result, log'⟩, s'⟩ := first
  cases result with
  | ok a => rfl
  | error e => rfl

/-- The files stay as they are. -/
def Keeps (x : Run (StateM σ) α) : Prop :=
  ∀ log s, (outcome x log s).2 = s

theorem keeps_pure (a : α) : Keeps (pure a : Run (StateM σ) α) := fun _ _ => rfl

theorem keeps_throw (e : RunError) : Keeps (throw e : Run (StateM σ) α) := fun _ _ => rfl

theorem keeps_say (records : List LogRecord) : Keeps (say records : Run (StateM σ) Unit) :=
  fun _ _ => rfl

theorem keeps_bind {x : Run (StateM σ) α} {k : α → Run (StateM σ) β} (hx : Keeps x)
    (hk : ∀ a, Keeps (k a)) : Keeps (x >>= k) := by
  intro log s
  rw [outcome_bind]
  have hfirst := hx log s
  split
  · next a log' s' h =>
    rw [h] at hfirst
    rw [hk a log' s']
    exact hfirst
  · next e log' s' h =>
    rw [h] at hfirst
    exact hfirst

theorem keeps_onFiles {action : StateM σ α} (h : ∀ s, (action.run s).2 = s) :
    Keeps (onFiles action : Run (StateM σ) α) :=
  fun _ s => h s

/-- Files that change after a part that keeps them are changed by what follows it. -/
theorem changed_of_bind {x : Run (StateM σ) α} {k : α → Run (StateM σ) β} (hx : Keeps x)
    (h : (outcome (x >>= k) log s).2 ≠ s) :
    ∃ a log', outcome x log s = ((.ok a, log'), s) ∧ (outcome (k a) log' s).2 ≠ s := by
  have hfirst := hx log s
  rw [outcome_bind] at h
  split at h
  · next a log' s' hrun =>
    rw [hrun] at hfirst
    obtain rfl : s' = s := hfirst
    exact ⟨a, log', hrun, h⟩
  · next e log' s' hrun =>
    rw [hrun] at hfirst
    exact absurd hfirst h

/-! ## The parts of a run -/

section Load

variable {fs : FileSystem (StateM σ)} (hload : ∀ path s, ((fs.load path).run s).2 = s)

include hload

theorem keeps_loadFile (path : Bytes) (index : Int) : Keeps (loadFile fs path index) := by
  refine keeps_bind (keeps_onFiles (hload path)) ?_
  intro result
  cases result with
  | error e => exact keeps_throw _
  | ok entry =>
    dsimp only
    cases decodeEntry path index entry with
    | error e => exact keeps_throw _
    | ok f => exact keeps_bind (keeps_say _) fun _ => keeps_pure f

theorem keeps_loadFiles (paths : List Bytes) (index : Int) : Keeps (loadFiles fs index paths) := by
  induction paths generalizing index with
  | nil => exact keeps_pure []
  | cons path paths ih =>
    refine keeps_bind (keeps_loadFile hload path index) fun f => ?_
    exact keeps_bind (ih (index + 1)) fun others => keeps_pure (f :: others)

end Load

theorem keeps_linkFiles (settings : Settings) (files : List ObjectFile)
    (cancellation : Cancellation) :
    Keeps (linkFiles settings files cancellation : Run (StateM σ) Program) := by
  unfold linkFiles
  dsimp only
  refine keeps_bind (keeps_say _) fun _ => ?_
  split
  · exact keeps_throw _
  · exact keeps_pure _

/-- A program comes from a run of the linker that succeeded. -/
theorem link_of_linkFiles {settings : Settings} {files : List ObjectFile}
    {cancellation : Cancellation} {program : Program}
    (h : outcome (linkFiles settings files cancellation) log s = ((.ok program, log'), s')) :
    ∃ lk, (Linker.start settings.map settings.warnings files).link settings.pad cancellation 1
      = (lk, .ok program) := by
  unfold linkFiles at h
  dsimp only at h
  rw [outcome_bind] at h
  generalize hlink : (Linker.start settings.map settings.warnings files).link settings.pad
    cancellation 1 = result at h ⊢
  obtain ⟨lk, result⟩ := result
  cases result with
  | error e => cases h
  | ok program' =>
    cases h
    exact ⟨lk, rfl⟩

/-- And a run of the linker that succeeds gives its program. -/
theorem linkFiles_of_link {settings : Settings} {files : List ObjectFile}
    {cancellation : Cancellation} {lk : Linker} {program : Program}
    (h : (Linker.start settings.map settings.warnings files).link settings.pad cancellation 1
      = (lk, .ok program)) (log : Log) (s : σ) :
    outcome (linkFiles settings files cancellation) log s
      = ((.ok program, log ++ lk.diagnostics.log.toList.toArray), s) := by
  unfold linkFiles
  dsimp only
  rw [h]
  rfl

/-! ## Files that change -/

/-- The object files at the paths can be loaded from the files in their present state. -/
def Loads (fs : FileSystem (StateM σ)) (s : σ) (paths : List Bytes) (files : List ObjectFile) :
    Prop :=
  ∃ log log', outcome (loadFiles fs 0 paths) log s = ((.ok files, log'), s)

/-- If loading files does not change them, they change only in runs that have loaded all inputs and
have linked them. -/
theorem linked_of_changed {fs : FileSystem (StateM σ)}
    (hload : ∀ path s, ((fs.load path).run s).2 = s) {o : Options} {cancellation : Cancellation}
    (h : ((start fs o cancellation).run s).2 ≠ s) :
    ∃ settings files lk program, o.settings = .ok settings ∧ Loads fs s o.inputs files
      ∧ (Linker.start settings.map settings.warnings files).link settings.pad cancellation 1
        = (lk, .ok program) := by
  have hchanged : (outcome (execute fs o cancellation) #[] s).2 ≠ s := h
  unfold execute at hchanged
  cases hsettings : o.settings with
  | error e =>
    rw [hsettings] at hchanged
    exact absurd rfl hchanged
  | ok settings =>
    rw [hsettings] at hchanged
    obtain ⟨-, log₁, -, hafter⟩ := changed_of_bind (keeps_say _) hchanged
    obtain ⟨files, log₂, hfiles, hafter⟩ := changed_of_bind (keeps_loadFiles hload _ _) hafter
    dsimp only at hafter
    split at hafter
    · -- a cancelled run throws, which changes nothing
      exact absurd rfl hafter
    · obtain ⟨program, log₃, hprogram, -⟩ := changed_of_bind (keeps_linkFiles _ _ _) hafter
      obtain ⟨lk, hlk⟩ := link_of_linkFiles hprogram
      exact ⟨settings, files, lk, program, rfl, ⟨log₁, log₂, hfiles⟩, hlk⟩

/-- **When linking succeeds.** A run of the linker that is never cancelled succeeds exactly if
nothing is wrong with the files and all patches lie inside of the bytes of their sections. The
second condition is met by decoded files that are numbered apart, as loading does by their
positions, and whose sections are not larger than a word together. And whatever the options, a run
on files, which loading leaves as they are, creates or changes a file only if it has loaded its
inputs and linked them. -/
theorem links_iff_flawless_and_writes_linked_only :
    (∀ (map : MemoryMap) (warnings : WarningOptions) (pad : UInt8) (looks : ℕ)
        (files : List ObjectFile),
      (∃ lk program, (Linker.start map warnings files).link pad {} looks = (lk, .ok program))
        ↔ Linker.Flawless map warnings files
          ∧ ∀ f ∈ files, ∀ s ∈ f.sections, ∀ p ∈ s.patches,
            (Linker.start map warnings files).afterAssigning.Inside f s p)
    ∧ (∀ (map : MemoryMap) (warnings : WarningOptions) (pad : UInt8) (looks : ℕ)
        (files : List ObjectFile),
      (∀ f ∈ files, ∃ name input rest, Object.decode name f.index input = .ok (f, rest)) →
      (files.map ObjectFile.index).Nodup → totalSize (callsOf files) < 2 ^ 32 →
      ((∃ lk program, (Linker.start map warnings files).link pad {} looks = (lk, .ok program))
        ↔ Linker.Flawless map warnings files))
    ∧ ∀ (σ : Type) (fs : FileSystem (StateM σ)), (∀ path s, ((fs.load path).run s).2 = s) →
      ∀ (o : Options) (cancellation : Cancellation) (s : σ),
        ((start fs o cancellation).run s).2 ≠ s →
        ∃ settings files lk program, o.settings = .ok settings ∧ Loads fs s o.inputs files
          ∧ (Linker.start settings.map settings.warnings files).link settings.pad cancellation 1
            = (lk, .ok program) := by
  refine ⟨?_, ?_, ?_⟩
  · intro map warnings pad looks files
    exact Linker.exists_link_iff_flawless_and_inside
  · intro map warnings pad looks files hdecoded hindex htotal
    have hfiles : ∀ f ∈ files, f.WellFormed := Object.wellFormed_of_decoded hdecoded
    refine Linker.exists_link_iff_flawless_and_inside.trans ?_
    exact and_iff_left_of_imp (Linker.inside_of_flawless hfiles hindex htotal)
  · intro σ fs hload o cancellation s h
    exact linked_of_changed hload h

/-! ## A run that writes -/

/-- A file with a routine that jumps to its own start, and with an assertion that fails as a
warning. -/
def loopFile : ObjectFile :=
  { name := "l", index := 0
    symbols := [⟨"m", .exported, some ⟨none, 1⟩, some 0, 0⟩]
    sections :=
      [{ id := 0, name := "a", source := some ⟨none, 1⟩, kind := .rom0, modifier := .normal,
         size := 2, org := none, bank := none, align := 0, alignOffset := 0, data := [0x18, 0],
         patches := [⟨some ⟨none, 2⟩, 1, some 0, 0, .jump, [0x81, 0, 0, 0, 0]⟩] }]
    assertions := [⟨⟨some ⟨none, 3⟩, 0, some 0, 0, .byte, [0x80, 0, 0, 0, 0]⟩, .warning, "w"⟩] }

/-- The file in its written form. -/
def loopBytes : Bytes :=
  [0x52, 0x4C, 0x4E, 0x4B, 1, 0, 0, 0, 1, 0, 0, 0, 1, 0, 0, 0, 0, 0, 0, 0,
  -- the symbol
  0x6D, 0, 2, 0xFF, 0xFF, 0xFF, 0xFF, 1, 0, 0, 0, 0, 0, 0, 0, 0, 0, 0, 0,
  -- the section, its data and its patch
  0x61, 0, 0xFF, 0xFF, 0xFF, 0xFF, 1, 0, 0, 0, 2, 0, 0, 0, 3, 0xFF, 0xFF, 0xFF, 0xFF, 0xFF, 0xFF,
  0xFF, 0xFF, 0, 0, 0, 0, 0, 0x18, 0, 1, 0, 0, 0,
  0xFF, 0xFF, 0xFF, 0xFF, 2, 0, 0, 0, 1, 0, 0, 0, 0, 0, 0, 0, 0, 0, 0, 0, 3, 5, 0, 0, 0,
  0x81, 0, 0, 0, 0,
  -- the assertion
  1, 0, 0, 0, 0xFF, 0xFF, 0xFF, 0xFF, 3, 0, 0, 0, 0, 0, 0, 0, 0, 0, 0, 0, 0, 0, 0, 0, 0, 5, 0, 0, 0,
  0x80, 0, 0, 0, 0, 0x77, 0]

theorem decode_loopBytes : Object.decode "l" 0 loopBytes = .ok (loopFile, []) := by
  rfl

/-- A disk that holds the file. -/
def loopDisk : Disk := { files := [(.here "l", loopBytes)] }

/-- Links the file and asks for the symbol file only. -/
def loopOptions : Options := { inputs := ["l"], symbolFile := "s" }

/-- The settings of these options. -/
def loopSettings : Settings := { map := {}, warnings := {}, pad := 0xFF }

set_option maxRecDepth 4000 in
theorem exists_link_loopFile : ∃ lk program,
    (Linker.start loopSettings.map loopSettings.warnings [loopFile]).link loopSettings.pad {} 1
      = (lk, .ok program) := by
  refine Linker.exists_link_eq_ok ?_ ?_ ?_ ?_ ?_ _ _
  · unfold Linker.Clean
    cbv
  · unfold Linker.Clean
    cbv
  · cbv
  · cbv
  · unfold Linker.Clean
    cbv

/-- The run creates the symbol file. -/
theorem changed_loopDisk :
    ((start Disk.fileSystem loopOptions {}).run loopDisk).2 ≠ loopDisk := by
  obtain ⟨lk, program, hlink⟩ := exists_link_loopFile
  have hsettings : loopOptions.settings = .ok loopSettings := rfl
  have hsay : outcome (say loopOptions.introduction) #[] loopDisk
      = ((.ok (), #[] ++ loopOptions.introduction.toArray), loopDisk) := rfl
  obtain ⟨log, hload⟩ : ∃ log, outcome (loadFiles Disk.fileSystem 0 loopOptions.inputs)
      (#[] ++ loopOptions.introduction.toArray) loopDisk
        = ((.ok [loopFile], log), loopDisk) := ⟨_, rfl⟩
  have hwritten : (outcome (execute Disk.fileSystem loopOptions {}) #[] loopDisk).2
      = loopDisk.insert (.here "s") program.symbolFile.text := by
    unfold execute
    rw [hsettings]
    dsimp only
    rw [outcome_bind, hsay]
    dsimp only
    rw [outcome_bind, hload]
    dsimp only
    rw [if_neg (by decide), outcome_bind, linkFiles_of_link hlink]
    rfl
  intro hsame
  change (outcome (execute Disk.fileSystem loopOptions {}) #[] loopDisk).2 = loopDisk at hsame
  have hfind := Disk.find?_insert loopDisk (.here "s") (.here "s") program.symbolFile.text
  rw [← hwritten, hsame, if_pos rfl] at hfind
  cases hfind

/-- The file is flawless, links, and the run that writes its symbol file has linked it. -/
theorem flawless_loopFile_and_linked_loopDisk :
    (∃ lk program, (Linker.start loopSettings.map loopSettings.warnings [loopFile]).link
      loopSettings.pad {} 1 = (lk, .ok program))
    ∧ Linker.Flawless loopSettings.map loopSettings.warnings [loopFile]
    ∧ ((start Disk.fileSystem loopOptions {}).run loopDisk).2 ≠ loopDisk
    ∧ ∃ settings files lk program, loopOptions.settings = .ok settings
      ∧ Loads Disk.fileSystem loopDisk loopOptions.inputs files
      ∧ (Linker.start settings.map settings.warnings files).link settings.pad {} 1
        = (lk, .ok program) := by
  obtain ⟨-, hlinks, hwrites⟩ := links_iff_flawless_and_writes_linked_only
  have hdecoded : ∀ f ∈ [loopFile], ∃ name input rest,
      Object.decode name f.index input = .ok (f, rest) := by
    intro f hf
    obtain rfl := List.mem_singleton.mp hf
    exact ⟨_, _, _, decode_loopBytes⟩
  have hflawless := (hlinks loopSettings.map loopSettings.warnings loopSettings.pad 1 [loopFile]
    hdecoded (List.nodup_singleton _) (by decide)).mp exists_link_loopFile
  exact ⟨exists_link_loopFile, hflawless, changed_loopDisk,
    hwrites Disk Disk.fileSystem (fun _ _ => rfl) loopOptions {} loopDisk changed_loopDisk⟩

end Run

end BankedLinker
