import BankedLinker.Proofs.Success

/-!
# What the symbol table holds

Collecting adds the symbols of all files in order. An exported name can be added once, so that all
symbols can be added exactly if no name is exported twice; which symbol a name stands for and which
labels there are is then a matter of the symbols alone, not of their order.

* `Definition.exports` and `Definition.isKept`: what is exported, what is a label;
* `SymbolTable.find?_addAll`: the first export of a name stands;
* `SymbolTable.allAdded_iff`: when all symbols can be added;
* `SymbolTable.labels_addAll`: the labels of symbols that could all be added;
* `SymbolTable.allAdded_perm` and `SymbolTable.find?_addAll_perm`: the order does not matter.
-/

namespace BankedLinker

/-- The symbol is visible everywhere under the name. -/
def Definition.exports (d : Definition) (name : Bytes) : Bool :=
  d.symbol.kind = .exported && d.symbol.name = name

/-- The symbol is a label that its file defines. -/
def Definition.isKept (d : Definition) : Bool :=
  d.symbol.kind ≠ .imported && d.symbol.isLabel

/-- The exported names in the order in which they are added. -/
def exportedNames (definitions : List Definition) : List Bytes :=
  (definitions.filter fun d => d.symbol.kind = .exported).map fun d => d.symbol.name

namespace SymbolTable

variable {t : SymbolTable} {d : Definition} {definitions : List Definition} {name : Bytes}

@[simp] theorem find?_noteImport (t : SymbolTable) (imported name : Bytes) :
    (t.noteImport imported).find? name = t.find? name := by
  unfold noteImport
  split <;> rfl

@[simp] theorem labels_noteImport (t : SymbolTable) (imported : Bytes) :
    (t.noteImport imported).labels = t.labels := by
  unfold noteImport
  split <;> rfl

@[simp] theorem find?_noteLabel (t : SymbolTable) (d : Definition) (name : Bytes) :
    (t.noteLabel d).find? name = t.find? name := by
  unfold noteLabel
  split <;> rfl

theorem labels_noteLabel (t : SymbolTable) (d : Definition) :
    (t.noteLabel d).labels.toList
      = t.labels.toList ++ if d.symbol.isLabel = true then [d] else [] := by
  unfold noteLabel
  split <;> simp

/-! ## One symbol -/

/-- A symbol is refused if its name is exported already. -/
theorem add_eq_none_iff :
    (t.add d).2 = none ↔ (d.symbol.kind = .exported → t.find? d.symbol.name = none) := by
  unfold add
  split
  · next himported => simp [himported, SymbolKind.imported, SymbolKind.exported]
  split
  · next hexported =>
    cases t.find? d.symbol.name <;> simp [hexported]
  · next hexported => simp [hexported]

/-- The first export of a name stands. -/
theorem find?_add :
    (t.add d).1.find? name
      = (t.find? name).or (if d.exports name = true then some d else none) := by
  unfold add Definition.exports
  split
  · next himported => simp [himported, SymbolKind.imported, SymbolKind.exported]
  split
  · next hexported =>
    cases hfind : t.find? d.symbol.name with
    | some first =>
      by_cases hname : d.symbol.name = name
      · simp [← hname, hfind]
      · simp [hname]
    | none =>
      by_cases hname : d.symbol.name = name
      · subst hname
        rw [find?_noteLabel, hfind]
        simp [find?, hexported]
      · rw [find?_noteLabel]
        simp [find?, hname, Std.HashMap.getElem?_insert]
  · next hexported => simp [hexported]

/-- A symbol that is not refused is kept if it is a label. -/
theorem labels_add (h : (t.add d).2 = none) :
    (t.add d).1.labels.toList = t.labels.toList ++ if d.isKept = true then [d] else [] := by
  unfold add at h ⊢
  unfold Definition.isKept
  split
  · next himported => simp [himported]
  next himported =>
  split
  · next hexported =>
    rw [if_neg himported, if_pos hexported] at h
    cases hfind : t.find? d.symbol.name with
    | some first =>
      rw [hfind] at h
      cases h
    | none =>
      show (noteLabel _ d).labels.toList = _
      rw [labels_noteLabel]
      simp [himported]
  · show (noteLabel _ d).labels.toList = _
    rw [labels_noteLabel]
    simp [himported]

/-! ## Sequences of symbols -/

theorem find?_addAll :
    (t.addAll definitions).find? name
      = (t.find? name).or (definitions.find? fun d => d.exports name) := by
  induction definitions generalizing t with
  | nil => simp [addAll]
  | cons d definitions ih =>
    show (((t.add d).1).addAll definitions).find? name = _
    rw [ih, find?_add, Option.or_assoc, List.find?_cons]
    cases d.exports name <;> simp

/-- All symbols can be added exactly if no exported name is known already or exported twice. -/
theorem allAdded_iff_of_table :
    t.AllAdded definitions
      ↔ (∀ name ∈ exportedNames definitions, t.find? name = none)
        ∧ (exportedNames definitions).Nodup := by
  induction definitions generalizing t with
  | nil => simp [AllAdded, exportedNames]
  | cons d definitions ih =>
    show _ ∧ _ ↔ _
    rw [ih, add_eq_none_iff]
    by_cases hexported : d.symbol.kind = .exported
    · have hnames : exportedNames (d :: definitions)
          = d.symbol.name :: exportedNames definitions := by
        simp [exportedNames, hexported]
      have hfind : ∀ name, (t.add d).1.find? name = none
          ↔ t.find? name = none ∧ d.symbol.name ≠ name := by
        intro name
        rw [find?_add, Option.or_eq_none_iff]
        simp [Definition.exports, hexported]
      rw [hnames, List.nodup_cons, List.forall_mem_cons]
      simp only [hfind, hexported, true_implies]
      constructor
      · rintro ⟨hfirst, hrest, hnodup⟩
        exact ⟨⟨hfirst, fun name hname => (hrest name hname).1⟩,
          fun hmem => (hrest _ hmem).2 rfl, hnodup⟩
      · rintro ⟨⟨hfirst, hrest⟩, hnotMem, hnodup⟩
        refine ⟨hfirst, fun name hname => ⟨hrest name hname, ?_⟩, hnodup⟩
        rintro rfl
        exact hnotMem hname
    · have hnames : exportedNames (d :: definitions) = exportedNames definitions := by
        simp [exportedNames, hexported]
      have hfind : ∀ name, (t.add d).1.find? name = t.find? name := by
        intro name
        rw [find?_add]
        simp [Definition.exports, hexported]
      rw [hnames]
      simp only [hfind, hexported, false_implies, true_and]

theorem allAdded_iff : AllAdded {} definitions ↔ (exportedNames definitions).Nodup := by
  rw [allAdded_iff_of_table]
  simp [find?]

theorem labels_addAll_of_table (h : t.AllAdded definitions) :
    (t.addAll definitions).labels.toList
      = t.labels.toList ++ definitions.filter Definition.isKept := by
  induction definitions generalizing t with
  | nil => simp [addAll]
  | cons d definitions ih =>
    show (((t.add d).1).addAll definitions).labels.toList = _
    rw [ih h.2, labels_add h.1, List.append_assoc, List.filter_cons]
    cases d.isKept <;> simp

theorem labels_addAll (h : AllAdded {} definitions) :
    (addAll {} definitions).labels.toList = definitions.filter Definition.isKept := by
  rw [labels_addAll_of_table h]
  rfl

/-- The symbol that a name stands for was added. -/
theorem mem_of_find?_addAll (h : (addAll {} definitions).find? name = some d) :
    d ∈ definitions ∧ d.exports name = true := by
  rw [find?_addAll] at h
  have hfind : definitions.find? (fun d => d.exports name) = some d := by
    simpa [find?] using h
  exact ⟨List.mem_of_find?_eq_some hfind,
    List.find?_some (p := fun d : Definition => d.exports name) hfind⟩

/-- If all symbols could be added, a name stands for the one symbol that is exported under it. -/
theorem find?_addAll_eq_some_iff (h : AllAdded {} definitions) :
    (addAll {} definitions).find? name = some d ↔ d ∈ definitions ∧ d.exports name = true := by
  refine ⟨mem_of_find?_addAll, ?_⟩
  rintro ⟨hd, hexports⟩
  have hsome : (definitions.find? fun d => d.exports name).isSome = true :=
    List.find?_isSome.mpr ⟨d, hd, hexports⟩
  obtain ⟨e, he⟩ := Option.isSome_iff_exists.mp hsome
  have hfind : (addAll {} definitions).find? name = some e := by
    rw [find?_addAll, he]
    simp [find?]
  obtain ⟨hmem, hexports'⟩ := mem_of_find?_addAll hfind
  -- names are exported once
  have hexported : ∀ {c : Definition}, c ∈ definitions → c.exports name = true →
      c ∈ definitions.filter (fun d => d.symbol.kind = .exported) ∧ c.symbol.name = name := by
    intro c hc hcname
    simp only [Definition.exports, Bool.and_eq_true, decide_eq_true_eq] at hcname
    exact ⟨List.mem_filter.mpr ⟨hc, decide_eq_true hcname.1⟩, hcname.2⟩
  have hunique : d = e := List.inj_on_of_nodup_map (allAdded_iff.mp h) (hexported hd hexports).1
    (hexported hmem hexports').1 (by
      rw [(hexported hd hexports).2, (hexported hmem hexports').2])
  rw [hunique]
  exact hfind

section Order

variable {definitions' : List Definition} (hperm : definitions.Perm definitions')

include hperm

/-- Whether symbols can be added does not depend on their order. -/
theorem allAdded_perm : AllAdded {} definitions ↔ AllAdded {} definitions' := by
  rw [allAdded_iff, allAdded_iff]
  exact ((hperm.filter _).map _).nodup_iff

theorem find?_addAll_perm (h : AllAdded {} definitions) (name : Bytes) :
    (addAll {} definitions').find? name = (addAll {} definitions).find? name := by
  ext d
  rw [find?_addAll_eq_some_iff h, find?_addAll_eq_some_iff ((allAdded_perm hperm).mp h),
    hperm.mem_iff]

end Order

/-- What symbols of a file are depends on the exported names only. -/
theorem definition_congr {t t' : SymbolTable} (h : ∀ name, t'.find? name = t.find? name)
    (f : ObjectFile) (index : UInt32) : t'.definition f index = t.definition f index := by
  unfold definition resolve
  simp only [h]

end SymbolTable

theorem mem_definitionsOf {files : List ObjectFile} {d : Definition} :
    d ∈ definitionsOf files ↔ d.file ∈ files ∧ d.symbol ∈ d.file.symbols := by
  unfold definitionsOf
  simp only [List.mem_flatMap, List.mem_map]
  constructor
  · rintro ⟨f, hf, symbol, hsymbol, rfl⟩
    exact ⟨hf, hsymbol⟩
  · rintro ⟨hf, hsymbol⟩
    exact ⟨d.file, hf, d.symbol, hsymbol, rfl⟩

namespace Linker

theorem table_foldl_addFile (lk : Linker) (files : List ObjectFile) :
    (files.foldl addFile lk).table = lk.table.addAll (definitionsOf files) := by
  induction files generalizing lk with
  | nil => rfl
  | cons f files ih =>
    obtain ⟨-, htable, -⟩ := addSymbols_spec lk f
    obtain ⟨htable', -, -⟩ := addSections_spec (lk.addSymbols f) f
    have hfile : (lk.addFile f).table = _ := htable'.trans htable
    rw [List.foldl_cons, ih, hfile]
    exact List.foldl_append.symm

/-- The table after placing holds the symbols of all files. -/
theorem table_afterAssigning (map : MemoryMap) (warnings : WarningOptions)
    (files : List ObjectFile) :
    (start map warnings files).afterAssigning.table
      = SymbolTable.addAll {} (definitionsOf files) := by
  have hmerged : (start map warnings files).afterMerging.table
      = SymbolTable.addAll {} (definitionsOf files) := table_foldl_addFile _ files
  obtain ⟨⟨d, hnoted⟩, -⟩ := noted_noteUnresolved (start map warnings files).afterMerging
  have hcollected : (start map warnings files).afterMerging.noteUnresolved.table
      = SymbolTable.addAll {} (definitionsOf files) := by
    rw [hnoted]
    exact hmerged
  unfold afterAssigning
  generalize (start map warnings files).afterMerging.noteUnresolved = collected at hcollected ⊢
  rw [← hcollected]
  exact (foldl_settle_frame (Placement.assign collected.map collected.sections) collected).2.2.1

end Linker

end BankedLinker
