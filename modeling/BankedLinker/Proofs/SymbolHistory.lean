import BankedLinker.Linker.Evaluate
import BankedLinker.Proofs.Symbols

/-!
# The symbol table over a history

A table is the work of the symbols that were added to it, one after the other, refused ones
included. This file says what each operation answers after any such history: names stand for their
first exports, imports are remembered in the order in which they first occurred, whichever of them
came first.

* `importedNames`: what is imported, in order and with repetitions;
* `SymbolTable.addAll_concat`: a history grows at its end;
* `SymbolTable.add_eq_some_iff`: when a symbol is refused;
* `SymbolTable.FirstImports`: what the table remembers of its imports;
* `SymbolTable.addAll_history`: all answers of a table.
-/

namespace BankedLinker

/-- The imported names in the order in which they are imported, with repetitions. -/
def importedNames (history : List Definition) : List Bytes :=
  (history.filter fun d => d.symbol.kind = .imported).map fun d => d.symbol.name

/-- What a name stands for after a history: its first export. -/
def firstExport (history : List Definition) (name : Bytes) : Except LookupError Definition :=
  match history.find? (·.exports name) with
  | some d => .ok d
  | none => .error (.undefinedSymbol name)

section Names

variable {history : List Definition} {d : Definition} {name : Bytes}

theorem exports_eq_true_iff :
    d.exports name = true ↔ d.symbol.kind = .exported ∧ d.symbol.name = name := by
  simp [Definition.exports]

theorem mem_exportedNames :
    name ∈ exportedNames history ↔ ∃ d ∈ history, d.exports name = true := by
  simp [exportedNames, Definition.exports, and_assoc]

theorem exportedNames_concat (history : List Definition) (d : Definition) :
    exportedNames (history ++ [d])
      = exportedNames history ++ if d.symbol.kind = .exported then [d.symbol.name] else [] := by
  by_cases hkind : d.symbol.kind = .exported <;> simp [exportedNames, hkind]

theorem importedNames_concat (history : List Definition) (d : Definition) :
    importedNames (history ++ [d])
      = importedNames history ++ if d.symbol.kind = .imported then [d.symbol.name] else [] := by
  by_cases hkind : d.symbol.kind = .imported <;> simp [importedNames, hkind]

end Names

namespace SymbolTable

variable {t : SymbolTable} {d : Definition} {e : DuplicateExport} {name : Bytes}
  {names : List Bytes} {history : List Definition}

theorem addAll_concat (t : SymbolTable) (history : List Definition) (d : Definition) :
    t.addAll (history ++ [d]) = ((t.addAll history).add d).1 :=
  List.foldl_concat ..

/-! ## Exports -/

/-- After a history a name stands for its first export. -/
theorem find?_history : (addAll {} history).find? name = history.find? (·.exports name) := by
  rw [find?_addAll]
  simp [find?]

theorem find?_history_eq_none_iff :
    (addAll {} history).find? name = none ↔ name ∉ exportedNames history := by
  rw [find?_history, List.find?_eq_none, mem_exportedNames]
  simp

/-- A symbol is refused if it is an export of a name that stands for another one already. -/
theorem add_eq_some_iff :
    (t.add d).2 = some e
      ↔ d.symbol.kind = .exported ∧ t.find? d.symbol.name = some e.first ∧ e.second = d := by
  unfold add
  split
  · next himported => simp [himported, SymbolKind.imported, SymbolKind.exported]
  split
  · next hexported =>
    cases t.find? d.symbol.name with
    | none => simp
    | some first => cases e; simp [hexported, eq_comm]
  · next hexported => simp [hexported]

/-- A symbol that is refused leaves no trace. -/
theorem add_of_eq_some (h : (t.add d).2 = some e) : (t.add d).1 = t := by
  obtain ⟨hexported, hfirst, -⟩ := add_eq_some_iff.mp h
  have hlocal : ¬ d.symbol.kind = .imported := by
    rw [hexported]
    decide
  unfold add
  rw [if_neg hlocal, if_pos hexported, hfirst]

@[simp] theorem size_noteImport (t : SymbolTable) (imported : Bytes) :
    (t.noteImport imported).size = t.size := by
  unfold noteImport
  split <;> rfl

@[simp] theorem size_noteLabel (t : SymbolTable) (d : Definition) :
    (t.noteLabel d).size = t.size := by
  unfold noteLabel
  split <;> rfl

/-- An export of a new name makes the table larger, nothing else does. -/
theorem size_add :
    (t.add d).1.size
      = t.size + if d.symbol.kind = .exported ∧ t.find? d.symbol.name = none then 1 else 0 := by
  unfold add
  split
  · next himported => simp [himported, SymbolKind.imported, SymbolKind.exported]
  split
  · next hexported =>
    cases hfind : t.find? d.symbol.name with
    | some first => simp
    | none =>
      have hnew : d.symbol.name ∉ t.exports := by
        intro hmem
        rw [find?, Std.HashMap.getElem?_eq_some_getElem hmem] at hfind
        cases hfind
      simp [hexported, size, Std.HashMap.size_insert, hnew, noteLabel, apply_ite]
  · next hexported => simp [hexported]

/-- A table counts the names that were exported, each once. -/
theorem size_history : (addAll {} history).size = (exportedNames history).toFinset.card := by
  induction history using List.reverseRecOn with
  | nil => simp [addAll, size, exportedNames]
  | append_singleton history d ih =>
    rw [addAll_concat, size_add, ih, exportedNames_concat]
    by_cases hexported : d.symbol.kind = .exported
    · by_cases hknown : d.symbol.name ∈ exportedNames history
      · simp [find?_history_eq_none_iff, hexported, hknown]
      · simp [find?_history_eq_none_iff, hexported, hknown]
    · simp [hexported]

/-! ## Imports -/

/-- What the table remembers of the names that were imported: each name once, in the order of
their first occurrences. The set holds the same names as the list. -/
structure FirstImports (t : SymbolTable) (names : List Bytes) : Prop where
  contains_iff : ∀ name, t.imported.contains name = true ↔ name ∈ names
  mem_iff : ∀ name, name ∈ t.imports.toList ↔ name ∈ names
  ordered : t.imports.toList.Pairwise fun a b => names.idxOf a < names.idxOf b

theorem firstImports_empty : FirstImports {} [] where
  contains_iff := by simp
  mem_iff := by simp
  ordered := by simp

/-- The step on an import. -/
theorem FirstImports.noteImport (h : t.FirstImports names) (name : Bytes) :
    (t.noteImport name).FirstImports (names ++ [name]) := by
  -- what was imported before keeps its place
  have hordered : t.imports.toList.Pairwise
      fun a b => (names ++ [name]).idxOf a < (names ++ [name]).idxOf b := by
    refine h.ordered.imp_of_mem ?_
    intro a b ha hb hlt
    rw [List.idxOf_append_of_mem ((h.mem_iff a).mp ha),
      List.idxOf_append_of_mem ((h.mem_iff b).mp hb)]
    exact hlt
  unfold SymbolTable.noteImport
  by_cases hknown : t.imported.contains name = true
  · have hmem : name ∈ names := (h.contains_iff name).mp hknown
    have hsame : ∀ other, other ∈ names ++ [name] ↔ other ∈ names := by
      intro other
      rw [List.mem_append, List.mem_singleton]
      exact or_iff_left_of_imp fun heq => heq ▸ hmem
    rw [if_pos hknown]
    exact {
      contains_iff := fun other => (h.contains_iff other).trans (hsame other).symm
      mem_iff := fun other => (h.mem_iff other).trans (hsame other).symm
      ordered := hordered }
  · have hnew : name ∉ names := fun hmem => hknown ((h.contains_iff name).mpr hmem)
    rw [if_neg hknown]
    exact {
      contains_iff := by
        intro other
        show (t.imported.insert name).contains other = true ↔ _
        rw [Std.HashSet.contains_insert, Bool.or_eq_true, beq_iff_eq, h.contains_iff,
          List.mem_append, List.mem_singleton, or_comm, eq_comm]
      mem_iff := by
        intro other
        show other ∈ (t.imports.push name).toList ↔ _
        rw [Array.toList_push, List.mem_append, h.mem_iff, List.mem_append]
      ordered := by
        show (t.imports.push name).toList.Pairwise _
        rw [Array.toList_push, List.pairwise_append]
        refine ⟨hordered, List.pairwise_singleton .., ?_⟩
        intro a ha b hb
        have ha' : a ∈ names := (h.mem_iff a).mp ha
        rw [List.mem_singleton.mp hb, List.idxOf_append_of_mem ha',
          List.idxOf_append_of_notMem hnew]
        exact Nat.lt_add_right _ (List.idxOf_lt_length_of_mem ha') }

theorem FirstImports.noteLabel (h : t.FirstImports names) (d : Definition) :
    (t.noteLabel d).FirstImports names := by
  unfold SymbolTable.noteLabel
  split
  · exact ⟨h.contains_iff, h.mem_iff, h.ordered⟩
  · exact h

/-- The step on any symbol. -/
theorem FirstImports.add (h : t.FirstImports names) (d : Definition) :
    (t.add d).1.FirstImports
      (names ++ if d.symbol.kind = .imported then [d.symbol.name] else []) := by
  unfold SymbolTable.add
  by_cases himported : d.symbol.kind = .imported
  · rw [if_pos himported, if_pos himported]
    exact h.noteImport d.symbol.name
  rw [if_neg himported, if_neg himported, List.append_nil]
  by_cases hexported : d.symbol.kind = .exported
  · rw [if_pos hexported]
    cases t.find? d.symbol.name with
    | some first => exact h
    | none =>
      have hexports : FirstImports { t with exports := t.exports.insert d.symbol.name d } names :=
        ⟨h.contains_iff, h.mem_iff, h.ordered⟩
      exact hexports.noteLabel d
  · rw [if_neg hexported]
    exact h.noteLabel d

theorem firstImports_history (history : List Definition) :
    (addAll {} history).FirstImports (importedNames history) := by
  induction history using List.reverseRecOn with
  | nil => exact firstImports_empty
  | append_singleton history d ih =>
    rw [addAll_concat, importedNames_concat]
    exact ih.add d

theorem mem_unresolved_history :
    name ∈ (addAll {} history).unresolved
      ↔ name ∈ importedNames history ∧ name ∉ exportedNames history := by
  unfold unresolved
  rw [List.mem_filter, (firstImports_history history).mem_iff, Option.isNone_iff_eq_none,
    find?_history_eq_none_iff]

theorem unresolved_history_ordered (history : List Definition) :
    (addAll {} history).unresolved.Pairwise
      fun a b => (importedNames history).idxOf a < (importedNames history).idxOf b :=
  (firstImports_history history).ordered.filter _

/-! ## Names -/

theorem resolve_history (history : List Definition) (name : Bytes) :
    (addAll {} history).resolve name = firstExport history name := by
  unfold resolve firstExport
  cases hfind : history.find? (·.exports name) with
  | none => rw [find?_history, hfind]
  | some d => rw [find?_history, hfind]

theorem find?_of_resolve_eq_ok (h : t.resolve name = .ok d) : t.find? name = some d := by
  unfold resolve at h
  cases hfind : t.find? name with
  | none =>
    rw [hfind] at h
    cases h
  | some found =>
    rw [hfind] at h
    rw [Except.ok.inj h]

/-- An import stands for what is found under its name, whichever file it is in. -/
theorem definition_of_imported {f : ObjectFile} {index : UInt32} {symbol : Symbol}
    (hsymbol : f.symbols[index.toNat]? = some symbol) (himported : symbol.kind = .imported) :
    t.definition f index = t.resolve symbol.name := by
  unfold definition
  rw [hsymbol]
  exact if_pos himported

/-- After any history, refused symbols included, an exported name stands for its first export:
when it is resolved, when its bank is asked for, and for imports of all files. Nothing but an
export stands for a name. A further symbol is refused exactly if it is an export of a name that was
exported before, and leaves the table as it is. The size counts the exported names, each once, and
the unresolved names are those that were imported and never exported, each once and in the order of
their first imports. -/
theorem addAll_history (history : List Definition) :
    (∀ name, (addAll {} history).resolve name = firstExport history name)
    ∧ (∀ lk : Linker, lk.table = addAll {} history → ∀ name,
        lk.resolve name = (firstExport history name).map lk.registry.address
        ∧ lk.bankOf name = (firstExport history name).bind lk.bankOfDefinition)
    ∧ (∀ (f : ObjectFile) (index : UInt32) (symbol : Symbol),
        f.symbols[index.toNat]? = some symbol → symbol.kind = .imported →
        (addAll {} history).definition f index = firstExport history symbol.name)
    ∧ (∀ name d, (addAll {} history).resolve name = .ok d →
        d ∈ history ∧ d.symbol.kind = .exported ∧ d.symbol.name = name)
    ∧ (∀ name, name ∉ exportedNames history →
        (addAll {} history).resolve name = .error (.undefinedSymbol name))
    ∧ (∀ d, ((addAll {} history).add d).2 ≠ none
        ↔ d.symbol.kind = .exported ∧ d.symbol.name ∈ exportedNames history)
    ∧ (∀ d e, ((addAll {} history).add d).2 = some e →
        e.faults = [.duplicateExport] ∧ firstExport history d.symbol.name = .ok e.first
        ∧ e.second = d ∧ ((addAll {} history).add d).1 = addAll {} history)
    ∧ (addAll {} history).size = (exportedNames history).toFinset.card
    ∧ (addAll {} history).unresolved.Nodup
    ∧ (∀ name, name ∈ (addAll {} history).unresolved
        ↔ name ∈ importedNames history ∧ name ∉ exportedNames history)
    ∧ (addAll {} history).unresolved.Pairwise
        fun a b => (importedNames history).idxOf a < (importedNames history).idxOf b := by
  have hordered := unresolved_history_ordered history
  refine ⟨resolve_history history, ?_, ?_, ?_, ?_, ?_, ?_, size_history, ?_,
    fun name => mem_unresolved_history, hordered⟩
  · intro lk htable name
    unfold Linker.resolve Linker.bankOf
    rw [htable, resolve_history]
    exact ⟨rfl, rfl⟩
  · intro f index symbol hsymbol himported
    rw [definition_of_imported hsymbol himported, resolve_history]
  · intro name d hresolve
    obtain ⟨hd, hexports⟩ := mem_of_find?_addAll (find?_of_resolve_eq_ok hresolve)
    exact ⟨hd, exports_eq_true_iff.mp hexports⟩
  · intro name hname
    unfold resolve
    rw [find?_history_eq_none_iff.mpr hname]
  · intro d
    rw [Ne, add_eq_none_iff, find?_history_eq_none_iff, Classical.not_imp, not_not]
  · intro d e he
    obtain ⟨-, hfirst, hsecond⟩ := add_eq_some_iff.mp he
    refine ⟨rfl, ?_, hsecond, add_of_eq_some he⟩
    rw [← resolve_history]
    unfold resolve
    rw [hfirst]
  · apply hordered.imp
    intro a b hlt heq
    rw [heq] at hlt
    exact Nat.lt_irrefl _ hlt

/-- A file that imports one name twice and another one once, and has a local symbol. -/
def importingFile : ObjectFile :=
  { name := "a", index := 0
    symbols :=
      [⟨"Used", .imported, none, none, 0⟩, ⟨"Missing", .imported, none, none, 0⟩,
       ⟨"Used", .imported, none, none, 0⟩, ⟨"Missing", .fileLocal, none, none, 5⟩] }

/-- A file that exports one of the names twice. -/
def exportingFile : ObjectFile :=
  { name := "b", index := 1
    symbols := [⟨"Used", .exported, none, none, 7⟩, ⟨"Used", .exported, none, none, 8⟩] }

/-- The symbols of both files, those with the imports first. -/
def importHistory : List Definition :=
  definitionsOf [importingFile, exportingFile]

/-- The import finds the first export, which was added later; the second export is refused. -/
theorem addAll_history_importHistory :
    importingFile.symbols[2]?.map (·.kind) = some .imported
    ∧ (addAll {} importHistory).definition importingFile 2
        = .ok ⟨exportingFile, ⟨"Used", .exported, none, none, 7⟩⟩
    ∧ ({ map := {}, files := [], table := addAll {} importHistory } : Linker).resolve "Used" = .ok 7
    ∧ (addAll {} importHistory).resolve "Missing" = .error (.undefinedSymbol "Missing")
    ∧ (∃ e, ((addAll {} importHistory).add
          ⟨exportingFile, ⟨"Used", .exported, none, none, 8⟩⟩).2 = some e
        ∧ e.first.symbol.value = 7)
    ∧ (addAll {} importHistory).size = 1
    ∧ ("Missing" : Bytes) ∈ (addAll {} importHistory).unresolved := by
  obtain ⟨-, hlinker, hdefinition, -, hundefined, hrefused, herror, hsize, -, hunresolved, -⟩ :=
    addAll_history importHistory
  have hmissing : ("Missing" : Bytes) ∉ exportedNames importHistory := by decide
  obtain ⟨e, he⟩ := Option.ne_none_iff_exists'.mp
    ((hrefused ⟨exportingFile, ⟨"Used", .exported, none, none, 8⟩⟩).mpr (by decide))
  obtain ⟨-, hfirst, -, -⟩ := herror _ e he
  refine ⟨rfl, ?_, ?_, hundefined _ hmissing, ⟨e, he, ?_⟩, hsize.trans (by decide),
    (hunresolved _).mpr ⟨by decide, hmissing⟩⟩
  · exact hdefinition importingFile 2 ⟨"Used", .imported, none, none, 0⟩ rfl rfl
  · exact (hlinker _ rfl "Used").1
  · rw [← Except.ok.inj hfirst]

end SymbolTable

end BankedLinker
