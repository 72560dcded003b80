import BankedLinker.Proofs.Outcome
import BankedLinker.Proofs.Packing
import BankedLinker.Proofs.Symbols

/-!
# Files in another order

The order of the files decides in which order symbols and sections are found, which numbers merged
sections get and in which order patches are applied. As long as the sections of each name keep
their order, expressions get the same answers in the end, so that the same files can be linked.

* `Reordered`: the same files in an order that keeps the sections of each name in theirs, and
  `reordered_swap` exchanges two neighbours;
* `Linker.SameAnswers`: two linkers give the same answers to all expressions;
* `Linker.equivalent_assign`: placing keeps equivalent registries equivalent;
* `Linker.Flawless.reordered`: what is flawless in one order is so in the other.
-/

namespace BankedLinker

open Registry (callsFor)

/-- The same files in another order, in which the sections of each name keep theirs. -/
structure Reordered (files files' : List ObjectFile) : Prop where
  perm : files.Perm files'
  callsFor_eq : ∀ name, callsFor name (callsOf files) = callsFor name (callsOf files')

namespace Reordered

variable {files files' : List ObjectFile}

theorem symm (h : Reordered files files') : Reordered files' files :=
  ⟨h.perm.symm, fun name => (h.callsFor_eq name).symm⟩

theorem perm_definitionsOf (h : Reordered files files') :
    (definitionsOf files).Perm (definitionsOf files') :=
  h.perm.flatMap_right _

theorem mem_iff (h : Reordered files files') {f : ObjectFile} : f ∈ files ↔ f ∈ files' :=
  h.perm.mem_iff

theorem wellFormed (h : Reordered files files') (hwell : ∀ f ∈ files, f.WellFormed) :
    ∀ f ∈ files', f.WellFormed :=
  fun f hf => hwell f (h.mem_iff.mpr hf)

theorem nodup_index (h : Reordered files files') (hindex : (files.map ObjectFile.index).Nodup) :
    (files'.map ObjectFile.index).Nodup :=
  (h.perm.map _).nodup_iff.mp hindex

theorem totalSize_eq (h : Reordered files files') :
    totalSize (callsOf files') = totalSize (callsOf files) :=
  ((h.perm.flatMap_right _).map _).sum_eq.symm

end Reordered

/-- Two neighbours without a section name in common can be exchanged. -/
theorem reordered_swap {f g : ObjectFile} (before after : List ObjectFile)
    (hnames : ∀ s ∈ f.sections, ∀ t ∈ g.sections, s.name ≠ t.name) :
    Reordered (before ++ f :: g :: after) (before ++ g :: f :: after) := by
  refine ⟨(List.Perm.swap g f after).append_left before, fun name => ?_⟩
  have hcalls : ∀ f g : ObjectFile, callsFor name (callsOf (before ++ f :: g :: after))
      = callsFor name (callsOf before) ++ (callsFor name (f.sections.map (f, ·))
        ++ (callsFor name (g.sections.map (g, ·)) ++ callsFor name (callsOf after))) := by
    intro f g
    simp only [callsFor, callsOf, List.flatMap_append, List.flatMap_cons, List.filter_append]
  -- one of the two files has no section of the name
  have hnone : callsFor name (f.sections.map (f, ·)) = []
      ∨ callsFor name (g.sections.map (g, ·)) = [] := by
    have hempty : ∀ f : ObjectFile, (∀ s ∈ f.sections, s.name ≠ name) →
        callsFor name (f.sections.map (f, ·)) = [] := by
      intro f hf
      simp only [callsFor, List.filter_eq_nil_iff, List.forall_mem_map, decide_eq_true_eq]
      exact hf
    by_cases hf : ∀ s ∈ f.sections, s.name ≠ name
    · exact Or.inl (hempty f hf)
    · push Not at hf
      obtain ⟨s, hs, rfl⟩ := hf
      exact Or.inr (hempty g fun t ht => (hnames s hs t ht).symm)
  rw [hcalls, hcalls]
  rcases hnone with hnone | hnone <;> simp [hnone]

namespace Linker

variable {lk lk' : Linker} {f : ObjectFile} {p : Patch}

/-! ## The answers to expressions -/

/-- The two linkers have the same map, the same exports and equivalent registries, which is all
that expressions ask for. -/
structure SameAnswers (lk lk' : Linker) : Prop where
  map_eq : lk'.map = lk.map
  find?_eq : ∀ name, lk'.table.find? name = lk.table.find? name
  registry : lk'.registry.Equivalent lk.registry

namespace SameAnswers

variable (h : SameAnswers lk lk')

include h

theorem bankOfSection_eq (f : ObjectFile) (s : Section) :
    lk'.bankOfSection f s = lk.bankOfSection f s := by
  unfold bankOfSection
  rw [h.map_eq, h.registry.bank_eq]

theorem bankOfDefinition_eq (d : Definition) :
    lk'.bankOfDefinition d = lk.bankOfDefinition d := by
  unfold bankOfDefinition
  simp only [h.bankOfSection_eq]

/-- A query looks at size, address and first member, not at the number. -/
theorem querySection_eq (q : Expr.SectionQuery) (name : Bytes) :
    lk'.querySection q name = lk.querySection q name := by
  have hknown := h.registry name
  unfold Registry.known? at hknown
  unfold querySection
  simp only [h.bankOfSection_eq]
  cases hfind : lk.registry.find? name with
  | none =>
    rw [hfind, Option.map_none, Option.map_eq_none_iff] at hknown
    rw [hknown]
  | some m =>
    rw [hfind, Option.map_some, Option.map_eq_some_iff] at hknown
    obtain ⟨m', hfind', heq⟩ := hknown
    rw [hfind', Placement.eq_of_unnumbered_eq heq]

theorem environment_eq (f : ObjectFile) (p : Patch) :
    lk'.environment f p = lk.environment f p := by
  have haddress : lk'.registry.address = lk.registry.address := funext h.registry.address_eq
  have hbank : lk'.bankOfDefinition = lk.bankOfDefinition := funext h.bankOfDefinition_eq
  have hquery : lk'.querySection = lk.querySection :=
    funext fun q => funext fun name => h.querySection_eq q name
  unfold environment hereOf bankHereOf
  simp only [h.map_eq, h.registry.org_eq, h.bankOfSection_eq, haddress, hbank, hquery,
    SymbolTable.definition_congr h.find?_eq]

theorem valueOf_eq (f : ObjectFile) (p : Patch) : lk'.valueOf f p = lk.valueOf f p := by
  unfold valueOf
  rw [h.environment_eq]

theorem cautionsOf_eq (f : ObjectFile) (p : Patch) : lk'.cautionsOf f p = lk.cautionsOf f p := by
  unfold cautionsOf
  rw [h.environment_eq]

theorem applies_iff (f : ObjectFile) (p : Patch) : lk'.Applies f p ↔ lk.Applies f p := by
  unfold Applies
  simp only [h.valueOf_eq, h.registry.org_eq]

theorem holds_iff (f : ObjectFile) (a : Assertion) : lk'.Holds f a ↔ lk.Holds f a := by
  unfold Holds
  rw [h.valueOf_eq]

theorem raisedBy_iff (f : ObjectFile) (a : Assertion) (w : Warning) :
    lk'.RaisedBy f a w ↔ lk.RaisedBy f a w := by
  unfold RaisedBy
  rw [h.cautionsOf_eq, h.valueOf_eq]

theorem encodes_iff (f : ObjectFile) (p : Patch) (bytes : Bytes) :
    lk'.Encodes f p bytes ↔ lk.Encodes f p bytes := by
  unfold Encodes patchedValue
  simp only [h.environment_eq, h.registry.org_eq]

end SameAnswers

/-! ## Placing -/

/-- A merged section after placing without a problem is where its outcome says. -/
theorem find?_assign (hlk : lk.Assignable) (hclean : lk.assign.Clean) {name : Bytes} {m : Merged}
    (hfind : lk.registry.find? name = some m) :
    ∃ loc, ⟨m, .ok loc⟩ ∈ Placement.assign lk.map lk.sections
      ∧ lk.assign.registry.find? name = some (m.place loc.org loc.bank) := by
  obtain ⟨i, hi, hm⟩ := Option.bind_eq_some_iff.mp hfind
  obtain ⟨_, loc, hplaced, -⟩ := placed_of_clean hlk hclean hm
  obtain ⟨before, loc', after, hassign, heq, -⟩ :=
    exists_outcome_of_placed hlk (fun _ h => h) hm hplaced rfl
  refine ⟨loc', ?_, ?_⟩
  · rw [hassign]
    exact List.mem_append_right _ List.mem_cons_self
  · have hposition : lk.assign.registry.positions[name]? = some i := by
      rw [← hi]
      exact congrArg (·[name]?) (foldl_settle_frame _ lk).2.2.2
    unfold Registry.find?
    rw [hposition, Option.bind_some, ← heq]
    exact hplaced

theorem find?_assign_of_none (hlk : lk.Assignable) {name : Bytes}
    (hfind : lk.registry.find? name = none) : lk.assign.registry.find? name = none := by
  have hposition : lk.assign.registry.positions[name]? = lk.registry.positions[name]? :=
    congrArg (·[name]?) (foldl_settle_frame _ lk).2.2.2
  unfold Registry.find?
  rw [hposition]
  cases hi : lk.registry.positions[name]? with
  | none => rfl
  | some i =>
    obtain ⟨m, hm, -⟩ := hlk.indexed.section_at hi
    unfold Registry.find? at hfind
    rw [hi, Option.bind_some, hm] at hfind
    cases hfind

section Assign

variable (hlk : lk.Assignable) (hlk' : lk'.Assignable) (hmap : lk'.map = lk.map)
  (hequivalent : lk.registry.Equivalent lk'.registry) (hclean : lk.assign.Clean)

include hlk hlk' hmap hequivalent hclean

/-- Equivalent registries have the same outcomes, numbers and order apart. -/
theorem summaries_perm :
    ((Placement.assign lk.map lk.sections).map Placement.Outcome.summary).Perm
      ((Placement.assign lk'.map lk'.sections).map Placement.Outcome.summary) := by
  rw [hmap]
  exact Placement.assign_renumbered (hequivalent.perm hlk.indexed hlk'.indexed)
    hlk.indexed.nodup_names (clean_foldl_settle_iff.mp hclean).2

theorem clean_assign_of_equivalent (hclean' : lk'.Clean) : lk'.assign.Clean := by
  refine clean_foldl_settle_iff.mpr ⟨hclean', fun o' ho' => ?_⟩
  have hmem := (summaries_perm hlk hlk' hmap hequivalent hclean).mem_iff.mpr
    (List.mem_map_of_mem ho')
  obtain ⟨o, ho, hsummary⟩ := List.mem_map.mp hmem
  obtain ⟨loc, hloc⟩ := (clean_foldl_settle_iff.mp hclean).2 o ho
  exact ⟨loc, Placement.Outcome.result_of_summary hsummary hloc⟩

/-- Placing keeps equivalent registries equivalent. -/
theorem equivalent_assign (hclean' : lk'.assign.Clean) :
    lk.assign.registry.Equivalent lk'.assign.registry := by
  intro name
  have hknown := hequivalent name
  unfold Registry.known? at hknown ⊢
  cases hfind : lk.registry.find? name with
  | none =>
    rw [hfind, Option.map_none, eq_comm, Option.map_eq_none_iff] at hknown
    rw [find?_assign_of_none hlk hfind, find?_assign_of_none hlk' hknown]
  | some m =>
    rw [hfind, Option.map_some, eq_comm, Option.map_eq_some_iff] at hknown
    obtain ⟨m', hfind', heq⟩ := hknown
    obtain ⟨loc, hloc, hplaced⟩ := find?_assign hlk hclean hfind
    obtain ⟨loc', hloc', hplaced'⟩ := find?_assign hlk' hclean' hfind'
    -- both outcomes are summed up the same, and a section has one outcome only
    obtain ⟨o, ho, hsummary⟩ := List.mem_map.mp
      ((summaries_perm hlk hlk' hmap hequivalent hclean).mem_iff.mpr (List.mem_map_of_mem hloc'))
    have hsubject : o.subject = m := by
      have hunnumbered : o.subject.unnumbered = m'.unnumbered := congrArg Prod.fst hsummary
      have hname : o.subject.unnumbered.name = m.unnumbered.name :=
        congrArg Merged.name (hunnumbered.trans heq)
      have hmem := (hlk.indexed.find?_eq_some_iff.mp hfind).1
      exact List.inj_on_of_nodup_map hlk.indexed.nodup_names
        (Placement.subject_mem_of_mem_assign ho) (Array.mem_toList_iff.mpr hmem) hname
    have hnodup := (Placement.subjects_assign lk.map lk.sections).nodup_iff.mpr
      (nodup_sections hlk.indexed)
    obtain rfl := List.inj_on_of_nodup_map hnodup ho hloc hsubject
    obtain rfl : loc = loc' := Option.some.inj (congrArg Prod.snd hsummary)
    rw [hplaced, hplaced', Option.map_some, Option.map_some, ← m.place_unnumbered,
      ← m'.place_unnumbered, heq]

end Assign

/-! ## The whole run -/

section Start

variable {map : MemoryMap} {warnings : WarningOptions} {files files' : List ObjectFile}

theorem clean_merged_reordered (hre : Reordered files files')
    (hmerged : (files.foldl addFile (start map warnings files)).Clean) :
    (files'.foldl addFile (start map warnings files')).Clean := by
  obtain ⟨hadded, hall⟩ := clean_merged_iff.mp hmerged
  exact clean_merged_iff.mpr ⟨(SymbolTable.allAdded_perm hre.perm_definitionsOf).mp hadded,
    (Registry.allMerged_congr hre.callsFor_eq).mp hall⟩

/-- What placing starts from can be assigned. -/
theorem assignable_collected (hwell : ∀ f ∈ files, f.WellFormed)
    (hmerged : (files.foldl addFile (start map warnings files)).Clean) :
    (start map warnings files).afterMerging.noteUnresolved.Assignable := by
  refine assignable_of_addAll (unresolved_of_clean hmerged).1 ?_
  rintro ⟨f, s⟩ hcall
  obtain ⟨hf, hs⟩ := mem_callsOf.mp hcall
  exact ((hwell f hf).wellFormed s hs).align_le

/-- Files in another order are placed if they are placed in one, and expressions get the same
answers then. -/
theorem sameAnswers_reordered (hre : Reordered files files')
    (hwell : ∀ f ∈ files, f.WellFormed)
    (hmerged : (files.foldl addFile (start map warnings files)).Clean)
    (hassigned : (start map warnings files).afterMerging.noteUnresolved.assign.Clean) :
    (start map warnings files').afterMerging.noteUnresolved.assign.Clean
      ∧ SameAnswers (start map warnings files).afterAssigning
        (start map warnings files').afterAssigning := by
  have hmerged' := clean_merged_reordered hre hmerged
  have hassignable := assignable_collected hwell hmerged
  have hassignable' := assignable_collected (hre.wellFormed hwell) hmerged'
  obtain ⟨hregistry, hmap, -⟩ := unresolved_of_clean hmerged
  obtain ⟨hregistry', hmap', -, -, hclean'⟩ := unresolved_of_clean hmerged'
  have hequivalent : (start map warnings files).afterMerging.noteUnresolved.registry.Equivalent
      (start map warnings files').afterMerging.noteUnresolved.registry := by
    rw [hregistry, hregistry']
    exact Registry.equivalent_addAll hre.callsFor_eq
  have hmaps := hmap'.trans hmap.symm
  have hassigned' := clean_assign_of_equivalent hassignable hassignable' hmaps hequivalent
    hassigned hclean'
  refine ⟨hassigned', ?_, fun name => ?_, ?_⟩
  · rw [map_afterAssigning hmerged, map_afterAssigning hmerged']
  · rw [table_afterAssigning, table_afterAssigning]
    exact SymbolTable.find?_addAll_perm hre.perm_definitionsOf (clean_merged_iff.mp hmerged).1 name
  · rw [(afterAssigning_spec _).1, (afterAssigning_spec _).1]
    exact (equivalent_assign hassignable hassignable' hmaps hequivalent hassigned
      hassigned').symm

/-- What is flawless in one order is so in the other. -/
theorem Flawless.reordered (h : Flawless map warnings files) (hre : Reordered files files')
    (hwell : ∀ f ∈ files, f.WellFormed) : Flawless map warnings files' := by
  obtain ⟨hassigned', hanswers⟩ :=
    sameAnswers_reordered hre hwell h.clean_merged h.clean_assigned
  have hmerged' := clean_merged_reordered hre h.clean_merged
  obtain ⟨hadded, hall⟩ := clean_merged_iff.mp hmerged'
  refine ⟨hadded, hall, (clean_assigned_iff hmerged').mp hassigned', ?_, ?_, ?_⟩
  · intro f hf s hs p hp
    exact (hanswers.applies_iff f p).mpr (h.applies f (hre.mem_iff.mpr hf) s hs p hp)
  · intro f hf a ha
    exact (hanswers.holds_iff f a).mpr (h.holds f (hre.mem_iff.mpr hf) a ha)
  · rintro w (⟨f, hf, s, hs, p, hp, hw⟩ | ⟨f, hf, a, ha, hw⟩)
    · rw [hanswers.cautionsOf_eq] at hw
      exact h.unpromoted w (Or.inl ⟨f, hre.mem_iff.mpr hf, s, hs, p, hp, hw⟩)
    · rw [hanswers.raisedBy_iff] at hw
      exact h.unpromoted w (Or.inr ⟨f, hre.mem_iff.mpr hf, a, ha, hw⟩)

end Start

end Linker

end BankedLinker
