import BankedLinker.Proofs.Accesses
import BankedLinker.Proofs.Execution
import BankedLinker.Proofs.Outcome
import BankedLinker.Proofs.RoundTrip

/-!
# Linking stays inside of its sequences

All accesses by index of a link run, of the map file and of the verification are in range. What the
later steps look into depends on facts from far away: decoding accepts known regions only, merging
leaves no merged section without members, placing keeps sections inside of their regions.

* `Registry.safe_addAllAccesses_of_represents`: merging, with and without conflicts;
* `Placement.safe_assignAccesses`: placing;
* `Linker.Grounded`: what patches and assertions rely on, whatever was patched before;
* `Linker.safe_linkAccesses` and `Linker.safe_programAccesses`: a whole run and its program;
* `Linker.safe_link` is the result for decoded files.
-/

namespace BankedLinker

open Access (Safe)

/-! ## Merging -/

namespace Registry

variable {calls done : List (ObjectFile × Section)} {r : Registry}

/-- Merged sections of sections with known regions can be looked into. -/
theorem Represents.solid (hr : r.Represents done)
    (hknown : ∀ call ∈ done, call.2.kind.isKnown = true) {m : Merged} (hm : m ∈ r.sections) :
    m.Solid := by
  have hne := hr.nonempty m hm
  refine ⟨hne, ?_⟩
  have hfirst := Array.getElem_mem (Array.size_pos_iff.mpr hne)
  have hrep := hr.represents m hm
  rw [← hrep.kind_eq _ hfirst]
  exact hknown _ (hrep.call_mem hfirst).1

theorem Represents.inRange_windowAccess (hr : r.Represents done)
    (hkeys : (done.map callKey).Nodup) (hwell : ∀ call ∈ done, call.2.WellFormed) {m : Merged}
    (hm : m ∈ r.sections) (hdata : m.kind.hasData = true) {x : Member} (hx : x ∈ m.members) :
    (m.windowAccess x).InRange := by
  have hrep := hr.represents m hm
  have hmodifier := (hwell _ (hrep.call_mem hx).1).modifier_mem
  have hcoherent := hr.coherent hkeys (fun call hcall => (hwell call hcall).length_data) hm
  have hsame : x.call.2.modifier = m.modifier := hrep.modifier_eq x hx
  rw [hsame] at hmodifier
  obtain ⟨hsize, hwindow⟩ := hcoherent.stored hdata hmodifier
  have hstop := (hwindow x hx).1
  have hbound : m.size.toNat < 2 ^ 32 := m.size.toNat_lt
  -- the end of the window is at most the size, which is a word
  have hend : (x.offset + x.content.size).toNat = x.offset.toNat + x.content.size.toNat := by
    rw [UInt32.toNat_add]
    exact Nat.mod_eq_of_lt (by omega)
  unfold Merged.windowAccess
  rw [Access.inRange_part, hend]
  omega

/-- The step: merging one section looks into merged sections that have members, and its windows
lie inside of the merged bytes. -/
theorem safe_addAccesses {f : ObjectFile} {s : Section} (hr : r.Represents done)
    (hkeys : ((done ++ [(f, s)]).map callKey).Nodup)
    (hwell : ∀ call ∈ done ++ [(f, s)], call.2.WellFormed)
    (hknown : ∀ call ∈ done ++ [(f, s)], call.2.kind.isKnown = true)
    (htotal : totalSize (done ++ [(f, s)]) < 2 ^ 32) : Safe (r.addAccesses f s) := by
  have hlast : (f, s) ∈ done ++ [(f, s)] := List.mem_append_right _ (List.mem_singleton_self _)
  unfold addAccesses
  refine Access.safe_append.mpr ⟨ObjectFile.safe_describeAccesses (hknown _ hlast),
    Access.safe_append.mpr ⟨?_, ?_⟩⟩
  · cases hfind : r.find? s.name with
    | none => exact Access.safe_nil
    | some m =>
      have hm := (hr.indexed.find?_eq_some_iff.mp hfind).1
      exact (hr.solid (fun call hcall => hknown call (List.mem_append_left _ hcall))
        hm).safe_describeAccesses
  · split
    · exact Access.safe_nil
    next r' hadd =>
    split
    · next hdata =>
      have hnew : ∀ call ∈ done, callKey call ≠ callKey (f, s) := by
        intro call hcall
        rw [List.map_append, List.nodup_append] at hkeys
        exact hkeys.2.2 _ (List.mem_map_of_mem hcall) _ List.mem_cons_self
      have hr' := represents_add hr hnew htotal (by rw [hadd])
      rw [hadd] at hr'
      cases hfind : r'.find? s.name with
      | none => exact Access.safe_nil
      | some m =>
        obtain ⟨hm, hname⟩ := hr'.indexed.find?_eq_some_iff.mp hfind
        -- the section is one of the members, so it is stored like them
        obtain ⟨x, hx, hcall⟩ := (hr'.represents m hm).exists_member hlast hname.symm
        have hkind : m.kind.hasData = true := by
          rw [← (hr'.represents m hm).kind_eq x hx, show x.content = s from congrArg Prod.snd hcall]
          exact hdata
        refine Access.safe_map.mpr fun y hy => ?_
        exact hr'.inRange_windowAccess hkeys hwell hm hkind (Array.mem_toList_iff.mp hy)
    · exact Access.safe_nil

/-- The run: merging is safe whatever conflicts there are. -/
theorem safe_addAllAccesses_of_represents (hr : r.Represents done)
    (hkeys : ((done ++ calls).map callKey).Nodup)
    (hwell : ∀ call ∈ done ++ calls, call.2.WellFormed)
    (hknown : ∀ call ∈ done ++ calls, call.2.kind.isKnown = true)
    (htotal : totalSize (done ++ calls) < 2 ^ 32) : Safe (r.addAllAccesses calls) := by
  induction calls generalizing done r with
  | nil => exact Access.safe_nil
  | cons call rest ih =>
    obtain ⟨f, s⟩ := call
    have hfirst : (done ++ [(f, s)]).Sublist (done ++ (f, s) :: rest) :=
      ((List.nil_sublist rest).cons_cons (f, s)).append_left done
    have hkeys' := hkeys.sublist (hfirst.map callKey)
    have htotal' := lt_of_le_of_lt (totalSize_le_of_sublist hfirst) htotal
    refine Access.safe_append.mpr ⟨safe_addAccesses hr hkeys'
      (fun c hc => hwell c (hfirst.mem hc)) (fun c hc => hknown c (hfirst.mem hc)) htotal', ?_⟩
    by_cases hadd : (r.add f s).2 = none
    · have hnew : ∀ call ∈ done, callKey call ≠ callKey (f, s) := by
        intro call hcall
        rw [List.map_append, List.nodup_append] at hkeys
        exact hkeys.2.2 _ (List.mem_map_of_mem hcall) _ List.mem_cons_self
      have hsplit : done ++ (f, s) :: rest = (done ++ [(f, s)]) ++ rest := by simp
      rw [hsplit] at hkeys hwell hknown htotal
      exact ih (represents_add hr hnew htotal' hadd) hkeys hwell hknown htotal
    · have hrest : (done ++ rest).Sublist (done ++ (f, s) :: rest) :=
        (List.sublist_cons_self (f, s) rest).append_left done
      exact ih (represents_add_of_conflict hr hadd) (hkeys.sublist (hrest.map callKey))
        (fun c hc => hwell c (hrest.mem hc)) (fun c hc => hknown c (hrest.mem hc))
        (lt_of_le_of_lt (totalSize_le_of_sublist hrest) htotal)

end Registry

/-! ## Placing -/

/-- The occupants of a ledger are of a given sort. -/
def Ledger.UsedBy (P : Merged → Prop) (l : Ledger) : Prop :=
  ∀ key, ∀ o ∈ (l.space key).used, P o.user

namespace Placement

variable {P : Merged → Prop} {l : Ledger} {m : Merged}

theorem usedBy_empty (map : MemoryMap) : ({ map } : Ledger).UsedBy P := by
  intro key o ho
  rw [Ledger.space_empty] at ho
  exact absurd ho List.not_mem_nil

theorem usedBy_update {key : BankKey} {s : Span} {space : BankSpace} (hl : l.UsedBy P) (hm : P m)
    (hspace : (l.space key).reserve s m = some space) : (l.update key space).UsedBy P := by
  intro key' o ho
  rw [Ledger.space_update] at ho
  split at ho
  · rcases BankSpace.mem_used_of_reserve hspace ho with hequal | ho
    · rw [hequal]
      exact hm
    · exact hl key o ho
  · exact hl key' o ho

theorem usedBy_placeFixed {placed : Location × Ledger} (hl : l.UsedBy P) (hm : P m)
    (h : placeFixed l m = .ok placed) : placed.2.UsedBy P := by
  unfold placeFixed at h
  dsimp only at h
  split at h
  · cases h
  split at h
  · cases h
  next space hspace =>
  cases h
  exact usedBy_update hl hm hspace

theorem usedBy_searchBanks {count largest : ℕ} {bank : UInt32} {placed : Location × Ledger}
    (hl : l.UsedBy P) (hm : P m) (h : searchBanks l m count bank largest = .ok placed) :
    placed.2.UsedBy P := by
  induction count generalizing bank largest with
  | zero => cases h
  | succ count ih =>
    unfold searchBanks at h
    dsimp only at h
    split at h
    · next start space hfit =>
      cases h
      obtain ⟨-, -, -, -, hspace⟩ := fitIn_eq_ok hfit
      exact usedBy_update hl hm hspace
    · exact ih h

theorem usedBy_placeFloating {placed : Location × Ledger} (hl : l.UsedBy P) (hm : P m)
    (h : placeFloating l m = .ok placed) : placed.2.UsedBy P := by
  unfold placeFloating at h
  dsimp only at h
  split at h
  · next hsearch =>
    cases h
    exact usedBy_searchBanks hl hm hsearch
  · split at h
    · cases h
      exact hl
    · cases h

theorem safe_fixedAccesses (hl : l.UsedBy Merged.Solid) (hm : m.Solid) :
    Safe (fixedAccesses l m) := by
  refine Access.safe_cons.mpr ⟨RegionKind.inRange_access.mpr hm.isKnown,
    Access.safe_append.mpr ⟨hm.safe_describeAccesses, ?_⟩⟩
  split
  · next other hother => exact (hl _ other (List.mem_of_find?_eq_some hother)).safe_describeAccesses
  · exact BankSpace.safe_reserveAccesses _ _

theorem safe_fitAccesses (space : BankSpace) (m : Merged) : Safe (fitAccesses space m) := by
  refine Access.safe_flatMap.mpr fun free _ => ?_
  cases candidate? m free with
  | none => exact Access.safe_nil
  | some start => exact space.safe_reserveAccesses _

theorem safe_searchAccesses (hm : m.Solid) (count : ℕ) (bank : UInt32) :
    Safe (searchAccesses l m count bank) := by
  induction count generalizing bank with
  | zero => exact Access.safe_nil
  | succ count ih =>
    exact Access.safe_cons.mpr ⟨RegionKind.inRange_access.mpr hm.isKnown,
      Access.safe_append.mpr ⟨safe_fitAccesses _ m, ih (bank + 1)⟩⟩

theorem safe_floatingAccesses (hm : m.Solid) : Safe (floatingAccesses l m) :=
  Access.safe_cons.mpr ⟨RegionKind.inRange_access.mpr hm.isKnown,
    Access.safe_append.mpr ⟨hm.safe_describeAccesses, safe_searchAccesses hm _ _⟩⟩

/-- The run: sections are placed one after the other, and only they become occupants. -/
theorem safe_placeAllAccesses
    {placeOne : Ledger → Merged → Except PlacementError (Location × Ledger)}
    {accesses : Ledger → Merged → List Access}
    (hsafe : ∀ l m, l.UsedBy P → P m → Safe (accesses l m))
    (hplace : ∀ l m placed, l.UsedBy P → P m → placeOne l m = .ok placed → placed.2.UsedBy P)
    {sections : List Merged} (hl : l.UsedBy P) (hsections : ∀ m ∈ sections, P m) :
    Safe (placeAllAccesses placeOne accesses l sections)
      ∧ (placeAll placeOne l sections).2.UsedBy P := by
  induction sections generalizing l with
  | nil => exact ⟨Access.safe_nil, hl⟩
  | cons m rest ih =>
    rw [List.forall_mem_cons] at hsections
    unfold placeAllAccesses placeAll
    rw [Access.safe_append, and_assoc]
    refine ⟨hsafe l m hl hsections.1, ?_⟩
    cases hone : placeOne l m with
    | error e => exact ih hl hsections.2
    | ok placed => exact ih (hplace l m placed hl hsections.1 hone) hsections.2

theorem safe_assignAccesses {map : MemoryMap} {sections : List Merged}
    (hsections : ∀ m ∈ sections, m.Solid) : Safe (assignAccesses map sections) := by
  unfold assignAccesses
  dsimp only
  rw [List.partition_eq_filter_filter]
  dsimp only
  have hsorted : ∀ (le : Merged → Merged → Bool) (p q : Merged → Bool),
      ∀ m ∈ ((sections.filter p).filter q).mergeSort le, m.Solid := by
    intro le p q m hm
    exact hsections m (List.mem_of_mem_filter (List.mem_of_mem_filter (List.mem_mergeSort.mp hm)))
  obtain ⟨hfixed, hused⟩ := safe_placeAllAccesses (P := Merged.Solid)
    (fun l m => safe_fixedAccesses)
    (fun l m placed => usedBy_placeFixed) (usedBy_empty map)
    (hsorted (fun a b => (compareFixed a b).isLE) (fun m => (rejection? map m).isNone)
      (isFixed map))
  obtain ⟨hfloating, -⟩ := safe_placeAllAccesses (P := Merged.Solid)
    (fun l m _ hm => safe_floatingAccesses hm)
    (fun l m placed => usedBy_placeFloating) hused
    (hsorted (fun a b => (compareFloating a b).isLE) (fun m => (rejection? map m).isNone)
      fun m => !isFixed map m)
  refine Access.safe_append.mpr ⟨Access.safe_flatMap.mpr fun m hm => ?_,
    Access.safe_append.mpr ⟨hfixed, hfloating⟩⟩
  exact Access.safe_cons.mpr ⟨RegionKind.inRange_access.mpr (hsections m hm).isKnown,
    (hsections m hm).safe_describeAccesses⟩

end Placement

/-! ## Patches and assertions -/

namespace Linker

variable {lk lk₀ : Linker} {files : List ObjectFile} {f : ObjectFile} {s : Section} {p : Patch}

/-- What patches and assertions rely on: symbols and members belong to the files, merged sections
can be looked into, and patches lie inside of their sections. -/
structure Grounded (files : List ObjectFile) (lk : Linker) : Prop where
  file_mem : ∀ {name : Bytes} {d : Definition}, lk.table.find? name = some d → d.file ∈ files
  solid : ∀ m ∈ lk.registry.sections, m.Solid
  call_mem : ∀ m ∈ lk.registry.sections, ∀ x ∈ m.members, x.call ∈ callsOf files
  inside : ∀ f ∈ files, ∀ s ∈ f.sections, ∀ p ∈ s.patches, lk.Inside f s p

/-- Patches change none of it. -/
theorem Grounded.of_sameView (h : lk₀.Grounded files) (hview : SameView lk₀ lk) :
    lk.Grounded files := by
  have htable : lk.table = lk₀.table := by
    show lk.outline.table = lk₀.outline.table
    rw [hview.outline_eq]
  have hregistry : lk.registry.outline = lk₀.registry.outline :=
    congrArg Linker.registry hview.outline_eq
  have hsection : ∀ m ∈ lk.registry.sections, ∃ n ∈ lk₀.registry.sections,
      m.members = n.members ∧ m.kind = n.kind := by
    intro m hm
    obtain ⟨i, hi⟩ := Array.mem_iff_getElem?.mp hm
    obtain ⟨n, data, tail, hn, rfl⟩ := Registry.section_of_outline_eq hregistry hi
    exact ⟨n, Array.mem_of_getElem? hn, rfl, rfl⟩
  refine ⟨?_, ?_, ?_, ?_⟩
  · intro name d hd
    rw [htable] at hd
    exact h.file_mem hd
  · intro m hm
    obtain ⟨n, hn, hmembers, hkind⟩ := hsection m hm
    refine ⟨?_, ?_⟩
    · rw [hmembers]
      exact (h.solid n hn).nonempty
    · rw [hkind]
      exact (h.solid n hn).isKnown
  · intro m hm x hx
    obtain ⟨n, hn, hmembers, -⟩ := hsection m hm
    rw [hmembers] at hx
    exact h.call_mem n hn x hx
  · intro f hf s hs p hp
    exact (hview.inside_iff f s p).mpr (h.inside f hf s hs p hp)

theorem safe_symbolAccesses (f : ObjectFile) (index : UInt32) : Safe (symbolAccesses f index) := by
  unfold symbolAccesses
  split
  · next h => exact Access.safe_cons.mpr ⟨h, Access.safe_nil⟩
  · exact Access.safe_nil

theorem mem_sections_of_sectionAt? {i : Option UInt32} (h : f.sectionAt? i = some s) :
    s ∈ f.sections := by
  obtain ⟨j, -, hj⟩ := Option.bind_eq_some_iff.mp h
  exact List.mem_of_getElem? hj

/-- The file of the definition of a symbol is one of the linked files. -/
theorem Grounded.file_mem_of_definition (hlk : lk.Grounded files) (hf : f ∈ files)
    {index : UInt32} {d : Definition}
    (h : lk.table.definition f index = .ok d) : d.file ∈ files := by
  unfold SymbolTable.definition at h
  split at h
  · cases h
  · split at h
    · unfold SymbolTable.resolve at h
      split at h
      · next hfind =>
        cases h
        exact hlk.file_mem hfind
      · cases h
    · cases h
      exact hf

section Files

variable (hknown : ∀ f ∈ files, ∀ s ∈ f.sections, s.kind.isKnown = true)

include hknown

theorem safe_describe_sectionAt (hf : f ∈ files) (i : Option UInt32) :
    Safe ((f.sectionAt? i).elim [] f.describeAccesses) := by
  cases h : f.sectionAt? i with
  | none => exact Access.safe_nil
  | some s => exact ObjectFile.safe_describeAccesses (hknown f hf s (mem_sections_of_sectionAt? h))

variable (hlk : lk.Grounded files)

include hlk

theorem safe_describe_first {name : Bytes} {m : Merged} (hfind : lk.registry.find? name = some m) :
    Safe (m.firstAccess :: (m.members[0]?).elim [] fun first =>
      first.file.describeAccesses first.content) := by
  obtain ⟨i, -, hi⟩ := Option.bind_eq_some_iff.mp hfind
  have hm : m ∈ lk.registry.sections := Array.mem_of_getElem? hi
  refine Access.safe_cons.mpr ⟨(hlk.solid m hm).inRange_firstAccess, ?_⟩
  cases hfirst : m.members[0]? with
  | none => exact Access.safe_nil
  | some first =>
    obtain ⟨hfile, hsection⟩ :=
      mem_callsOf.mp (hlk.call_mem m hm first (Array.mem_of_getElem? hfirst))
    exact ObjectFile.safe_describeAccesses (hknown _ hfile _ hsection)

variable (hf : f ∈ files)

include hf

/-- What an instruction asks for is found. -/
theorem safe_askedAccesses (p : Patch) (instruction : Expr.Instruction) :
    Safe (lk.askedAccesses f p instruction) := by
  cases instruction with
  | unary op =>
    cases op with
    | inHighPage => exact Access.safe_cons.mpr ⟨RegionKind.inRange_access_hram, Access.safe_nil⟩
    | isRestartTarget =>
      exact Access.safe_cons.mpr ⟨RegionKind.inRange_access_rom0, Access.safe_nil⟩
    | _ => exact Access.safe_nil
  | symbol index => exact safe_symbolAccesses f index
  | symbolBank index =>
    refine Access.safe_append.mpr ⟨safe_symbolAccesses f index, ?_⟩
    split
    · exact Access.safe_nil
    · next d hd => exact safe_describe_sectionAt hknown (hlk.file_mem_of_definition hf hd) _
  | bankHere => exact safe_describe_sectionAt hknown hf _
  | query q name =>
    cases q with
    | bank =>
      show Safe ((lk.registry.find? name).elim [] _)
      cases hfind : lk.registry.find? name with
      | none => exact Access.safe_nil
      | some m => exact safe_describe_first hknown hlk hfind
    | _ => exact Access.safe_nil
  | _ => exact Access.safe_nil

theorem safe_evaluateAccesses (p : Patch) : Safe (lk.evaluateAccesses f p) :=
  Access.safe_append.mpr ⟨f.tree.safe_traceAccesses p.source,
    Expr.safe_runAccesses (safe_askedAccesses hknown hlk hf p) (Nat.zero_add _)⟩

variable (hwell : ∀ f ∈ files, f.WellFormed)

include hwell

/-- The step: one patch. -/
theorem safe_applyAccesses (hs : s ∈ f.sections) (hp : p ∈ s.patches) :
    Safe (lk.applyAccesses f s p) := by
  refine Access.safe_append.mpr ⟨ObjectFile.safe_describeAccesses (hknown f hf s hs),
    Access.safe_append.mpr ⟨safe_evaluateAccesses hknown hlk hf p, ?_⟩⟩
  split
  · exact Access.safe_nil
  · -- the end of the patch is inside of the section, so it is a word
    have hinside : p.offset.toNat + p.kind.width ≤ lk.registry.byteCount f s :=
      hlk.inside f hf s hs p hp
    have hle := ((hwell f hf).wellFormed s hs).patch_le p hp
    have hsize : s.size.toNat < 2 ^ 32 := s.size.toNat_lt
    have hpos := p.kind.width_pos
    have hwidth : p.kind.width.toUInt32.toNat = p.kind.width := by
      rw [Nat.toUInt32, UInt32.toNat_ofNat']
      exact Nat.mod_eq_of_lt (by omega)
    have hstop : (p.offset + p.kind.width.toUInt32).toNat = p.offset.toNat + p.kind.width := by
      rw [UInt32.toNat_add, hwidth]
      exact Nat.mod_eq_of_lt (by omega)
    unfold storeAccesses
    simp only [Access.safe_cons, Access.safe_nil, and_true, Access.inRange_element,
      Access.inRange_part, hstop]
    omega

end Files

/-! ### Runs -/

section Run

variable (hknown : ∀ f ∈ files, ∀ s ∈ f.sections, s.kind.isKnown = true)
  (hwell : ∀ f ∈ files, f.WellFormed) (hlk : lk₀.Grounded files)

include hknown hlk

/-- The run: assertions of one file. -/
theorem safe_checkEachAccesses (hf : f ∈ files) (hview : SameView lk₀ lk)
    (assertions : List Assertion) : Safe (lk.checkEachAccesses f assertions) := by
  induction assertions generalizing lk with
  | nil => exact Access.safe_nil
  | cons a rest ih =>
    refine Access.safe_append.mpr
      ⟨safe_evaluateAccesses hknown (hlk.of_sameView hview) hf a.patch, ?_⟩
    have hview' := (checkAssertion_spec f a hview).1
    split
    · next after hcheck =>
      rw [hcheck] at hview'
      exact ih hview'
    · exact Access.safe_nil

include hwell

/-- The run: patches of one file. -/
theorem safe_applyPatchesAccesses (hf : f ∈ files) {jobs : List (Section × Patch)}
    (hjobs : ∀ job ∈ jobs, job.1 ∈ f.sections ∧ job.2 ∈ job.1.patches)
    (hview : SameView lk₀ lk) : Safe (lk.applyPatchesAccesses f jobs) := by
  induction jobs generalizing lk with
  | nil => exact Access.safe_nil
  | cons job jobs ih =>
    obtain ⟨s, p⟩ := job
    rw [List.forall_mem_cons] at hjobs
    refine Access.safe_append.mpr ⟨safe_applyAccesses hknown (hlk.of_sameView hview) hf hwell
      hjobs.1.1 hjobs.1.2, ?_⟩
    have hview' := (demands_apply lk₀ f s p lk hview).1
    dsimp only at hview'
    split
    · next after happly =>
      rw [happly] at hview'
      exact ih hjobs.2 hview'
    · next after e happly =>
      rw [happly] at hview'
      split
      · exact Access.safe_nil
      · exact ih hjobs.2 (hview'.trans (sameView_report after _))

end Run

theorem mem_patchesOf {job : Section × Patch} (h : job ∈ patchesOf f) :
    job.1 ∈ f.sections ∧ job.2 ∈ job.1.patches := by
  unfold patchesOf at h
  simp only [List.mem_flatMap, List.mem_map] at h
  obtain ⟨s, hs, p, hp, rfl⟩ := h
  exact ⟨hs, hp⟩

/-- The run: work on files that keeps symbols and places. -/
theorem safe_forFilesAccesses {work : Linker → ObjectFile → Linker × Except Problem Unit}
    {accesses : Linker → ObjectFile → List Access} {files' : List ObjectFile}
    (hsafe : ∀ f ∈ files', ∀ lk, SameView lk₀ lk → Safe (accesses lk f))
    (hwork : ∀ f lk, SameView lk₀ lk → SameView lk₀ (work lk f).1) (hview : SameView lk₀ lk) :
    Safe (lk.forFilesAccesses work accesses files') := by
  induction files' generalizing lk with
  | nil => exact Access.safe_nil
  | cons f rest ih =>
    rw [List.forall_mem_cons] at hsafe
    refine Access.safe_append.mpr ⟨hsafe.1 lk hview, ?_⟩
    have hview' := hwork f lk hview
    split
    · next after hrun =>
      rw [hrun] at hview'
      exact ih hsafe.2 hview'
    · exact Access.safe_nil

/-! ### The check of the offset -/

theorem bind_eq_error {ε α β : Type} {x : Except ε α} {k : α → Except ε β} {e : ε}
    (h : (x >>= k) = .error e) : x = .error e ∨ ∃ a, x = .ok a ∧ k a = .error e := by
  cases x with
  | error e' =>
    cases h
    exact Or.inl rfl
  | ok a => exact Or.inr ⟨a, rfl, h⟩

theorem patchedValue_ne_outsideData {value : Int32} {offset : UInt32} :
    lk.patchedValue f p value ≠ .error (.outsideData offset) := by
  unfold patchedValue jumpDistance
  split
  · split
    · exact fun h => nomatch h
    · dsimp only
      split <;> exact fun h => nomatch h
  · exact fun h => nomatch h

theorem checkWidth_ne_outsideData {k : PatchKind} {value : Int32} {offset : UInt32} :
    k.checkWidth value ≠ .error (.outsideData offset) := by
  unfold PatchKind.checkWidth
  split
  · exact fun h => nomatch h
  · split <;> exact fun h => nomatch h

/-- A patch inside of its section is not refused for its offset. -/
theorem apply_ne_outsideData (hinside : lk.Inside f s p) (offset : UInt32) :
    (lk.apply f s p).2 ≠ .error (.outsideData offset) := by
  obtain ⟨hview, -, -⟩ := evaluate_spec lk f p
  have hinside' := (hview.inside_iff f s p).mpr hinside
  unfold apply
  dsimp only
  cases (lk.evaluate f p).2 with
  | error e => exact fun h => nomatch h
  | ok value =>
    dsimp only
    have hbytes : (lk.evaluate f p).1.patchedBytes f s p value ≠ .error (.outsideData offset) := by
      intro h
      unfold patchedBytes at h
      obtain hvalue | ⟨number, hvalue, h⟩ := bind_eq_error h
      · exact patchedValue_ne_outsideData hvalue
      obtain hwidth | ⟨_, hwidth, h⟩ := bind_eq_error h
      · exact checkWidth_ne_outsideData hwidth
      rw [if_neg (Nat.not_lt.mpr hinside')] at h
      cases h
    cases hresult : (lk.evaluate f p).1.patchedBytes f s p value with
    | error e =>
      rw [hresult] at hbytes
      intro h
      exact hbytes (congrArg Except.error (Except.error.inj h))
    | ok bytes => exact fun h => nomatch h

/-- The run: patches of one file. An offset that is refused would end the run. -/
theorem applyPatches_ne_outsideData (hlk : lk₀.Grounded files) (hf : f ∈ files)
    {jobs : List (Section × Patch)}
    (hjobs : ∀ job ∈ jobs, job.1 ∈ f.sections ∧ job.2 ∈ job.1.patches) (hview : SameView lk₀ lk)
    (count : ℕ) (g : ObjectFile) (t : Section) (q : Patch) (offset : UInt32) :
    (lk.applyPatches f count jobs).2 ≠ .error (.patch g t q (.outsideData offset)) := by
  induction jobs generalizing lk count with
  | nil => exact fun h => nomatch h
  | cons job jobs ih =>
    obtain ⟨s, p⟩ := job
    rw [List.forall_mem_cons] at hjobs
    have hview' := (demands_apply lk₀ f s p lk hview).1
    dsimp only at hview'
    have hstep := apply_ne_outsideData
      ((hlk.of_sameView hview).inside f hf s hjobs.1.1 p hjobs.1.2) offset
    unfold applyPatches
    split
    · next after happly =>
      rw [happly] at hview'
      exact ih hjobs.2 hview' (count + 1)
    · next after e happly =>
      rw [happly] at hview' hstep
      split
      · intro h
        cases h
        exact hstep rfl
      · exact ih hjobs.2 (hview'.trans (sameView_report after _)) count

theorem forFiles_applyFile_ne_outsideData (hlk : lk₀.Grounded files) {files' : List ObjectFile}
    (hfiles' : ∀ f ∈ files', f ∈ files) (hview : SameView lk₀ lk) (g : ObjectFile) (t : Section)
    (q : Patch) (offset : UInt32) :
    (lk.forFiles applyFile files').2 ≠ .error (.patch g t q (.outsideData offset)) := by
  induction files' generalizing lk with
  | nil => exact fun h => nomatch h
  | cons f rest ih =>
    rw [List.forall_mem_cons] at hfiles'
    have hview' := (demands_applyFile lk₀ f lk hview).1
    dsimp only at hview'
    have hpatches := applyPatches_ne_outsideData hlk hfiles'.1
      (fun job hjob => mem_patchesOf hjob) hview 0 g t q offset
    unfold forFiles
    split
    · next after hrun =>
      rw [hrun] at hview'
      exact ih hfiles'.2 hview'
    · next after problem hrun =>
      intro h
      cases h
      unfold applyFile at hrun
      split at hrun
      · next hresult =>
        rw [hresult] at hpatches
        cases hrun
        exact hpatches rfl
      · cases hrun

/-! ## Stages -/

section Finish

variable {pad : UInt8} {cancellation : Cancellation} {looks : ℕ} {stage : Stage}

theorem eq_of_finishStage {lk' : Linker} (h : lk.finishStage cancellation looks stage = .ok lk') :
    lk' = lk.debug "Stage completed" [.text "stage" stage.name] := by
  unfold finishStage at h
  split at h
  · cases h
  split at h
  · cases h
  · cases h
    rfl

theorem finishStage_ne_damagedPatch {problem : Problem} :
    lk.finishStage cancellation looks stage ≠ .error (.damagedPatch problem) := by
  unfold finishStage
  split
  · exact fun h => nomatch h
  split
  · exact fun h => nomatch h
  · exact fun h => nomatch h

/-- A run that ends at a damaged patch has come as far as the patches. -/
theorem patchRun_of_damagedPatch {problem : Problem}
    (h : (lk.link pad cancellation looks).2 = .error (.damagedPatch problem)) :
    (lk.files.foldl addFile lk).Clean ∧ lk.afterMerging.noteUnresolved.assign.Clean
      ∧ lk.patchRun.2 = .error problem := by
  unfold link at h
  dsimp only at h
  split at h
  · next hfinish =>
    cases h
    exact absurd hfinish finishStage_ne_damagedPatch
  next collected hmerged =>
  obtain rfl : collected = lk.afterMerging := eq_of_finishStage hmerged
  unfold assignStage at h
  dsimp only at h
  split at h
  · next hfinish =>
    cases h
    exact absurd hfinish finishStage_ne_damagedPatch
  next placed hassigned =>
  obtain rfl : placed = lk.afterAssigning := eq_of_finishStage hassigned
  refine ⟨(finishStage_eq_ok hmerged).1, (finishStage_eq_ok hassigned).1, ?_⟩
  unfold patchStage at h
  dsimp only at h
  split at h
  · next hrun =>
    cases h
    exact congrArg Prod.snd hrun
  split at h
  · cases h
  split at h
  · next hfinish =>
    cases h
    exact absurd hfinish finishStage_ne_damagedPatch
  · cases h

end Finish

section Stages

variable {map : MemoryMap} {warnings : WarningOptions}
  (hknown : ∀ f ∈ files, ∀ s ∈ f.sections, s.kind.isKnown = true)
  (hwell : ∀ f ∈ files, f.WellFormed) (hindex : (files.map ObjectFile.index).Nodup)
  (htotal : totalSize (callsOf files) < 2 ^ 32)

include hknown hwell hindex htotal

theorem safe_collectAccesses : Safe (collectAccesses files) := by
  refine Access.safe_append.mpr
    ⟨Access.safe_flatMap.mpr fun d _ => d.file.tree.safe_traceAccesses _, ?_⟩
  refine Registry.safe_addAllAccesses_of_represents Registry.represents_empty
    (nodup_callKeys hwell hindex) ?_ ?_ htotal
  · rintro ⟨f, s⟩ hcall
    obtain ⟨hf, hs⟩ := mem_callsOf.mp hcall
    exact (hwell f hf).wellFormed s hs
  · rintro ⟨f, s⟩ hcall
    obtain ⟨hf, hs⟩ := mem_callsOf.mp hcall
    exact hknown f hf s hs

/-- Merged sections can be looked into, and their members are sections of the files. -/
theorem solid_addAll {m : Merged} (hm : m ∈ (Registry.addAll {} (callsOf files)).sections) :
    m.Solid ∧ ∀ x ∈ m.members, x.call ∈ callsOf files := by
  have hr := Registry.represents_addAll (nodup_callKeys hwell hindex) htotal
  have hsub := Registry.accepted_sublist {} (callsOf files)
  refine ⟨hr.solid ?_ hm, fun x hx => hsub.mem ((hr.represents m hm).call_mem hx).1⟩
  rintro ⟨f, s⟩ hcall
  obtain ⟨hf, hs⟩ := mem_callsOf.mp (hsub.mem hcall)
  exact hknown f hf s hs

section Clean

variable (hmerged : (files.foldl addFile (start map warnings files)).Clean)
  (hassigned : (start map warnings files).afterMerging.noteUnresolved.assign.Clean)

include hmerged hassigned

/-- Collecting and placing without a problem leaves what patches and assertions rely on. -/
theorem grounded_afterAssigning : (start map warnings files).afterAssigning.Grounded files := by
  obtain ⟨hregistry, -, -, -, -⟩ := unresolved_of_clean hmerged
  have halign : ∀ call ∈ callsOf files, call.2.align.toNat ≤ 16 := by
    rintro ⟨f, s⟩ hcall
    obtain ⟨hf, hs⟩ := mem_callsOf.mp hcall
    exact ((hwell f hf).wellFormed s hs).align_le
  have hplaces := places_of_clean (assignable_of_addAll hregistry halign) hassigned
  have hsection : ∀ m ∈ (start map warnings files).afterAssigning.registry.sections,
      m.Solid ∧ ∀ x ∈ m.members, x.call ∈ callsOf files := by
    intro m hm
    rw [(afterAssigning_spec _).1] at hm
    obtain ⟨i, hi⟩ := Array.mem_iff_getElem?.mp hm
    obtain ⟨n, org, bank, hn, rfl⟩ := hplaces.section_of hi
    rw [hregistry] at hn
    obtain ⟨hsolid, hcalls⟩ :=
      solid_addAll hknown hwell hindex htotal (Array.mem_of_getElem? hn)
    refine ⟨⟨?_, hsolid.isKnown⟩, ?_⟩
    · intro hempty
      exact hsolid.nonempty (Array.map_eq_empty_iff.mp hempty)
    · intro x hx
      obtain ⟨y, hy, rfl⟩ := Array.mem_map.mp hx
      exact hcalls y hy
  refine ⟨?_, fun m hm => (hsection m hm).1, fun m hm => (hsection m hm).2,
    inside_of_clean hwell hindex htotal hmerged hassigned⟩
  intro name d hd
  rw [table_afterAssigning] at hd
  exact (mem_definitionsOf.mp (SymbolTable.mem_of_find?_addAll hd).1).1

/-- The stage of patches and assertions. -/
theorem safe_patchStageAccesses :
    Safe (start map warnings files).afterAssigning.patchStageAccesses := by
  have hlk := grounded_afterAssigning hknown hwell hindex htotal hmerged hassigned
  have hfiles := (afterAssigning_of_clean hmerged).1
  generalize (start map warnings files).afterAssigning = lk at hlk hfiles ⊢
  unfold patchStageAccesses
  rw [hfiles]
  refine Access.safe_append.mpr ⟨?_, ?_⟩
  · refine safe_forFilesAccesses ?_ (fun f lk' hview => (demands_applyFile lk f lk' hview).1)
      (.refl lk)
    intro f hf lk' hview
    exact safe_applyPatchesAccesses hknown hwell hlk hf (fun job hjob => mem_patchesOf hjob) hview
  · have hview := (demands_forFiles (demands_applyFile lk) files lk (.refl lk)).1
    split
    · exact Access.safe_nil
    · next patched hpatched =>
      dsimp only at hview
      rw [hpatched] at hview
      refine safe_forFilesAccesses ?_
        (fun f lk' hview => (demands_checkEach lk f f.assertions lk' hview).1) hview
      intro f hf lk' hview
      exact safe_checkEachAccesses hknown hlk hf hview f.assertions

end Clean

/-- All stages, as far as the run comes. -/
theorem safe_linkAccesses (cancellation : Cancellation) (looks : ℕ) :
    Safe ((start map warnings files).linkAccesses cancellation looks) := by
  refine Access.safe_append.mpr ⟨safe_collectAccesses hknown hwell hindex htotal, ?_⟩
  split
  · exact Access.safe_nil
  next collected hfinish =>
  have hmerged := (finishStage_eq_ok hfinish).1
  obtain rfl : collected = (start map warnings files).afterMerging := eq_of_finishStage hfinish
  refine Access.safe_append.mpr ⟨Placement.safe_assignAccesses ?_, ?_⟩
  · intro m hm
    have hregistry : (start map warnings files).afterMerging.registry
        = Registry.addAll {} (callsOf files) := (foldl_addFile_spec _ files).1
    unfold sections at hm
    rw [hregistry, Array.mem_toList_iff] at hm
    exact (solid_addAll hknown hwell hindex htotal hm).1
  · split
    · exact Access.safe_nil
    next placed hfinish =>
    have hassigned := (finishStage_eq_ok hfinish).1
    obtain rfl : placed = (start map warnings files).afterAssigning := eq_of_finishStage hfinish
    exact safe_patchStageAccesses hknown hwell hindex htotal hmerged hassigned

/-- No run ends with a patch outside of its section. -/
theorem link_ne_outsideData (pad : UInt8) (cancellation : Cancellation) (looks : ℕ)
    (g : ObjectFile) (t : Section) (q : Patch) (offset : UInt32) :
    ((start map warnings files).link pad cancellation looks).2
      ≠ .error (.damagedPatch (.patch g t q (.outsideData offset))) := by
  intro h
  obtain ⟨hmerged, hassigned, hrun⟩ := patchRun_of_damagedPatch h
  have hlk := grounded_afterAssigning hknown hwell hindex htotal hmerged hassigned
  unfold patchRun at hrun
  rw [(afterAssigning_of_clean hmerged).1] at hrun
  exact forFiles_applyFile_ne_outsideData hlk (fun f hf => hf) (.refl _) g t q offset hrun

end Stages

end Linker

/-! ## The program -/

theorem MapFile.safe_accesses (sections : List Merged) : Safe (accesses sections) := by
  have hknown : ∀ k ∈ regionOrder, k.isKnown = true := by decide
  refine Access.safe_flatMap.mpr fun k hk => ?_
  have hrange := RegionKind.inRange_access.mpr (hknown k hk)
  exact Access.safe_cons.mpr ⟨hrange, Access.safe_map.mpr fun _ _ => hrange⟩

namespace Rom

variable {map : MemoryMap} {sections : List Merged}

theorem safe_imageAccesses (hseated : ∀ m ∈ sections, Seated map m) :
    Safe (imageAccesses map sections) := by
  refine Access.safe_cons.mpr ⟨RegionKind.inRange_access_rom0,
    Access.safe_cons.mpr ⟨RegionKind.inRange_access_romx, Access.safe_map.mpr ?_⟩⟩
  intro m hm
  obtain ⟨hmem, hstored⟩ := List.mem_filter.mp hm
  have hstop := Seated.stop_le_size hseated hmem hstored
  rw [Access.inRange_part]
  omega

theorem safe_compareAccesses (expected found : Bytes) : Safe (compareAccesses expected found) := by
  unfold compareAccesses
  split
  · next hlength =>
    refine Access.safe_flatMap.mpr fun i hi => ?_
    have hlt := List.mem_range.mp hi
    simp only [Access.safe_cons, Access.safe_nil, and_true, Access.inRange_element]
    omega
  · exact Access.safe_nil

/-- Verifying is safe for every image, long enough or not. -/
theorem safe_verifyAccesses (image : Array UInt8) (hsolid : ∀ m ∈ sections, m.Solid) :
    Safe (verifyAccesses map image sections) := by
  induction sections with
  | nil => exact Access.safe_nil
  | cons m rest ih =>
    rw [List.forall_mem_cons] at hsolid
    unfold verifyAccesses
    split
    · refine Access.safe_append.mpr ⟨hsolid.1.safe_describeAccesses, ?_⟩
      split
      · exact Access.safe_nil
      · next hlong =>
        refine Access.safe_cons.mpr ⟨?_, Access.safe_append.mpr
          ⟨safe_compareAccesses _ _, ih hsolid.2⟩⟩
        rw [Access.inRange_part]
        omega
    · exact ih hsolid.2

end Rom

namespace Linker

variable {files : List ObjectFile}

/-- The run: what comes of a run that succeeds. -/
theorem safe_programAccesses {map : MemoryMap} {warnings : WarningOptions} {pad : UInt8}
    {cancellation : Cancellation} {looks : ℕ} {lk : Linker} {program : Program}
    (hknown : ∀ f ∈ files, ∀ s ∈ f.sections, s.kind.isKnown = true)
    (hwell : ∀ f ∈ files, f.WellFormed) (hindex : (files.map ObjectFile.index).Nodup)
    (htotal : totalSize (callsOf files) < 2 ^ 32)
    (hlink : (start map warnings files).link pad cancellation looks = (lk, .ok program)) :
    Safe program.accesses := by
  obtain ⟨hmap, hsections, -⟩ := program_of_link hlink
  obtain ⟨hlaid, hlaidMap, -⟩ := laid_of_link hlink hwell hindex htotal
  obtain ⟨hmerged, hassigned, -⟩ :=
    exists_link_iff_stages.mp ⟨_, _, (link_eq_ok_iff_spares.mp hlink).2⟩
  have hgrounded := (grounded_afterAssigning hknown hwell hindex htotal hmerged
    hassigned).of_sameView (sameView_checkRun _)
  have hregistry := (outcome_of_link hlink).registry_eq
  have hmem : ∀ {m}, m ∈ program.sections → m ∈ lk.registry.sections := by
    intro m hm
    rw [hsections] at hm
    exact Array.mem_toList_iff.mp hm
  unfold Program.accesses
  refine Access.safe_append.mpr ⟨Rom.safe_imageAccesses ?_, Access.safe_append.mpr
    ⟨MapFile.safe_accesses _, Rom.safe_verifyAccesses _ ?_⟩⟩
  · intro m hm
    rw [hmap, ← hlaidMap]
    exact hlaid.seated m (hmem hm)
  · intro m hm
    exact hgrounded.solid m (hregistry ▸ hmem hm)

/-- **Nothing is looked up out of range.** Decoded files that are numbered apart and whose sections
are not larger than a word together can be linked under any settings: all accesses of the run are in
range, as far as it comes, and so are those of its image, its map file and the verification of the
image if it succeeds. The run never ends with a patch outside of the bytes of its section. -/
theorem safe_link (map : MemoryMap) (warnings : WarningOptions) (pad : UInt8)
    (cancellation : Cancellation) (looks : ℕ) (files : List ObjectFile)
    (hdecoded : ∀ f ∈ files, ∃ name input rest, Object.decode name f.index input = .ok (f, rest))
    (hindex : (files.map ObjectFile.index).Nodup) (htotal : totalSize (callsOf files) < 2 ^ 32) :
    Safe ((start map warnings files).linkAccesses cancellation looks)
      ∧ (∀ lk program, (start map warnings files).link pad cancellation looks = (lk, .ok program) →
        Safe program.accesses)
      ∧ ∀ g t q offset, ((start map warnings files).link pad cancellation looks).2
        ≠ .error (.damagedPatch (.patch g t q (.outsideData offset))) := by
  have hwell : ∀ f ∈ files, f.WellFormed := Object.wellFormed_of_decoded hdecoded
  have hknown : ∀ f ∈ files, ∀ s ∈ f.sections, s.kind.isKnown = true := by
    intro f hf s hs
    obtain ⟨i, hi⟩ := List.mem_iff_getElem?.mp hs
    exact ((Object.inFormat_of_decoded hdecoded f hf).section_inFormat i s hi).known_kind
  exact ⟨safe_linkAccesses hknown hwell hindex htotal cancellation looks,
    fun lk program => safe_programAccesses hknown hwell hindex htotal,
    link_ne_outsideData hknown hwell hindex htotal pad cancellation looks⟩

/-- The file with the loop is linked, and all accesses of the run and of its program are in
range. -/
theorem safe_link_loopFile :
    ∃ lk program, (start {} {} [Run.loopFile]).link 0xFF {} 1 = (lk, .ok program)
      ∧ Safe ((start {} {} [Run.loopFile]).linkAccesses {} 1) ∧ Safe program.accesses := by
  obtain ⟨lk, program, hlink⟩ := Run.exists_link_loopFile
  obtain ⟨hrun, hprogram, -⟩ := safe_link {} {} 0xFF {} 1 [Run.loopFile] (by
    intro f hf
    obtain rfl := List.mem_singleton.mp hf
    exact ⟨_, _, _, Run.decode_loopBytes⟩) (List.nodup_singleton _) (by decide)
  exact ⟨lk, program, hlink, hrun, hprogram lk program hlink⟩

end Linker

end BankedLinker
