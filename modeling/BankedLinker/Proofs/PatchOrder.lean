import BankedLinker.Proofs.FileOrder
import BankedLinker.Proofs.Storing
import Mathlib.Data.Set.List

/-!
# The order of patches

Once sections are placed, the bytes that a patch writes are settled: its value depends on symbols
and places, not on the bytes of any section. So only the last patch of each byte matters, and what
keeps the last patches keeps the bytes: files can be patched in any order and more than once, and
patches of a section can change places if they do not overlap.

* `ObjectFile.bare`: a file without data and patches, which is all that expressions see of it;
* `lastAt_flatten`: the last patch of a byte in a run that comes back to its section;
* `Patch.Rearranged`: the same patches in an order that keeps overlapping ones in theirs, and
  `Patch.Rearranged.lastAt_eq`, that each byte keeps its last patch;
* `Linker.SameView.exists_forFiles`: the run over files whose patches are all applied;
* `Linker.Patched.unique`: the last patches decide what a run leaves;
* `Linker.registry_of_rearranged`: the result.
-/

namespace BankedLinker

/-! ## Files without data and patches -/

/-- The section without its data and its patches. -/
def Section.bare (s : Section) : Section :=
  { s with data := [], patches := [] }

/-- The file with bare sections. -/
def ObjectFile.bare (f : ObjectFile) : ObjectFile :=
  { f with sections := f.sections.map Section.bare }

/-- A patch with the bare section and the bare file. -/
def Job.bare (job : Job) : Job :=
  (job.1.bare, job.2.1.bare, job.2.2)

theorem ObjectFile.sectionAt?_bare (f : ObjectFile) (i : Option UInt32) :
    f.bare.sectionAt? i = (f.sectionAt? i).map Section.bare := by
  cases i with
  | none => rfl
  | some i => exact List.getElem?_map

/-- A symbol of a bare file is that of the file, unless it is imported. -/
theorem SymbolTable.definition_bare (t : SymbolTable) (f : ObjectFile) (index : UInt32) :
    t.definition f.bare index = t.definition f index
      ∨ ∃ symbol, t.definition f.bare index = .ok ⟨f.bare, symbol⟩
        ∧ t.definition f index = .ok ⟨f, symbol⟩ := by
  have hsymbols : f.bare.symbols = f.symbols := rfl
  unfold definition
  rw [hsymbols]
  cases f.symbols[index.toNat]? with
  | none => exact Or.inl rfl
  | some symbol =>
    dsimp only
    by_cases himported : symbol.kind = .imported
    · rw [if_pos himported, if_pos himported]
      exact Or.inl rfl
    · rw [if_neg himported, if_neg himported]
      exact Or.inr ⟨symbol, rfl, rfl⟩

theorem Registry.address_bare (r : Registry) (f : ObjectFile) (symbol : Symbol) :
    r.address ⟨f.bare, symbol⟩ = r.address ⟨f, symbol⟩ := by
  unfold address Definition.ownerSection?
  dsimp only
  rw [f.sectionAt?_bare]
  cases f.sectionAt? symbol.owner <;> rfl

theorem callKeys_bare (f : ObjectFile) :
    (callsOf [f.bare]).map callKey = (callsOf [f]).map callKey := by
  simp [callsOf, ObjectFile.bare, Section.bare, callKey, Function.comp_def]

theorem patchesFor_bare (key : SectionKey) (jobs : List Job) :
    patchesFor key (jobs.map Job.bare) = patchesFor key jobs := by
  unfold patchesFor
  rw [List.filterMap_map]
  rfl

namespace Linker

variable {lk lk₀ : Linker} {f f' : ObjectFile} {s s' : Section} {p : Patch} {bytes : Bytes}

theorem bankOfDefinition_bare (lk : Linker) (f : ObjectFile) (symbol : Symbol) :
    lk.bankOfDefinition ⟨f.bare, symbol⟩ = lk.bankOfDefinition ⟨f, symbol⟩ := by
  unfold bankOfDefinition Definition.ownerSection?
  dsimp only
  rw [f.sectionAt?_bare]
  cases f.sectionAt? symbol.owner <;> rfl

/-- The environment of a patch does not depend on the data and the patches of its file. -/
theorem environment_bare (lk : Linker) (f : ObjectFile) (p : Patch) :
    lk.environment f.bare p = lk.environment f p := by
  have hhere : lk.hereOf f.bare p = lk.hereOf f p := by
    unfold hereOf
    rw [f.sectionAt?_bare]
    cases f.sectionAt? p.pcSection <;> rfl
  have hbankHere : lk.bankHereOf f.bare p = lk.bankHereOf f p := by
    unfold bankHereOf
    rw [f.sectionAt?_bare]
    cases f.sectionAt? p.pcSection <;> rfl
  unfold environment
  rw [Expr.Environment.mk.injEq]
  refine ⟨rfl, rfl, hhere, hbankHere, ?_, ?_, rfl⟩
  · funext index
    obtain h | ⟨symbol, h, h'⟩ := lk.table.definition_bare f index
    · rw [h]
    · rw [h, h']
      exact congrArg Except.ok (lk.registry.address_bare f symbol)
  · funext index
    obtain h | ⟨symbol, h, h'⟩ := lk.table.definition_bare f index
    · rw [h]
    · rw [h, h']
      show (lk.bankOfDefinition ⟨f.bare, symbol⟩).bind _ = (lk.bankOfDefinition ⟨f, symbol⟩).bind _
      rw [bankOfDefinition_bare]

theorem patchedValue_bare (lk : Linker) (f : ObjectFile) (p : Patch) (value : Int32) :
    lk.patchedValue f.bare p value = lk.patchedValue f p value := by
  unfold patchedValue
  rw [f.sectionAt?_bare]
  cases f.sectionAt? p.pcSection <;> rfl

theorem environment_of_bare_eq (h : f'.bare = f.bare) :
    lk.environment f' p = lk.environment f p := by
  rw [← environment_bare, h, environment_bare]

theorem patchedValue_of_bare_eq (h : f'.bare = f.bare) (value : Int32) :
    lk.patchedValue f' p value = lk.patchedValue f p value := by
  rw [← patchedValue_bare, h, patchedValue_bare]

theorem Encodes.of_bare_eq (h : lk.Encodes f p bytes) (hbare : f'.bare = f.bare) :
    lk.Encodes f' p bytes := by
  obtain ⟨value, number, hvalue, hnumber, hbytes⟩ := h
  refine ⟨value, number, ?_, ?_, hbytes⟩
  · rw [environment_of_bare_eq hbare]
    exact hvalue
  · rw [patchedValue_of_bare_eq hbare]
    exact hnumber

/-- A run of patches can be told for other files with the same bare ones. -/
theorem Patched.of_bare_eq {r r' : Registry} {jobs jobs' : List Job} (h : lk.Patched r jobs r')
    (hbare : jobs'.map Job.bare = jobs.map Job.bare) : lk.Patched r jobs' r' := by
  induction h generalizing jobs' with
  | nil r =>
    rw [List.map_nil, List.map_eq_nil_iff] at hbare
    rw [hbare]
    exact .nil r
  | @cons r r' f s p bytes rest encodes _ ih =>
    rw [List.map_cons, List.map_eq_cons_iff] at hbare
    obtain ⟨⟨f', s', p'⟩, rest', rfl, hjob, hrest⟩ := hbare
    obtain ⟨hfile, hpatch⟩ := Prod.mk.inj hjob
    obtain ⟨hsection, rfl⟩ := Prod.mk.inj hpatch
    have hinto : r.writeInto f' s' p'.offset.toNat bytes
        = r.writeInto f s p'.offset.toNat bytes := by
      show r.writeInto f'.bare s'.bare p'.offset.toNat bytes
        = r.writeInto f.bare s.bare p'.offset.toNat bytes
      rw [show f'.bare = f.bare from hfile, show s'.bare = s.bare from hsection]
    refine .cons (encodes.of_bare_eq hfile) ?_
    rw [hinto]
    exact ih hrest

/-! ## Patches that are applied -/

theorem apply_eq_ok_iff_applies_and_inside :
    (lk.apply f s p).2 = .ok () ↔ lk.Applies f p ∧ lk.Inside f s p :=
  apply_eq_ok_iff.trans applies_and_inside_iff.symm

/-- The step: a patch that is applied in one state is applied wherever symbols and places are the
same, and it writes the same bytes there. -/
theorem SameView.exists_apply (hview : SameView lk₀ lk) (h : (lk₀.apply f s p).2 = .ok ()) :
    ∃ lk' bytes, lk.apply f s p = (lk', .ok ()) ∧ SameView lk₀ lk' ∧ lk₀.Encodes f p bytes
      ∧ lk'.registry = lk.registry.writeInto f s p.offset.toNat bytes := by
  rw [apply_eq_ok_iff_applies_and_inside, ← hview.applies_iff, ← hview.inside_iff,
    ← apply_eq_ok_iff_applies_and_inside] at h
  have happly : lk.apply f s p = ((lk.apply f s p).1, .ok ()) := Prod.ext rfl h
  obtain ⟨-, -, bytes, hencodes, hregistry⟩ := apply_eq_ok happly
  exact ⟨_, bytes, happly, (demands_apply lk₀ f s p lk hview).1,
    hencodes.of_outline_eq hview.outline_eq.symm, hregistry⟩

/-- Patches of one file that are applied, one after the other. -/
theorem SameView.exists_applyPatches {jobs : List (Section × Patch)} (hview : SameView lk₀ lk)
    (count : ℕ) (h : ∀ job ∈ jobs, (lk₀.apply f job.1 job.2).2 = .ok ()) :
    ∃ lk' total, lk.applyPatches f count jobs = (lk', .ok total) ∧ SameView lk₀ lk'
      ∧ lk₀.Patched lk.registry (jobs.map fun job => (f, job.1, job.2)) lk'.registry := by
  induction jobs generalizing lk count with
  | nil => exact ⟨lk, count, rfl, hview, .nil _⟩
  | cons job rest ih =>
    obtain ⟨s, p⟩ := job
    obtain ⟨happly, hrest⟩ := List.forall_mem_cons.mp h
    obtain ⟨after, bytes, hafter, hview', hencodes, hregistry⟩ := hview.exists_apply happly
    obtain ⟨lk', total, hrun, hview'', hpatched⟩ := ih hview' (count + 1) hrest
    refine ⟨lk', total, ?_, hview'', .cons hencodes ?_⟩
    · unfold applyPatches
      rw [hafter]
      exact hrun
    · rw [← hregistry]
      exact hpatched

/-- The run: patches of all files that are applied, one file after the other. A file can occur more
than once. -/
theorem SameView.exists_forFiles {files : List ObjectFile} (hview : SameView lk₀ lk)
    (h : ∀ f ∈ files, ∀ s ∈ f.sections, ∀ p ∈ s.patches, (lk₀.apply f s p).2 = .ok ()) :
    ∃ lk', lk.forFiles applyFile files = (lk', .ok ()) ∧ SameView lk₀ lk'
      ∧ lk₀.Patched lk.registry (jobsOf (callsOf files)) lk'.registry := by
  induction files generalizing lk with
  | nil => exact ⟨lk, rfl, hview, .nil _⟩
  | cons f rest ih =>
    obtain ⟨hfile, hrest⟩ := List.forall_mem_cons.mp h
    have hjobs : ∀ job ∈ patchesOf f, (lk₀.apply f job.1 job.2).2 = .ok () := by
      simp only [patchesOf, List.forall_mem_flatMap, List.forall_mem_map]
      exact hfile
    obtain ⟨after, total, hafter, hview', hpatched⟩ := hview.exists_applyPatches 0 hjobs
    obtain ⟨lk', hrun, hview'', hpatched'⟩ := ih (hview'.trans (sameView_debug after _ _)) hrest
    refine ⟨lk', ?_, hview'', ?_⟩
    · unfold forFiles applyFile
      rw [hafter]
      exact hrun
    · rw [jobsOf_callsOf_cons]
      exact hpatched.append hpatched'

end Linker

/-! ## The last patch of a byte -/

section LastAt

variable {k : ℕ} {p : Patch} {ps qs : List Patch}

theorem lastAt_append (k : ℕ) (ps qs : List Patch) :
    lastAt k (ps ++ qs) = (lastAt k qs).or (lastAt k ps) := by
  unfold lastAt
  rw [List.reverse_append, List.find?_append]

/-- The last patch of a byte by its place in the list. -/
theorem lastAt_eq_some_iff_get :
    lastAt k ps = some p
      ↔ ∃ i : Fin ps.length, ps.get i = p ∧ p.Covers k ∧ ∀ j, i < j → ¬(ps.get j).Covers k := by
  rw [lastAt_eq_some_iff]
  constructor
  · rintro ⟨hcovers, before, after, rfl, hafter⟩
    refine ⟨⟨before.length, by simp⟩, by simp, hcovers, ?_⟩
    rintro ⟨j, hj⟩ hlt
    -- what comes later stands among the patches after it
    have hlater : before.length < j := hlt
    obtain ⟨d, rfl⟩ : ∃ d, j = before.length + (d + 1) := ⟨j - before.length - 1, by omega⟩
    have hget : (before ++ p :: after)[before.length + (d + 1)]? = after[d]? := by
      rw [List.getElem?_append_right (by omega), Nat.add_sub_cancel_left, List.getElem?_cons_succ]
    rw [List.getElem?_eq_getElem hj] at hget
    exact hafter _ (List.mem_of_getElem? hget.symm)
  · rintro ⟨⟨i, hi⟩, rfl, hcovers, hlater⟩
    refine ⟨hcovers, ps.take i, ps.drop (i + 1), ?_, ?_⟩
    · rw [List.get_eq_getElem, List.getElem_cons_drop, List.take_append_drop]
    · intro q hq
      obtain ⟨j, hj, rfl⟩ := List.mem_iff_getElem.mp hq
      rw [List.length_drop] at hj
      rw [List.getElem_drop]
      exact hlater ⟨i + 1 + j, by omega⟩ (Fin.mk_lt_mk.mpr (by omega))

/-- Where each part of a list has the same last patch or none, so does the list. -/
theorem lastAt_flatten {parts : List (List Patch)} {o : Option Patch}
    (heach : ∀ ps ∈ parts, lastAt k ps = none ∨ lastAt k ps = o)
    (hsome : ∃ ps ∈ parts, lastAt k ps = o) : lastAt k parts.flatten = o := by
  induction parts with
  | nil =>
    obtain ⟨ps, hps, -⟩ := hsome
    cases hps
  | cons ps rest ih =>
    obtain ⟨hfirst, hothers⟩ := List.forall_mem_cons.mp heach
    rw [List.flatten_cons, lastAt_append]
    by_cases hrest : ∃ qs ∈ rest, lastAt k qs = o
    · rw [ih hothers hrest]
      rcases hfirst with h | h <;> rw [h]
      · exact Option.or_none
      · exact Option.or_self
    · -- then the first part has it, and the others have none
      have hnone : lastAt k rest.flatten = none := by
        rw [lastAt_eq_none_iff]
        intro q hq
        obtain ⟨qs, hqs, hq⟩ := List.mem_flatten.mp hq
        have hqsnone := (hothers qs hqs).resolve_right fun h => hrest ⟨qs, hqs, h⟩
        exact lastAt_eq_none_iff.mp hqsnone q hq
      rw [hnone, Option.none_or]
      obtain ⟨qs, hqs, h⟩ := hsome
      rcases List.mem_cons.mp hqs with rfl | hqs
      · exact h
      · exact absurd ⟨qs, hqs, h⟩ hrest

end LastAt

/-! ## Patches in another order -/

/-- Some byte is covered by both patches. -/
def Patch.Overlaps (p q : Patch) : Prop :=
  ∃ k, p.Covers k ∧ q.Covers k

theorem Patch.overlaps_iff {p q : Patch} :
    p.Overlaps q ↔ p.offset.toNat < q.offset.toNat + q.kind.width
      ∧ q.offset.toNat < p.offset.toNat + p.kind.width := by
  have hp := p.kind.width_pos
  have hq := q.kind.width_pos
  constructor
  · rintro ⟨k, hpk, hqk⟩
    unfold Covers at hpk hqk
    omega
  · intro h
    refine ⟨max p.offset.toNat q.offset.toNat, ?_, ?_⟩
    · unfold Covers
      omega
    · unfold Covers
      omega

instance (p q : Patch) : Decidable (p.Overlaps q) :=
  decidable_of_iff _ Patch.overlaps_iff.symm

/-- The same patches in another order. Patches that overlap keep theirs. -/
def Patch.Rearranged (ps qs : List Patch) : Prop :=
  ∃ σ : Fin ps.length ≃ Fin qs.length, (∀ i, qs.get (σ i) = ps.get i)
    ∧ ∀ i j, i < j → (ps.get i).Overlaps (ps.get j) → σ i < σ j

/-- The section with its patches in another order. -/
structure Section.Rearranged (s s' : Section) : Prop where
  eq : s' = { s with patches := s'.patches }
  patches : Patch.Rearranged s.patches s'.patches

/-- The file with the patches of its sections in another order. -/
structure ObjectFile.Rearranged (f f' : ObjectFile) : Prop where
  eq : f' = { f with sections := f'.sections }
  sections : List.Forall₂ Section.Rearranged f.sections f'.sections

namespace Patch.Rearranged

variable {ps qs : List Patch}

theorem refl (ps : List Patch) : Patch.Rearranged ps ps :=
  ⟨Equiv.refl _, fun _ => rfl, fun _ _ hlt _ => hlt⟩

theorem mem_iff (h : Patch.Rearranged ps qs) {p : Patch} : p ∈ qs ↔ p ∈ ps := by
  obtain ⟨σ, hget, -⟩ := h
  rw [List.mem_iff_get, List.mem_iff_get]
  constructor
  · rintro ⟨j, rfl⟩
    exact ⟨σ.symm j, by rw [← hget, Equiv.apply_symm_apply]⟩
  · rintro ⟨i, rfl⟩
    exact ⟨σ i, hget i⟩

/-- Each byte keeps its last patch: patches that cover it overlap, so they keep their order. -/
theorem lastAt_eq (h : Patch.Rearranged ps qs) (k : ℕ) : lastAt k qs = lastAt k ps := by
  have hmem : ∀ p, p ∈ qs ↔ p ∈ ps := fun p => h.mem_iff
  obtain ⟨σ, hget, horder⟩ := h
  cases hlast : lastAt k ps with
  | none =>
    rw [lastAt_eq_none_iff] at hlast ⊢
    intro q hq
    exact hlast q ((hmem q).mp hq)
  | some p =>
    rw [lastAt_eq_some_iff_get] at hlast ⊢
    obtain ⟨i, rfl, hcovers, hlater⟩ := hlast
    refine ⟨σ i, hget i, hcovers, ?_⟩
    intro j hj hcovers'
    obtain ⟨j, rfl⟩ := σ.surjective j
    rw [hget] at hcovers'
    rcases lt_trichotomy j i with hlt | heq | hgt
    · exact lt_asymm hj (horder j i hlt ⟨k, hcovers', hcovers⟩)
    · rw [heq] at hj
      exact lt_irrefl _ hj
    · exact hlater j hgt hcovers'

end Patch.Rearranged

theorem Section.Rearranged.bare_eq {s s' : Section} (h : s.Rearranged s') : s'.bare = s.bare := by
  rw [h.eq]
  rfl

namespace ObjectFile.Rearranged

variable {f f' : ObjectFile}

theorem refl (f : ObjectFile) : f.Rearranged f :=
  ⟨rfl, List.forall₂_same.mpr fun s _ => ⟨rfl, .refl s.patches⟩⟩

theorem bare_eq (h : f.Rearranged f') : f'.bare = f.bare := by
  have hsections : f'.sections.map Section.bare = f.sections.map Section.bare := by
    rw [← List.forall₂_eq_eq_eq, List.forall₂_map_left_iff, List.forall₂_map_right_iff]
    exact h.sections.flip.imp fun _ _ hs => hs.bare_eq
  have hfile : f'.bare = { f with sections := f'.sections.map Section.bare } := by
    rw [h.eq]
    rfl
  rw [hfile, hsections]
  rfl

theorem exists_rearranged (h : f.Rearranged f') {s : Section} (hs : s ∈ f.sections) :
    ∃ s' ∈ f'.sections, s.Rearranged s' := by
  obtain ⟨i, hi, rfl⟩ := List.mem_iff_getElem.mp hs
  have hi' : i < f'.sections.length := h.sections.length_eq ▸ hi
  exact ⟨_, List.getElem_mem hi', h.sections.get hi hi'⟩

theorem exists_of_mem (h : f.Rearranged f') {s' : Section} (hs' : s' ∈ f'.sections) :
    ∃ s ∈ f.sections, s.Rearranged s' := by
  obtain ⟨i, hi', rfl⟩ := List.mem_iff_getElem.mp hs'
  have hi : i < f.sections.length := h.sections.length_eq ▸ hi'
  exact ⟨_, List.getElem_mem hi, h.sections.get hi hi'⟩

end ObjectFile.Rearranged

/-! ## Runs over rearranged files -/

section Runs

variable {files runs : List ObjectFile}

/-- The patches of rearranged files are those of the files, with bare files in both cases. -/
theorem exists_jobs_of_rearranged (hruns : ∀ f' ∈ runs, ∃ f ∈ files, f.Rearranged f') :
    ∃ jobs : List Job, (∀ job ∈ jobs, job ∈ jobsOf (callsOf files))
      ∧ jobs.map Job.bare = (jobsOf (callsOf runs)).map Job.bare := by
  have horigin : ∀ job ∈ (jobsOf (callsOf runs)).map Job.bare,
      job ∈ Set.range fun job : { job : Job // job ∈ jobsOf (callsOf files) } => job.1.bare := by
    intro job hjob
    obtain ⟨⟨f', s', p⟩, hjob', rfl⟩ := List.mem_map.mp hjob
    obtain ⟨⟨hf', hs'⟩, hp⟩ := mem_jobsOf_callsOf.mp hjob'
    obtain ⟨f, hf, hre⟩ := hruns f' hf'
    obtain ⟨s, hs, hsre⟩ := hre.exists_of_mem hs'
    have hjob := mem_jobsOf_callsOf.mpr ⟨⟨hf, hs⟩, hsre.patches.mem_iff.mp hp⟩
    refine ⟨⟨(f, s, p), hjob⟩, ?_⟩
    show (f.bare, s.bare, p) = (f'.bare, s'.bare, p)
    rw [hre.bare_eq, hsre.bare_eq]
  obtain ⟨jobs, hjobs⟩ : (jobsOf (callsOf runs)).map Job.bare ∈ Set.range (List.map _) := by
    rw [Set.range_list_map]
    exact horigin
  refine ⟨jobs.map Subtype.val, ?_, ?_⟩
  · intro job hjob
    obtain ⟨x, -, rfl⟩ := List.mem_map.mp hjob
    exact x.2
  · rw [List.map_map]
    exact hjobs

/-- The patches of a section among those of all files, file by file. -/
theorem patchesFor_jobsOf_callsOf (key : SectionKey) (files : List ObjectFile) :
    patchesFor key (jobsOf (callsOf files))
      = (files.map fun f => patchesFor key (jobsOf (callsOf [f]))).flatten := by
  induction files with
  | nil => rfl
  | cons f rest ih =>
    have hjobs : jobsOf (callsOf (f :: rest))
        = jobsOf (callsOf [f]) ++ jobsOf (callsOf rest) := by
      simp [jobsOf, callsOf]
    rw [hjobs, patchesFor_append, ih, List.map_cons, List.flatten_cons]

theorem lastAt_of_rearranged {f f' : ObjectFile} {t : Section} (hwell : f.WellFormed)
    (hre : f.Rearranged f') (ht : t ∈ f.sections) (k : ℕ) :
    lastAt k (patchesFor (callKey (f, t)) (jobsOf (callsOf [f']))) = lastAt k t.patches := by
  obtain ⟨t', ht', htre⟩ := hre.exists_rearranged ht
  have hkeys : ((callsOf [f']).map callKey).Nodup := by
    rw [← callKeys_bare, hre.bare_eq, callKeys_bare]
    exact nodup_callKeys (List.forall_mem_singleton.mpr hwell) (List.nodup_singleton _)
  have hkey : callKey (f, t) = callKey (f', t') := by
    show callKey (f.bare, t.bare) = callKey (f'.bare, t'.bare)
    rw [hre.bare_eq, htre.bare_eq]
  rw [hkey, patchesFor_jobsOf hkeys (mem_callsOf.mpr ⟨List.mem_singleton_self f', ht'⟩),
    htre.patches.lastAt_eq]

/-- A run in which each file has its turn leaves each byte its last patch. -/
theorem lastAt_of_runs (hwell : ∀ f ∈ files, f.WellFormed)
    (hindex : (files.map ObjectFile.index).Nodup)
    (hruns : ∀ f' ∈ runs, ∃ f ∈ files, f.Rearranged f')
    (hall : ∀ f ∈ files, ∃ f' ∈ runs, f.Rearranged f') {g : ObjectFile} {t : Section}
    (hg : g ∈ files) (ht : t ∈ g.sections) (k : ℕ) :
    lastAt k (patchesFor (callKey (g, t)) (jobsOf (callsOf runs))) = lastAt k t.patches := by
  rw [patchesFor_jobsOf_callsOf]
  apply lastAt_flatten
  · intro ps hps
    obtain ⟨f', hf', rfl⟩ := List.mem_map.mp hps
    obtain ⟨f, hf, hre⟩ := hruns f' hf'
    by_cases hfg : f = g
    · subst hfg
      exact Or.inr (lastAt_of_rearranged (hwell f hf) hre ht k)
    · -- the file of another number has no patches of the section
      left
      rw [patchesFor_jobsOf_of_not_mem]
      · rfl
      rw [← callKeys_bare, hre.bare_eq, callKeys_bare]
      intro hkey
      obtain ⟨⟨f₁, s⟩, hcall, heq⟩ := List.mem_map.mp hkey
      obtain rfl := List.mem_singleton.mp (mem_callsOf.mp hcall).1
      exact hfg (List.inj_on_of_nodup_map hindex hf hg (congrArg SectionKey.file heq))
  · obtain ⟨g', hg', hre⟩ := hall g hg
    exact ⟨_, List.mem_map_of_mem hg', lastAt_of_rearranged (hwell g hg) hre ht k⟩

end Runs

namespace Linker

variable {lk : Linker} {f f' : ObjectFile} {s s' : Section} {p : Patch}

/-- A patch of a rearranged file is applied if that of the file is. -/
theorem apply_eq_ok_of_rearranged (hf : f.Rearranged f') (hs : s.Rearranged s')
    (h : (lk.apply f s p).2 = .ok ()) : (lk.apply f' s' p).2 = .ok () := by
  rw [apply_eq_ok_iff] at h ⊢
  obtain ⟨value, bytes, hvalue, hbytes⟩ := h
  have hcount : lk.registry.byteCount f' s' = lk.registry.byteCount f s := by
    rw [hf.eq, hs.eq]
    rfl
  refine ⟨value, bytes, ?_, ?_⟩
  · show ((lk.environment f' p).run p.expr).result = .ok value
    rw [environment_of_bare_eq hf.bare_eq]
    exact hvalue
  · unfold patchedBytes at hbytes ⊢
    rw [patchedValue_of_bare_eq hf.bare_eq, hcount]
    exact hbytes

end Linker

/-! ## What the last patches leave -/

namespace Registry

variable {r r₁ r₂ : Registry}

/-- Registries with one outline are equal if their merged sections are. -/
theorem eq_of_outline_eq (houtline : r₂.outline = r₁.outline)
    (h : ∀ (i : ℕ) (m₁ m₂ : Merged), r₁.sections[i]? = some m₁ → r₂.sections[i]? = some m₂ →
      m₂ = m₁) : r₂ = r₁ := by
  have hsections : r₂.sections = r₁.sections := by
    apply Array.ext_getElem?
    intro i
    cases hm₂ : r₂.sections[i]? with
    | none =>
      cases hm₁ : r₁.sections[i]? with
      | none => rfl
      | some m₁ =>
        obtain ⟨m, -, -, hm, -⟩ := section_of_outline_eq houtline.symm hm₁
        rw [hm₂] at hm
        cases hm
    | some m₂ =>
      obtain ⟨m₁, -, -, hm₁, -⟩ := section_of_outline_eq houtline hm₂
      rw [hm₁, h i m₁ m₂ hm₁ hm₂]
  calc r₂ = { r₂.outline with sections := r₂.sections } := rfl
    _ = { r₁.outline with sections := r₁.sections } := by rw [houtline, hsections]
    _ = r₁ := rfl

/-- The bytes of a ROM section are those of its members. -/
theorem Houses.data_ext {calls : List (ObjectFile × Section)} {i : ℕ} {m : Merged}
    (hr : r.Houses calls) (hm : r.sections[i]? = some m) (hkind : m.kind.hasData = true)
    {data₁ data₂ : Array UInt8} (hsize₁ : data₁.size = m.size.toNat)
    (hsize₂ : data₂.size = m.size.toNat)
    (h : ∀ x ∈ m.members, ∀ k < x.content.size.toNat,
      data₂[x.offset.toNat + k]? = data₁[x.offset.toNat + k]?) : data₂ = data₁ := by
  apply Array.ext_getElem?
  intro k
  by_cases hk : k < m.size.toNat
  · have hconsecutive := hr.consecutive m (Array.mem_of_getElem? hm) hkind
    obtain ⟨x, hx, hlow, hhigh⟩ := hconsecutive.exists_holds (Nat.zero_le k) hk
    have hbyte := h x (Array.mem_toList_iff.mp hx) (k - x.offset.toNat) (by omega)
    rw [Nat.add_sub_cancel' hlow] at hbyte
    exact hbyte
  · rw [Array.getElem?_eq_none (by omega), Array.getElem?_eq_none (by omega)]

end Registry

namespace Linker

variable {lk : Linker} {f f' g : ObjectFile} {p : Patch} {k : ℕ}

section Run

variable {calls : List (ObjectFile × Section)} {r r₁ r₂ : Registry} {jobs₁ jobs₂ : List Job}

/-- Patches change the data of ROM sections and nothing else. -/
theorem Patched.section_eq (h : lk.Patched r jobs₁ r₁) (hr : r.Houses calls)
    (hfilled : r.Filled) (hjobs : JobsInside calls jobs₁) {i : ℕ} {m : Merged}
    (hm : r.sections[i]? = some m) :
    ∃ data, r₁.sections[i]? = some { m with data } ∧ (m.kind.hasData = false → data = m.data) := by
  induction h generalizing m with
  | nil r => exact ⟨m.data, hm, fun _ => rfl⟩
  | @cons r r' f s p bytes rest encodes _ ih =>
    obtain ⟨⟨hs, hdata, hfits⟩, hrest⟩ := hjobs.of_cons encodes
    obtain ⟨j, n, x, hw⟩ := hr.window f s hs
    have hsections := (Registry.writeInto_eq hw hr hfilled hdata hfits).2 i
    have hhouses := hr.of_outline_eq (outline_writeInto r f s p.offset.toNat bytes)
    have hfilled' := hfilled.writeInto hr hs hdata hfits
    by_cases hij : i = j
    · subst hij
      obtain rfl : n = m := Option.some.inj (hw.section_eq.symm.trans hm)
      rw [if_pos rfl] at hsections
      obtain ⟨data, hm', -⟩ := ih hhouses hfilled' hrest hsections
      refine ⟨data, hm', fun hnone => ?_⟩
      rw [hw.hasData_eq, hdata] at hnone
      cases hnone
    · rw [if_neg hij, hm] at hsections
      exact ih hhouses hfilled' hrest hsections

/-- The last patches decide what a run leaves. -/
theorem Patched.unique (h₁ : lk.Patched r jobs₁ r₁) (h₂ : lk.Patched r jobs₂ r₂)
    (hr : r.Houses calls) (hfilled : r.Filled) (hjobs₁ : JobsInside calls jobs₁)
    (hjobs₂ : JobsInside calls jobs₂)
    (hlast : ∀ g t, (g, t) ∈ calls → ∀ k, lastAt k (patchesFor (callKey (g, t)) jobs₂)
      = lastAt k (patchesFor (callKey (g, t)) jobs₁)) : r₂ = r₁ := by
  apply Registry.eq_of_outline_eq (h₂.outline_eq.trans h₁.outline_eq.symm)
  intro i m₁ m₂ hm₁ hm₂
  obtain ⟨m, -, -, hm, -⟩ := Registry.section_of_outline_eq h₁.outline_eq hm₁
  obtain ⟨data₁, hdata₁, hkept₁⟩ := h₁.section_eq hr hfilled hjobs₁ hm
  obtain ⟨data₂, hdata₂, hkept₂⟩ := h₂.section_eq hr hfilled hjobs₂ hm
  obtain rfl := Option.some.inj (hm₁.symm.trans hdata₁)
  obtain rfl := Option.some.inj (hm₂.symm.trans hdata₂)
  suffices hdata : data₂ = data₁ by rw [hdata]
  cases hkind : m.kind.hasData with
  | false => rw [hkept₁ hkind, hkept₂ hkind]
  | true =>
    have hsize₁ := h₁.filled hr hfilled hjobs₁ _ (Array.mem_of_getElem? hm₁) hkind
    have hsize₂ := h₂.filled hr hfilled hjobs₂ _ (Array.mem_of_getElem? hm₂) hkind
    refine hr.data_ext hm hkind hsize₁ hsize₂ fun x hx k hk => ?_
    obtain ⟨hcall, hw⟩ := hr.resident hm x hx
    have hafter₁ := h₁.byteAt hr hfilled hjobs₁ hcall hk
    have hafter₂ := h₂.byteAt hr hfilled hjobs₂ hcall hk
    have hbyte := hafter₁.unique hafter₂ (hlast x.file x.content hcall k)
    rw [(hw.of_outline_eq h₁.outline_eq hm₁).byteAt_eq,
      (hw.of_outline_eq h₂.outline_eq hm₂).byteAt_eq] at hbyte
    exact hbyte

end Run

/-- The value of a patch depends neither on merged bytes nor on data and patches of its file. -/
theorem evaluate_of_outline_eq {lk' : Linker} (houtline : lk'.outline = lk.outline)
    (hbare : f'.bare = f.bare) : (lk'.evaluate f' p).2 = (lk.evaluate f p).2 := by
  show ((lk'.environment f' p).run p.expr).result = ((lk.environment f p).run p.expr).result
  rw [environment_of_bare_eq hbare, ← lk'.environment_outline, houtline, lk.environment_outline]

/-- Collecting and placing files without a problem is a way of placing them. -/
theorem places_afterAssigning {map : MemoryMap} {warnings : WarningOptions}
    {files : List ObjectFile} (hwell : ∀ f ∈ files, f.WellFormed)
    (hmerged : (files.foldl addFile (start map warnings files)).Clean)
    (hassigned : (start map warnings files).afterMerging.noteUnresolved.assign.Clean) :
    (Registry.addAll {} (callsOf files)).Places
      (start map warnings files).afterAssigning.registry := by
  rw [(afterAssigning_spec _).1, ← (unresolved_of_clean hmerged).1]
  exact places_of_clean (assignable_collected hwell hmerged) hassigned

/-- **The order of patches.** Let files be decoded ones, numbered apart as loading does, with
sections whose sizes fit into a word together, that are merged without a conflict and placed
anywhere, and let all their patches be applied. Take the files in any order, some of them more than
once, with the patches of sections in any order that keeps overlapping ones in theirs. Patching them
leaves the same merged sections, byte for byte, as patching the files in their order: the value of
a patch is the same whatever bytes the sections hold. -/
theorem registry_of_rearranged {files runs : List ObjectFile}
    (hdecoded : ∀ f ∈ files, ∃ name input rest, Object.decode name f.index input = .ok (f, rest))
    (hindex : (files.map ObjectFile.index).Nodup) (htotal : totalSize (callsOf files) < 2 ^ 32)
    (hmerged : Registry.AllMerged {} (callsOf files))
    (hplaced : (Registry.addAll {} (callsOf files)).Places lk.registry)
    (happlied : ∀ f ∈ files, ∀ s ∈ f.sections, ∀ p ∈ s.patches, (lk.apply f s p).2 = .ok ())
    (hruns : ∀ f' ∈ runs, ∃ f ∈ files, f.Rearranged f')
    (hall : ∀ f ∈ files, ∃ f' ∈ runs, f.Rearranged f') :
    (∃ lk₁ lk₂, lk.forFiles applyFile files = (lk₁, .ok ())
      ∧ lk.forFiles applyFile runs = (lk₂, .ok ()) ∧ lk₂.registry = lk₁.registry)
    ∧ ∀ (lk' : Linker) (f f' : ObjectFile) (p : Patch), lk'.outline = lk.outline →
      f'.bare = f.bare → (lk'.evaluate f' p).2 = (lk.evaluate f p).2 := by
  have hwell := Object.wellFormed_of_decoded hdecoded
  have hwellCalls : ∀ call ∈ callsOf files, call.2.WellFormed := by
    rintro ⟨f, s⟩ hcall
    obtain ⟨hf, hs⟩ := mem_callsOf.mp hcall
    exact (hwell f hf).wellFormed s hs
  have hkeys := nodup_callKeys hwell hindex
  have hcollected := Registry.collected_addAll hmerged hwellCalls hkeys htotal
  have hhouses := Registry.houses_of_collected hcollected hkeys hplaced
  have hfilled := Registry.filled_of_collected hcollected hplaced hwellCalls
  have hinside := jobsInside_jobsOf hwellCalls
  have happlied' : ∀ f' ∈ runs, ∀ s' ∈ f'.sections, ∀ p ∈ s'.patches,
      (lk.apply f' s' p).2 = .ok () := by
    intro f' hf' s' hs' p hp
    obtain ⟨f, hf, hre⟩ := hruns f' hf'
    obtain ⟨s, hs, hsre⟩ := hre.exists_of_mem hs'
    exact apply_eq_ok_of_rearranged hre hsre (happlied f hf s hs p (hsre.patches.mem_iff.mp hp))
  refine ⟨?_, fun lk' f f' p => evaluate_of_outline_eq⟩
  obtain ⟨lk₁, hrun₁, -, hpatched₁⟩ := (SameView.refl lk).exists_forFiles happlied
  obtain ⟨lk₂, hrun₂, -, hpatched₂⟩ := (SameView.refl lk).exists_forFiles happlied'
  -- the second run seen as a run of patches of the files
  obtain ⟨jobs, hjobs, hbare⟩ := exists_jobs_of_rearranged hruns
  have hpatched := hpatched₂.of_bare_eq hbare
  have hinside' : JobsInside (callsOf files) jobs := fun f s p hjob => hinside f s p (hjobs _ hjob)
  refine ⟨lk₁, lk₂, hrun₁, hrun₂, hpatched₁.unique hpatched hhouses hfilled hinside hinside' ?_⟩
  intro g t hcall k
  obtain ⟨hg, ht⟩ := mem_callsOf.mp hcall
  rw [← patchesFor_bare, hbare, patchesFor_bare, patchesFor_jobsOf hkeys hcall]
  exact lastAt_of_runs hwell hindex hruns hall hg ht k

/-- A file with a table of four bytes and a label for it. -/
def tableFile (patches : List Patch) : ObjectFile :=
  { name := "t", index := 0
    symbols := [⟨"m", .exported, some ⟨none, 1⟩, some 0, 0⟩]
    sections :=
      [{ id := 0, name := "a", source := some ⟨none, 1⟩, kind := .rom0, modifier := .normal,
         size := 4, org := none, bank := none, align := 0, alignOffset := 0, data := [0, 0, 0, 0],
         patches }] }

/-- A word, a byte over its upper half, and the address of the table. -/
def tablePatches : List Patch :=
  [⟨some ⟨none, 2⟩, 0, some 0, 0, .word, [0x80, 0x34, 0x12, 0, 0]⟩,
   ⟨some ⟨none, 2⟩, 1, some 0, 0, .byte, [0x80, 0x56, 0, 0, 0]⟩,
   ⟨some ⟨none, 2⟩, 3, some 0, 0, .byte, [0x81, 0, 0, 0, 0]⟩]

/-- The file with these patches in its written form. -/
def tableBytes : Bytes :=
  [0x52, 0x4C, 0x4E, 0x4B, 1, 0, 0, 0, 1, 0, 0, 0, 1, 0, 0, 0, 0, 0, 0, 0,
  -- the symbol
  0x6D, 0, 2, 0xFF, 0xFF, 0xFF, 0xFF, 1, 0, 0, 0, 0, 0, 0, 0, 0, 0, 0, 0,
  -- the section, its data and its patches
  0x61, 0, 0xFF, 0xFF, 0xFF, 0xFF, 1, 0, 0, 0, 4, 0, 0, 0, 3, 0xFF, 0xFF, 0xFF, 0xFF, 0xFF, 0xFF,
  0xFF, 0xFF, 0, 0, 0, 0, 0, 0, 0, 0, 0, 3, 0, 0, 0,
  0xFF, 0xFF, 0xFF, 0xFF, 2, 0, 0, 0, 0, 0, 0, 0, 0, 0, 0, 0, 0, 0, 0, 0, 1, 5, 0, 0, 0,
  0x80, 0x34, 0x12, 0, 0,
  0xFF, 0xFF, 0xFF, 0xFF, 2, 0, 0, 0, 1, 0, 0, 0, 0, 0, 0, 0, 0, 0, 0, 0, 0, 5, 0, 0, 0,
  0x80, 0x56, 0, 0, 0,
  0xFF, 0xFF, 0xFF, 0xFF, 2, 0, 0, 0, 3, 0, 0, 0, 0, 0, 0, 0, 0, 0, 0, 0, 0, 5, 0, 0, 0,
  0x81, 0, 0, 0, 0,
  -- no assertions
  0, 0, 0, 0]

theorem decode_tableBytes :
    Object.decode "t" 0 tableBytes = .ok (tableFile tablePatches, []) := by
  rfl

/-- The address can be written first. The word and the byte over it keep their order. -/
theorem rearranged_tableFile :
    (tableFile tablePatches).Rearranged (tableFile (tablePatches.rotate 2)) := by
  refine ⟨rfl, .cons ⟨rfl, finRotate 3, ?_, ?_⟩ .nil⟩
  · decide
  · decide

/-- The table and the file that calls it. -/
def tableFiles : List ObjectFile :=
  [tableFile tablePatches, callFile]

set_option maxRecDepth 4000 in
theorem clean_tableFiles :
    (tableFiles.foldl addFile (start {} {} tableFiles)).Clean
      ∧ (start {} {} tableFiles).afterMerging.noteUnresolved.assign.Clean := by
  unfold Clean
  refine ⟨?_, ?_⟩
  · cbv
  · cbv

set_option maxRecDepth 4000 in
theorem apply_tableFiles : ∀ f ∈ tableFiles, ∀ s ∈ f.sections, ∀ p ∈ s.patches,
    ((start {} {} tableFiles).afterAssigning.apply f s p).2 = .ok () := by
  intro f hf s hs p hp
  rcases List.mem_pair.mp hf with rfl | rfl
  · obtain rfl := List.mem_singleton.mp hs
    rcases List.mem_cons.mp hp with rfl | hp
    · cbv
    rcases List.mem_pair.mp hp with rfl | rfl
    · cbv
    · cbv
  · obtain rfl := List.mem_singleton.mp hs
    obtain rfl := List.mem_singleton.mp hp
    cbv

/-- The files can be patched the other way round, one of them twice. -/
theorem registry_of_rearranged_tableFiles :
    ∃ lk₁ lk₂, (start {} {} tableFiles).afterAssigning.forFiles applyFile tableFiles
        = (lk₁, .ok ())
      ∧ (start {} {} tableFiles).afterAssigning.forFiles applyFile
          [callFile, tableFile (tablePatches.rotate 2), callFile] = (lk₂, .ok ())
      ∧ lk₂.registry = lk₁.registry := by
  have hdecoded : ∀ f ∈ tableFiles, ∃ name input rest,
      Object.decode name f.index input = .ok (f, rest) := by
    intro f hf
    rcases List.mem_pair.mp hf with rfl | rfl
    · exact ⟨_, _, _, decode_tableBytes⟩
    · exact ⟨_, _, _, decode_callBytes⟩
  have hwell := Object.wellFormed_of_decoded hdecoded
  obtain ⟨hmerged, hassigned⟩ := clean_tableFiles
  refine (registry_of_rearranged hdecoded (by decide) (by decide)
    (clean_merged_iff.mp hmerged).2 (places_afterAssigning hwell hmerged hassigned)
    apply_tableFiles ?_ ?_).1
  · intro f' hf'
    rcases List.mem_cons.mp hf' with rfl | hf'
    · exact ⟨callFile, by simp [tableFiles], .refl callFile⟩
    rcases List.mem_pair.mp hf' with rfl | rfl
    · exact ⟨_, List.mem_cons_self, rearranged_tableFile⟩
    · exact ⟨callFile, by simp [tableFiles], .refl callFile⟩
  · intro f hf
    rcases List.mem_pair.mp hf with rfl | rfl
    · exact ⟨_, List.mem_cons_of_mem _ List.mem_cons_self, rearranged_tableFile⟩
    · exact ⟨callFile, List.mem_cons_self, .refl callFile⟩

end Linker

end BankedLinker
