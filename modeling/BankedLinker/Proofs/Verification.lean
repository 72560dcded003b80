import BankedLinker.Output.Verify
import BankedLinker.Proofs.Accounting
import BankedLinker.Proofs.Image

/-!
# The verifier and the image

The verifier reads an image back section by section. It accepts exactly the images that agree with
the written one wherever a section is stored, so that every change of a stored byte is noticed and
no change between the sections is.

* `Rom.verifyFrom_eq_ok_iff`: the verifier accepts an image that shows every stored section;
* `Rom.shows_iff`: a section is shown if its bytes stand at the positions that it occupies;
* `Rom.verify_eq_ok_iff_agrees` compares with the image of sections that are seated and apart;
* `Placement.pairwise_not_occupies_after`: sections that an assignment places are apart;
* `Placement.verify_image_of_assign` is the result.
-/

namespace BankedLinker

namespace Rom

variable {map : MemoryMap} {sections : List Merged} {m : Merged} {rom : Array UInt8}

/-! ## What the verifier accepts -/

theorem mismatches_eq_nil_iff {expected found : Bytes} (hlength : expected.length = found.length) :
    mismatches expected found = [] ↔ expected = found := by
  unfold mismatches
  rw [List.filterMap_eq_nil_iff]
  constructor
  · intro h
    refine List.ext_getElem hlength fun i hi hi' => ?_
    have hmem : ((expected[i], found[i]), i) ∈ (expected.zip found).zipIdx := by
      rw [List.mem_zipIdx_iff_getElem?, List.getElem?_eq_getElem (by simp [hi, hi']),
        List.getElem_zip]
    by_contra hne
    have hnone := h _ hmem
    dsimp only at hnone
    rw [if_neg hne] at hnone
    cases hnone
  · rintro rfl ⟨⟨e, f⟩, i⟩ hmem
    obtain ⟨-, hi, hpair⟩ := List.mem_zipIdx hmem
    rw [List.getElem_zip, Prod.mk.injEq] at hpair
    exact if_pos (hpair.1.trans hpair.2.symm)

theorem difference?_eq_none_iff {expected found : Bytes} :
    difference? expected found = none ↔ expected = found := by
  unfold difference?
  by_cases hlength : expected.length = found.length
  · rw [if_neg (not_not.mpr hlength), ← mismatches_eq_nil_iff hlength]
    cases mismatches expected found with
    | nil => exact iff_of_true rfl rfl
    | cons d rest => exact iff_of_false (Option.some_ne_none _) (List.cons_ne_nil d rest)
  · rw [if_pos hlength]
    exact iff_of_false (Option.some_ne_none _) fun h => hlength (congrArg List.length h)

/-- The image reaches to the end of the section and has the bytes of the section in its place. -/
def Shows (map : MemoryMap) (rom : Array UInt8) (m : Merged) : Prop :=
  position map m + m.size.toNat ≤ rom.size
    ∧ slice rom (position map m) (position map m + m.size.toNat) = m.data.toList

theorem verifyFrom_eq_ok_iff {failed : ℕ} : (verifyFrom map rom failed sections).2 = .ok ()
    ↔ failed = 0 ∧ ∀ m ∈ sections, isStored m = true → Shows map rom m := by
  induction sections generalizing failed with
  | nil =>
    unfold verifyFrom
    by_cases hfailed : failed = 0
    · simp [hfailed]
    · simp [hfailed]
  | cons m rest ih =>
    rw [List.forall_mem_cons, verifyFrom]
    by_cases hstored : isStored m = true
    · rw [if_pos hstored, imp_iff_right hstored]
      dsimp only
      by_cases hshort : rom.size < position map m + m.size.toNat
      · rw [if_pos hshort]
        exact iff_of_false nofun fun h => absurd h.2.1.1 (Nat.not_le.mpr hshort)
      · rw [if_neg hshort]
        cases hdiffer : difference? m.data.toList
            (slice rom (position map m) (position map m + m.size.toNat)) with
        | none =>
          have hshown : Shows map rom m :=
            ⟨Nat.not_lt.mp hshort, (difference?_eq_none_iff.mp hdiffer).symm⟩
          rw [ih, and_iff_right hshown]
        | some d =>
          have hhidden : ¬Shows map rom m := by
            intro hshown
            rw [difference?_eq_none_iff.mpr hshown.2.symm] at hdiffer
            cases hdiffer
          -- a difference is counted, and the count never goes back to zero
          exact iff_of_false (fun h => absurd (ih.mp h).1 (Nat.succ_ne_zero _))
            fun h => hhidden h.2.1
    · rw [if_neg hstored, ih, and_iff_right fun h => absurd h hstored]

/-! ## Agreement with the image -/

/-- Two images have the same bytes wherever a section is stored. -/
def Agrees (map : MemoryMap) (sections : List Merged) (rom rom' : Array UInt8) : Prop :=
  ∀ m ∈ sections, ∀ k, Occupies map m k → rom[k]? = rom'[k]?

/-- A stored section is shown if its bytes stand at the positions that it occupies. -/
theorem shows_iff (hstored : isStored m = true) (hdata : m.data.size = m.size.toNat)
    (hfits : position map m + m.data.size ≤ rom.size) :
    Shows map rom m ↔ ∀ k, Occupies map m k → rom[k]? = m.data[k - position map m]? := by
  unfold Shows slice
  rw [← hdata, and_iff_right hfits, Array.toList_inj]
  constructor
  · rintro heq k ⟨-, hlow, hhigh⟩
    rw [← heq, Array.getElem?_extract, if_pos (by omega), Nat.add_sub_cancel' hlow]
  · intro h
    refine Array.ext (by rw [Array.size_extract]; omega) fun i hi hi' => ?_
    have hbyte := h (position map m + i) ⟨hstored, by omega, by omega⟩
    rw [Nat.add_sub_cancel_left, Array.getElem?_eq_getElem hi'] at hbyte
    rw [Array.getElem_extract]
    exact Option.some.inj ((Array.getElem?_eq_getElem _).symm.trans hbyte)

/-! Sections that are not stored do not matter for the image. -/

theorem bankCount_filter (map : MemoryMap) (sections : List Merged) :
    bankCount map (sections.filter isStored) = bankCount map sections := by
  have hfilter : ((sections.filter isStored).filter fun m => m.kind = .romx && m.placed)
      = sections.filter fun m => m.kind = .romx && m.placed := by
    rw [List.filter_filter]
    refine List.filter_congr fun m _ => ?_
    unfold isStored RegionKind.hasData
    by_cases hkind : m.kind = .romx
    · simp [hkind]
    · simp [hkind]
  unfold bankCount
  dsimp only
  rw [hfilter]

theorem size_filter (map : MemoryMap) (sections : List Merged) :
    size map (sections.filter isStored) = size map sections := by
  unfold size
  rw [bankCount_filter]

theorem image_filter (map : MemoryMap) (pad : UInt8) (sections : List Merged) :
    image map pad (sections.filter isStored) = image map pad sections := by
  unfold image
  rw [size_filter, List.foldl_filter]
  congr 1
  funext buffer m
  unfold store
  split <;> rfl

/-- **The verifier compares with the image.** If the stored sections are seated and apart, an image
of the right size is accepted exactly if it agrees with the image of the sections. -/
theorem verify_eq_ok_iff_agrees (hseated : ∀ m ∈ sections, isStored m = true → Seated map m)
    (hapart : sections.Pairwise fun m n => ∀ k, ¬(Occupies map m k ∧ Occupies map n k))
    (pad : UInt8) (rom : Array UInt8) (hsize : rom.size = (image map pad sections).size) :
    (verify map rom sections).2 = .ok () ↔ Agrees map sections rom (image map pad sections) := by
  have hseated' : ∀ m ∈ sections.filter isStored, Seated map m := fun m hm =>
    hseated m (List.mem_of_mem_filter hm) (List.of_mem_filter hm)
  unfold verify
  rw [verifyFrom_eq_ok_iff, and_iff_right rfl]
  refine forall₂_congr fun m hm => ?_
  by_cases hstored : isStored m = true
  · have hmem : m ∈ sections.filter isStored := List.mem_filter.mpr ⟨hm, hstored⟩
    have hfits : position map m + m.data.size ≤ rom.size := by
      rw [hsize, size_image, ← size_filter]
      exact Seated.stop_le_size hseated' hmem hstored
    rw [imp_iff_right hstored,
      shows_iff hstored ((hseated m hm hstored).data_size (hasData_of_isStored hstored)) hfits]
    refine forall₂_congr fun k hk => ?_
    rw [← image_filter, getElem?_image_of_occupied hseated' (hapart.filter _) hmem hk]
  · exact iff_of_true (fun h => absurd h hstored) fun k hk => absurd hk.1 hstored

end Rom

/-! ## Sections that were placed -/

namespace Placement

open Rom (Seated Occupies Agrees)

variable {map : MemoryMap} {sections : List Merged} {outcomes : List Outcome}

theorem Settled.seated {done : List Outcome} {m : Merged} {loc : Location}
    (h : Settled map done m loc) (hdata : m.kind.hasData = true → m.data.size = m.size.toNat) :
    Seated map (m.place loc.org loc.bank) :=
  ⟨h.hasBank, h.start_le, h.stop_le, hdata⟩

section Assigned

variable (hperm : outcomes.Perm (assign map sections))
  (halign : ∀ m ∈ sections, m.align.toNat ≤ 16)

include hperm halign

theorem pairwise_apartFrom_assign : outcomes.Pairwise Outcome.ApartFrom :=
  (hperm.pairwise_iff symm).mpr (assign_settled halign).pairwise_apartFrom

variable (hdata : ∀ m ∈ sections, m.kind.hasData = true → m.data.size = m.size.toNat)
  (hplaced : ∀ o ∈ outcomes, o.after.placed = true → ∃ loc, o.result = .ok loc)

include hdata hplaced

theorem seated_after {o : Outcome} (ho : o ∈ outcomes) (hstored : Rom.isStored o.after = true) :
    Seated map o.after := by
  obtain ⟨loc, hok⟩ := hplaced o ho (Rom.placed_of_isStored hstored)
  obtain ⟨done, hsettled⟩ := exists_settled hperm halign ho hok
  have hmem : o.subject ∈ sections := subject_mem_of_mem_assign (hperm.mem_iff.mp ho)
  rw [Outcome.after_of_ok hok]
  exact hsettled.seated (hdata _ hmem)

/-- No position of the image belongs to two of the sections. -/
theorem pairwise_not_occupies_after : (outcomes.map Outcome.after).Pairwise
    fun m n => ∀ k, ¬(Occupies map m k ∧ Occupies map n k) := by
  rw [List.pairwise_map]
  refine (pairwise_apartFrom_assign hperm halign).imp_of_mem fun {o p} ho hp hapart k hboth => ?_
  have hoseated := seated_after hperm halign hdata hplaced ho hboth.1.1
  have hpseated := seated_after hperm halign hdata hplaced hp hboth.2.1
  obtain ⟨loc, hok⟩ := hplaced o ho (Rom.placed_of_isStored hboth.1.1)
  obtain ⟨loc', hok'⟩ := hplaced p hp (Rom.placed_of_isStored hboth.2.1)
  rw [Outcome.after_of_ok hok] at hoseated hboth
  rw [Outcome.after_of_ok hok'] at hpseated hboth
  refine hoseated.not_occupies_both hpseated ?_ k hboth
  exact fun hsize hsize' hkind hbank => hapart loc loc' hok hok' hkind hbank hsize hsize'

end Assigned

/-- **Writer and verifier agree.** Let an assignment place sections whose data is complete. The
image of the placed sections, in whatever order they stand and whatever the pad byte is, passes the
verification; and another image of its size passes exactly if it has the same bytes wherever a
placed ROM section has data, so that a change of such a byte is noticed and no other change is. -/
theorem verify_image_of_assign (hperm : outcomes.Perm (assign map sections))
    (halign : ∀ m ∈ sections, m.align.toNat ≤ 16)
    (hdata : ∀ m ∈ sections, m.kind.hasData = true → m.data.size = m.size.toNat)
    (hplaced : ∀ o ∈ outcomes, o.after.placed = true → ∃ loc, o.result = .ok loc) (pad : UInt8) :
    (Rom.verify map (Rom.image map pad (outcomes.map Outcome.after))
      (outcomes.map Outcome.after)).2 = .ok ()
    ∧ ∀ rom : Array UInt8,
      rom.size = (Rom.image map pad (outcomes.map Outcome.after)).size →
      ((Rom.verify map rom (outcomes.map Outcome.after)).2 = .ok ()
        ↔ Agrees map (outcomes.map Outcome.after) rom
          (Rom.image map pad (outcomes.map Outcome.after))) := by
  have hseated : ∀ m ∈ outcomes.map Outcome.after, Rom.isStored m = true → Seated map m := by
    intro m hm hstored
    obtain ⟨o, ho, rfl⟩ := List.mem_map.mp hm
    exact seated_after hperm halign hdata hplaced ho hstored
  have hapart := pairwise_not_occupies_after hperm halign hdata hplaced
  have hverify := Rom.verify_eq_ok_iff_agrees hseated hapart pad
  exact ⟨(hverify _ rfl).mpr fun m _ k _ => rfl, hverify⟩

/-- Both sections of the pair are stored, and the verifier accepts their image and what agrees
with it there. -/
theorem verify_image_of_assign_romPair : ∃ placed,
    (assign {} Linker.romPair.sections).map Outcome.after = placed
      ∧ (placed.map fun m => (Rom.isStored m, m.org, m.size)) = [(true, 0, 3), (true, 16, 16)]
      ∧ (Rom.verify {} (Rom.image {} 0xFF placed) placed).2 = .ok ()
      ∧ ∀ rom : Array UInt8, rom.size = (Rom.image {} 0xFF placed).size →
        ((Rom.verify {} rom placed).2 = .ok ()
          ↔ Agrees {} placed rom (Rom.image {} 0xFF placed)) := by
  obtain ⟨m, n, hsections, halign, hdata, hunplaced⟩ : ∃ m n, Linker.romPair.sections = [m, n]
      ∧ (m.align, n.align) = (0, 4)
      ∧ (m.data.size = m.size.toNat ∧ n.data.size = n.size.toNat)
      ∧ (m.placed, n.placed) = (false, false) :=
    ⟨_, _, by cbv, rfl, ⟨rfl, rfl⟩, rfl⟩
  obtain ⟨halign, halign'⟩ := Prod.mk.inj halign
  obtain ⟨hunplaced, hunplaced'⟩ := Prod.mk.inj hunplaced
  have hvia := verify_image_of_assign (List.Perm.refl (assign {} Linker.romPair.sections))
    (by simp [hsections, halign, halign']) (by simp [hsections, hdata.1, hdata.2])
    (fun o ho => Outcome.exists_ok_of_placed ?_) 0xFF
  · exact ⟨_, rfl, by cbv, hvia⟩
  · have hmem := (subjects_assign {} Linker.romPair.sections).mem_iff.mp (List.mem_map_of_mem ho)
    rw [hsections, List.mem_pair] at hmem
    obtain h | h := hmem
    · rw [h, hunplaced]
    · rw [h, hunplaced']

end Placement

end BankedLinker
