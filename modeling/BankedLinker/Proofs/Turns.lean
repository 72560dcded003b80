import BankedLinker.Proofs.Priority

/-!
# The turn of a section

An assignment settles its sections one after the other: the impossible ones first, then the fixed
ones in the order of their addresses, then the others. This file says what the ledger holds when
the turn of a section comes, so that what becomes of the section can be told from the outcomes
before it, whatever the alignments are.

* `Ledger.Current`: free addresses and occupants are what the outcomes so far leave of them;
* `Placement.Keeps` is what a step has to do for that, `Placement.keeps_placeFixed` and
  `Placement.keeps_placeFloating` are the steps, `Placement.current_placeAll` is the run;
* `Placement.assign_eq_stages` takes an assignment apart into its three stages;
* `Placement.turn_of_assign`: every outcome of an assignment is that of a turn;
* `Placement.pairwise_assign`: what stands in front of a fixed section.
-/

namespace BankedLinker

open Placement

/-! ## The ledger -/

/-- The ledger is up to date with the outcomes so far: it accounts for their addresses, and the
occupants of a bank are the sections with addresses that found a place in it. -/
structure Ledger.Current (map : MemoryMap) (done : List Outcome) (l : Ledger) : Prop where
  map_eq : l.map = map
  accounts : l.Accounts done
  mem_used_iff : ∀ kind bank x, x ∈ (l.space ⟨kind, bank⟩).used ↔ x.user.kind = kind
    ∧ x.user.size ≠ 0 ∧ ∃ org : UInt16, ⟨x.user, .ok ⟨org, bank⟩⟩ ∈ done
      ∧ x.span = extent x.user org.toNat

namespace Ledger

variable {map : MemoryMap} {done : List Outcome} {l : Ledger}

theorem current_empty (map : MemoryMap) : ({ map } : Ledger).Current map [] where
  map_eq := rfl
  accounts := accounts_empty map
  mem_used_iff kind bank x := by
    rw [space_empty]
    simp [BankSpace.fresh]

/-- An outcome that takes no address leaves the ledger up to date. -/
theorem Current.concat_of_empty (h : l.Current map done) {o : Outcome}
    (ho : ∀ loc, o.result = .ok loc → o.subject.size = 0) : l.Current map (done ++ [o]) where
  map_eq := h.map_eq
  accounts := by
    apply h.accounts.append_of_not_uses
    intro kind bank a huses
    rcases huses with ⟨loc, hok, -, -, ha⟩
    simp only [Span.Has, extent, ho loc hok, UInt32.toNat_zero] at ha
    omega
  mem_used_iff kind bank x := by
    rw [h.mem_used_iff]
    -- an occupant has addresses, so that it is not the one that was added
    have hnew : ∀ org : UInt16, x.user.size ≠ 0 → (⟨x.user, .ok ⟨org, bank⟩⟩ : Outcome) ≠ o := by
      intro org hsize heq
      exact hsize (by simpa [← heq] using ho ⟨org, bank⟩ (by rw [← heq]))
    simp only [List.mem_append, List.mem_singleton]
    refine and_congr_right fun _ => and_congr_right fun hsize => exists_congr fun org => ?_
    simp [hnew org hsize]

theorem Current.append_of_error (h : l.Current map done) {outcomes : List Outcome}
    (ho : ∀ o ∈ outcomes, ∃ e, o.result = .error e) : l.Current map (done ++ outcomes) := by
  induction outcomes generalizing done with
  | nil => simpa using h
  | cons o rest ih =>
    rw [List.forall_mem_cons] at ho
    rcases ho.1 with ⟨e, he⟩
    simpa using ih (h.concat_of_empty (o := o) (by simp [he])) ho.2

/-- Reserving the addresses of a section brings the ledger up to date with its outcome. -/
theorem Current.update (h : l.Current map done) (m : Merged) (loc : Location) {b : BankSpace}
    (hb : (l.space ⟨m.kind, loc.bank⟩).reserve (extent m loc.org.toNat) m = some b) :
    (l.update ⟨m.kind, loc.bank⟩ b).Current map (done ++ [⟨m, .ok loc⟩]) where
  map_eq := h.map_eq
  accounts := h.accounts.update m loc hb
  mem_used_iff kind bank x := by
    have hsize : (extent m loc.org.toNat).start < (extent m loc.org.toNat).stop ↔ m.size ≠ 0 := by
      simp only [extent, ne_eq, ← UInt32.toNat_inj, UInt32.toNat_zero]
      omega
    rw [space_update]
    simp only [List.mem_append, List.mem_singleton, Outcome.mk.injEq, Except.ok.injEq]
    split
    · next hkey =>
      rcases BankKey.mk.inj hkey with ⟨rfl, rfl⟩
      rw [BankSpace.mem_used_reserve_iff hb, h.mem_used_iff, hsize]
      constructor
      · intro hx
        rcases hx with ⟨hne, rfl⟩ | ⟨hkind, hne, org, hmem, hspan⟩
        · exact ⟨rfl, hne, loc.org, Or.inr ⟨rfl, rfl⟩, rfl⟩
        · exact ⟨hkind, hne, org, Or.inl hmem, hspan⟩
      · intro hx
        rcases hx with ⟨hkind, hne, org, hmem | ⟨huser, hloc⟩, hspan⟩
        · exact Or.inr ⟨hkind, hne, org, hmem, hspan⟩
        · subst huser
          rw [← hloc, ← hspan]
          exact Or.inl ⟨hne, rfl⟩
    · next hkey =>
      rw [h.mem_used_iff]
      -- the section is no occupant of another bank
      have hother : ∀ org : UInt16, x.user.kind = kind → ¬(x.user = m ∧ ⟨org, bank⟩ = loc) := by
        intro org hkind hnew
        rcases hnew with ⟨rfl, rfl⟩
        exact hkey (by rw [hkind])
      refine and_congr_right fun hkind => and_congr_right fun _ => exists_congr fun org => ?_
      simp [hother org hkind]

end Ledger

namespace Placement

variable {map : MemoryMap} {l l' : Ledger} {m : Merged} {ms sections : List Merged}
  {done before after : List Outcome} {o : Outcome}
  {placeOne : Ledger → Merged → Except PlacementError (Location × Ledger)}

/-! ## One section -/

/-- Placing a section keeps the ledger up to date. -/
def Keeps (placeOne : Ledger → Merged → Except PlacementError (Location × Ledger)) : Prop :=
  ∀ {map : MemoryMap} {done : List Outcome} {l l' : Ledger} {m : Merged} {loc : Location},
    l.Current map done → placeOne l m = .ok (loc, l') →
    l'.Current map (done ++ [⟨m, .ok loc⟩])

theorem keeps_placeFixed : Keeps placeFixed := by
  intro map done l l' m loc hl h
  unfold placeFixed at h
  dsimp only at h
  split at h
  · cases h
  split at h
  · cases h
  next space hspace =>
  cases h
  exact hl.update m ⟨m.org, _⟩ hspace

theorem lt_stop_of_candidate? {free : Span} {start : ℕ} (h : candidate? m free = some start) :
    start < free.stop := by
  cases horg : m.orgFixed with
  | true =>
    rw [candidate?_of_fixed horg] at h
    split_ifs at h with hout
    simp only [Option.some.injEq] at h
    omega
  | false =>
    rw [candidate?_of_floating horg] at h
    split_ifs at h with hout
    simp only [Option.some.injEq] at h
    omega

theorem keeps_placeFloating : Keeps placeFloating := by
  intro map done l l' m loc hl h
  unfold placeFloating at h
  dsimp only at h
  split at h
  · next placed hsearch =>
    cases h
    obtain ⟨-, -, n, start, space, hfit, horg, rfl⟩ :=
      searchBanks_eq_ok (firstTried_add_countTried_le l m) hsearch
    obtain ⟨free, hfree, hcandidate, -, hreserve⟩ := fitIn_eq_ok hfit
    -- the candidate is an address, so that nothing is cut off
    have hstop := hl.accounts.inside _ free hfree
    have hlt := lt_stop_of_candidate? hcandidate
    have hstart : loc.org.toNat = start := by
      rw [horg, UInt16.toNat_ofNat']
      omega
    rw [← hstart] at hreserve
    exact hl.update m loc hreserve
  next hsearch =>
  split at h
  · next hzero =>
    cases h
    exact hl.concat_of_empty fun _ _ => hzero.1
  · cases h

/-! ## Runs -/

theorem current_placeAll (hkeeps : Keeps placeOne) (hl : l.Current map done) (ms : List Merged) :
    (placeAll placeOne l ms).2.Current map (done ++ (placeAll placeOne l ms).1) := by
  induction ms generalizing l done with
  | nil => simpa [placeAll] using hl
  | cons m rest ih =>
    unfold placeAll
    split
    · next e he =>
      simpa using ih (hl.concat_of_empty (o := ⟨m, .error e⟩) (by simp))
    · next loc placed hok =>
      simpa using ih (hkeeps hl hok)

/-- Every outcome of a run comes from a ledger that is up to date with those before it. -/
theorem exists_current_of_placeAll (hkeeps : Keeps placeOne) (hl : l.Current map done)
    (h : (placeAll placeOne l ms).1 = before ++ o :: after) :
    ∃ l', l'.Current map (done ++ before)
      ∧ o.result = (placeOne l' o.subject).map Prod.fst := by
  have hsubjects := subjects_placeAll placeOne l ms
  rw [h, List.map_append, List.map_cons] at hsubjects
  have hcurrent := current_placeAll hkeeps hl (before.map Outcome.subject)
  have hlength := congrArg List.length
    (subjects_placeAll placeOne l (before.map Outcome.subject))
  rw [List.length_map, List.length_map] at hlength
  rw [← hsubjects, placeAll_append] at h
  rcases List.append_inj h hlength with ⟨hbefore, hrest⟩
  rw [hbefore] at hcurrent
  refine ⟨_, hcurrent, ?_⟩
  -- the first outcome of the rest of the run
  unfold placeAll at hrest
  split at hrest
  · next e he =>
    rw [he, ← (List.cons.inj hrest).1]
    rfl
  · next loc placed hok =>
    rw [hok, ← (List.cons.inj hrest).1]
    rfl

/-! ## All sections -/

/-- The sections that ask for something possible. -/
def possible (map : MemoryMap) (sections : List Merged) : List Merged :=
  sections.filter fun m => (rejection? map m).isNone

/-- The possible fixed sections, in the order in which they are placed. -/
def fixedInOrder (map : MemoryMap) (sections : List Merged) : List Merged :=
  ((possible map sections).filter (isFixed map)).mergeSort fun a b => (compareFixed a b).isLE

/-- The other possible sections, in the order in which they are placed. -/
def floatingInOrder (map : MemoryMap) (sections : List Merged) : List Merged :=
  ((possible map sections).filter (not ∘ isFixed map)).mergeSort
    fun a b => (compareFloating a b).isLE

/-- The three stages of an assignment. -/
theorem assign_eq_stages (map : MemoryMap) (sections : List Merged) :
    assign map sections = sections.filterMap (rejection? map)
      ++ (placeAll placeFixed { map } (fixedInOrder map sections)).1
      ++ (placeAll placeFloating (placeAll placeFixed { map } (fixedInOrder map sections)).2
        (floatingInOrder map sections)).1 := by
  unfold assign
  simp only [List.partition_eq_filter_filter]
  rfl

theorem validate_of_mem_possible (h : m ∈ possible map sections) : validate map m = .ok () :=
  validate_of_rejection?_isNone (List.mem_filter.mp h).2

theorem of_mem_fixedInOrder (h : m ∈ fixedInOrder map sections) :
    validate map m = .ok () ∧ isFixed map m = true := by
  have hm := List.mem_filter.mp (List.mem_mergeSort.mp h)
  exact ⟨validate_of_mem_possible hm.1, hm.2⟩

theorem of_mem_floatingInOrder (h : m ∈ floatingInOrder map sections) :
    validate map m = .ok () ∧ isFixed map m = false := by
  have hm := List.mem_filter.mp (List.mem_mergeSort.mp h)
  exact ⟨validate_of_mem_possible hm.1, by simpa using hm.2⟩

theorem pairwise_fixedInOrder (map : MemoryMap) (sections : List Merged) :
    (fixedInOrder map sections).Pairwise fun a b => (compareFixed a b).isLE = true :=
  pairwise_mergeSort_isLE compareFixed _

/-- Sections that are left out do not change the order of the others. -/
theorem filter_possible (map : MemoryMap) (sections : List Merged) (p : Merged → Bool) :
    (possible map sections).filter p = possible map (sections.filter p) :=
  List.filter_comm ..

theorem filter_fixedInOrder (map : MemoryMap) (sections : List Merged) (p : Merged → Bool) :
    (fixedInOrder map sections).filter p = fixedInOrder map (sections.filter p) := by
  unfold fixedInOrder
  rw [filter_mergeSort_isLE compareFixed, List.filter_comm, filter_possible]

theorem filter_floatingInOrder (map : MemoryMap) (sections : List Merged) (p : Merged → Bool) :
    (floatingInOrder map sections).filter p = floatingInOrder map (sections.filter p) := by
  unfold floatingInOrder
  rw [filter_mergeSort_isLE compareFloating, List.filter_comm, filter_possible]

theorem validate_of_mem_rejections (h : o ∈ sections.filterMap (rejection? map)) :
    ∃ e, validate map o.subject = .error e ∧ o.result = .error e := by
  rcases List.mem_filterMap.mp h with ⟨m, -, hm⟩
  unfold rejection? at hm
  split at hm
  · next e he =>
    rw [← Option.some.inj hm]
    exact ⟨e, he, rfl⟩
  · cases hm

/-- An item of two lists that follow each other stands in the first one or in the second one. -/
theorem split_append {α : Type} {l₁ l₂ front back : List α} {a : α}
    (h : l₁ ++ l₂ = front ++ a :: back) :
    (∃ rest, l₁ = front ++ a :: rest) ∨ ∃ mid, front = l₁ ++ mid ∧ l₂ = mid ++ a :: back := by
  rcases List.append_eq_append_iff.mp h with ⟨mid, hfront, hl₂⟩ | ⟨rest, hl₁, hrest⟩
  · exact Or.inr ⟨mid, hfront, hl₂⟩
  · cases rest with
    | nil => exact Or.inr ⟨[], by simp [hl₁], by simpa using hrest.symm⟩
    | cons b rest =>
      rw [(List.cons.inj hrest).1]
      exact Or.inl ⟨rest, hl₁⟩

/-- How the turn of a section ends after the outcomes `before`. -/
inductive Turn (map : MemoryMap) (before : List Outcome) (o : Outcome) : Prop
  | rejected {e : PlacementError} (invalid : validate map o.subject = .error e)
      (result : o.result = .error e)
  | fixed {l : Ledger} (current : l.Current map before) (valid : validate map o.subject = .ok ())
      (fixed : isFixed map o.subject = true)
      (result : o.result = (placeFixed l o.subject).map Prod.fst)
  | floating {l : Ledger} (current : l.Current map before)
      (valid : validate map o.subject = .ok ()) (floating : isFixed map o.subject = false)
      (result : o.result = (placeFloating l o.subject).map Prod.fst)

/-- Every outcome of an assignment is that of a turn after the outcomes in front of it. -/
theorem turn_of_assign (h : assign map sections = before ++ o :: after) : Turn map before o := by
  -- the ledger is up to date after the rejections, and after the fixed sections
  have hstart : ({ map } : Ledger).Current map (sections.filterMap (rejection? map)) :=
    (Ledger.current_empty map).append_of_error fun o ho =>
      (validate_of_mem_rejections ho).imp fun _ => And.right
  have hnext := current_placeAll keeps_placeFixed hstart (fixedInOrder map sections)
  rw [assign_eq_stages] at h
  rcases split_append h with ⟨rest, hfirst⟩ | ⟨mid, rfl, hlast⟩
  · rcases split_append hfirst with ⟨rest', hrejection⟩ | ⟨mid, rfl, hplaced⟩
    · have hmem : o ∈ sections.filterMap (rejection? map) := by simp [hrejection]
      rcases validate_of_mem_rejections hmem with ⟨e, hinvalid, hresult⟩
      exact .rejected hinvalid hresult
    · have hmem : o ∈ (placeAll placeFixed { map } (fixedInOrder map sections)).1 := by
        simp [hplaced]
      have hsubject := of_mem_fixedInOrder (subject_mem_of_mem_placeAll hmem)
      rcases exists_current_of_placeAll keeps_placeFixed hstart hplaced with ⟨l, hl, hresult⟩
      exact .fixed hl hsubject.1 hsubject.2 hresult
  · have hmem := List.mem_append_right mid (List.mem_cons_self (a := o) (l := after))
    rw [← hlast] at hmem
    have hsubject := of_mem_floatingInOrder (subject_mem_of_mem_placeAll hmem)
    rcases exists_current_of_placeAll keeps_placeFloating hnext hlast with ⟨l, hl, hresult⟩
    exact .floating hl hsubject.1 hsubject.2 hresult

/-- Only sections that ask for something possible find a place. -/
theorem Turn.validate_of_ok (h : Turn map before o) {loc : Location} (hok : o.result = .ok loc) :
    validate map o.subject = .ok () := by
  cases h with
  | rejected invalid result => simp [result] at hok
  | fixed _ valid => exact valid
  | floating _ valid => exact valid

/-- What stands in front of a fixed section is rejected, or is a fixed section that does not come
after it. -/
theorem pairwise_assign (map : MemoryMap) (sections : List Merged) :
    (assign map sections).Pairwise fun p o => validate map p.subject = .ok () →
      isFixed map o.subject = true →
      isFixed map p.subject = true ∧ (compareFixed p.subject o.subject).isLE = true := by
  have hrejected : ∀ p ∈ sections.filterMap (rejection? map), validate map p.subject ≠ .ok () := by
    intro p hp hvalid
    rcases validate_of_mem_rejections hp with ⟨e, he, -⟩
    simp [he] at hvalid
  have hfloats : ∀ l : Ledger, ∀ o ∈ (placeAll placeFloating l (floatingInOrder map sections)).1,
      isFixed map o.subject ≠ true := by
    intro l o ho
    simp [(of_mem_floatingInOrder (subject_mem_of_mem_placeAll ho)).2]
  have hsorted := pairwise_fixedInOrder map sections
  rw [← subjects_placeAll placeFixed { map } (fixedInOrder map sections), List.pairwise_map]
    at hsorted
  rw [assign_eq_stages, List.pairwise_append, List.pairwise_append]
  refine ⟨⟨List.pairwise_of_forall_mem_list ?_, ?_, ?_⟩, List.pairwise_of_forall_mem_list ?_, ?_⟩
  · intro p hp o _ hvalid
    exact absurd hvalid (hrejected p hp)
  · exact hsorted.imp_of_mem fun hp _ hle _ _ =>
      ⟨(of_mem_fixedInOrder (subject_mem_of_mem_placeAll hp)).2, hle⟩
  · intro p hp o _ hvalid
    exact absurd hvalid (hrejected p hp)
  · intro p _ o ho _ hfixed
    exact absurd hfixed (hfloats _ o ho)
  · intro p _ o ho _ hfixed
    exact absurd hfixed (hfloats _ o ho)

end Placement

end BankedLinker
