import BankedLinker.Proofs.Turns

/-!
# Fixed sections and collisions

A fixed section goes where it asks to go, unless it collides there with a fixed section that was
placed before it. The ledger is asked twice on the way: whether an occupant is in the way, and
whether the addresses are free. The two answers never differ, so that the second refusal does not
happen.

* `Placement.Collide`: two fixed sections have an address in common;
* `Placement.placeFixed_cases` is the step: a place, or a collision with an earlier section;
* `Placement.mem_before_iff`: the sections that were placed earlier are those that come first in
  the order of the fixed sections;
* `Placement.assign_fixed_iff` is the result for all fixed sections.
-/

namespace BankedLinker

namespace BankSpace

variable {b : BankSpace} {s : Span} {x : Occupant}

theorem overlapping?_eq_some (h : b.overlapping? s = some x) :
    x ∈ b.used ∧ ∃ a, x.span.Has a ∧ s.Has a := by
  have hoverlaps : x.span.overlaps s = true := by simpa using List.find?_some h
  exact ⟨List.mem_of_find?_eq_some h, Span.overlaps_iff.mp hoverlaps⟩

theorem overlapping?_eq_none (h : b.overlapping? s = none) (hx : x ∈ b.used) {a : ℕ}
    (hxa : x.span.Has a) : ¬s.Has a := by
  intro ha
  exact List.find?_eq_none.mp h x hx (Span.overlaps_iff.mpr ⟨a, hxa, ha⟩)

end BankSpace

namespace Placement

variable {map : MemoryMap} {l : Ledger} {m : Merged} {sections : List Merged}
  {done before after : List Outcome} {o p : Outcome} {loc : Location}

/-- Two fixed sections collide: they are in one bank and have an address in common. -/
def Collide (map : MemoryMap) (m n : Merged) : Prop :=
  fixedKey map m = fixedKey map n
    ∧ ∃ a, (extent m m.org.toNat).Has a ∧ (extent n n.org.toNat).Has a

/-! ## One section -/

theorem placeFixed_eq (l : Ledger) (m : Merged) :
    placeFixed l m =
      match (l.space (fixedKey l.map m)).overlapping? (extent m m.org.toNat) with
      | some x => .error (.overlap (extent m m.org.toNat) x (fixedKey l.map m).bank)
      | none =>
        match (l.space (fixedKey l.map m)).reserve (extent m m.org.toNat) m with
        | none => .error (.notFree (extent m m.org.toNat) (fixedKey l.map m).bank)
        | some b => .ok (fixedLocation l.map m, l.update (fixedKey l.map m) b) := rfl

theorem eq_fixedLocation_of_placeFixed (h : (placeFixed l m).map Prod.fst = .ok loc) :
    loc = fixedLocation l.map m := by
  rw [placeFixed_eq] at h
  split at h
  · cases h
  split at h
  · cases h
  · exact (Except.ok.inj h).symm

/-- The addresses of a valid fixed section belong to its region. -/
theorem Valid.hasAddress (hm : Valid map m) (horg : m.orgFixed = true) {a : ℕ}
    (ha : (extent m m.org.toNat).Has a) : (map.region m.kind).HasAddress a := by
  have hstart := hm.start_le horg
  have hstop := hm.stop_le horg
  simp only [Span.Has, extent] at ha
  simp only [Region.HasAddress]
  omega

/-- An address that an earlier section has taken is in the hands of an occupant. -/
theorem exists_used_of_taken (hl : l.Current map done) {kind : RegionKind} {bank : UInt32} {a : ℕ}
    (h : Taken done kind bank a) : ∃ x ∈ (l.space ⟨kind, bank⟩).used, x.span.Has a := by
  rcases h with ⟨⟨subject, result⟩, hmem, ⟨org, bank'⟩, hok, hkind, hbank, ha⟩
  dsimp only at hok hkind hbank ha
  subst hok hbank
  have hsize : subject.size ≠ 0 := by
    intro hzero
    simp only [Span.Has, extent, hzero, UInt32.toNat_zero] at ha
    omega
  exact ⟨⟨extent subject org.toNat, subject⟩,
    (hl.mem_used_iff _ _ _).mpr ⟨hkind, hsize, org, hmem, rfl⟩, ha⟩

/-- The step: a fixed section is placed and collides with no earlier section, or it is refused
because of one that it collides with. -/
theorem placeFixed_cases (hl : l.Current map done) (hm : Valid map m) (horg : m.orgFixed = true)
    (hdone : ∀ p ∈ done, ∀ loc, p.result = .ok loc → loc = fixedLocation map p.subject) :
    ((placeFixed l m).map Prod.fst = .ok (fixedLocation map m)
      ∧ ∀ p ∈ done, ∀ loc, p.result = .ok loc → ¬Collide map p.subject m)
    ∨ ∃ n, ⟨n, .ok (fixedLocation map n)⟩ ∈ done ∧ Collide map n m
      ∧ (placeFixed l m).map Prod.fst = .error (.overlap (extent m m.org.toNat)
        ⟨extent n n.org.toNat, n⟩ (fixedKey map m).bank) := by
  have hmap := hl.map_eq
  subst hmap
  rw [placeFixed_eq]
  cases hother : (l.space (fixedKey l.map m)).overlapping? (extent m m.org.toNat) with
  | some x =>
    right
    -- the occupant is an earlier section, and stands where it asked to stand
    rcases BankSpace.overlapping?_eq_some hother with ⟨hused, a, hxa, ha⟩
    rcases (hl.mem_used_iff m.kind (fixedKey l.map m).bank x).mp hused with
      ⟨hkind, -, org, hmem, hspan⟩
    have hloc : ⟨org, (fixedKey l.map m).bank⟩ = fixedLocation l.map x.user := hdone _ hmem _ rfl
    have hkey : fixedKey l.map x.user = fixedKey l.map m := by
      show BankKey.mk x.user.kind (fixedLocation l.map x.user).bank = _
      rw [← hloc, hkind]
      rfl
    rw [hloc] at hmem
    rw [show org = x.user.org from congrArg Location.org hloc] at hspan
    rw [hspan] at hxa
    refine ⟨x.user, hmem, ⟨hkey, a, hxa, ha⟩, ?_⟩
    rw [← hspan]
    rfl
  | none =>
    left
    -- what is taken is in the hands of an occupant, and no occupant is in the way
    have huntaken : ∀ a, (extent m m.org.toNat).Has a →
        ¬Taken done m.kind (fixedKey l.map m).bank a := by
      intro a ha htaken
      rcases exists_used_of_taken hl htaken with ⟨x, hx, hxa⟩
      exact BankSpace.overlapping?_eq_none hother hx hxa ha
    have hfree : ∀ a, (extent m m.org.toNat).Has a → (l.space (fixedKey l.map m)).IsFree a :=
      fun a ha => (hl.accounts.isFree_iff _ _ _).mpr ⟨hm.hasAddress horg ha, huntaken a ha⟩
    obtain ⟨b, hb⟩ : ∃ b,
        (l.space (fixedKey l.map m)).reserve (extent m m.org.toNat) m = some b :=
      (BankSpace.exists_reserve_iff (hl.accounts.tidy _)).mpr hfree
    rw [hb]
    refine ⟨rfl, fun p hp loc hok hcollide => ?_⟩
    -- an earlier section that collides would have taken one of the addresses
    rcases hcollide with ⟨hkey, a, hpa, ha⟩
    obtain rfl := hdone p hp loc hok
    exact huntaken a ha ⟨p, hp, _, hok, congrArg BankKey.kind hkey, congrArg BankKey.bank hkey, hpa⟩

/-! ## All sections -/

theorem validate_of_ok (hp : p ∈ assign map sections) (hok : p.result = .ok loc) :
    validate map p.subject = .ok () := by
  rcases List.append_of_mem hp with ⟨before, after, h⟩
  exact (turn_of_assign h).validate_of_ok hok

/-- Fixed sections that are placed stand where they asked to stand. -/
theorem eq_fixedLocation (hp : p ∈ assign map sections) (hfixed : isFixed map p.subject = true)
    (hok : p.result = .ok loc) : loc = fixedLocation map p.subject := by
  rcases List.append_of_mem hp with ⟨before, after, h⟩
  cases turn_of_assign h with
  | rejected invalid result => simp [result] at hok
  | fixed current valid fixed result =>
    rw [← current.map_eq]
    exact eq_fixedLocation_of_placeFixed (result.symm.trans hok)
  | floating current valid floating => simp [hfixed] at floating

/-- Of the sections that are placed, those settled before a fixed section are the fixed sections
that come before it in the order of address and number. -/
theorem mem_before_iff (hids : (sections.map Merged.id).Nodup)
    (h : assign map sections = before ++ o :: after) (hvalid : validate map o.subject = .ok ())
    (hfixed : isFixed map o.subject = true) (hok : p.result = .ok loc) :
    p ∈ before ↔ p ∈ assign map sections ∧ isFixed map p.subject = true
      ∧ compareFixed p.subject o.subject = .lt := by
  have hpairs := pairwise_assign map sections
  have hnodup : ((assign map sections).map fun o => o.subject.id).Nodup :=
    nodup_map_assign hids
  rw [h, List.pairwise_append, List.pairwise_cons] at hpairs
  rcases hpairs with ⟨-, ⟨hafter, -⟩, hbefore⟩
  constructor
  · intro hp
    have hmem : p ∈ assign map sections := by simp [h, hp]
    rcases hbefore p hp o List.mem_cons_self (validate_of_ok hmem hok) hfixed with ⟨hpfixed, hle⟩
    -- the numbers differ, so that one of the two comes first
    have hne : p.subject.id ≠ o.subject.id := by
      rw [h, List.map_append, List.nodup_append] at hnodup
      exact hnodup.2.2 _ (List.mem_map_of_mem hp) _ (by simp)
    refine ⟨hmem, hpfixed, ?_⟩
    cases hcompare : compareFixed p.subject o.subject with
    | lt => rfl
    | eq =>
      have hid := (Ordering.then_eq_eq.mp hcompare).2
      exact absurd (Nat.compare_eq_eq.mp hid) hne
    | gt => simp [hcompare] at hle
  · intro hp
    rcases hp with ⟨hmem, hpfixed, hlt⟩
    rw [h, List.mem_append, List.mem_cons] at hmem
    rcases hmem with hmem | rfl | hmem
    · exact hmem
    · simp [Std.ReflCmp.compare_self] at hlt
    · have hle := (hafter p hmem hvalid hpfixed).2
      have hswap : compareFixed o.subject p.subject = (compareFixed p.subject o.subject).swap :=
        Std.OrientedCmp.eq_swap
      rw [hswap, hlt] at hle
      cases hle

/-- A fixed section found its place before the turn of another fixed section came, and the two
collide. -/
structure Obstructs (map : MemoryMap) (p : Outcome) (m : Merged) : Prop where
  fixed : isFixed map p.subject = true
  placed : p.result = .ok (fixedLocation map p.subject)
  earlier : compareFixed p.subject m = .lt
  collide : Collide map p.subject m

/-- A valid fixed section is placed and not obstructed, or obstructed and refused for that. -/
theorem fixed_cases (hids : (sections.map Merged.id).Nodup) (ho : o ∈ assign map sections)
    (hvalid : validate map o.subject = .ok ()) (hfixed : isFixed map o.subject = true) :
    (o.result = .ok (fixedLocation map o.subject)
      ∧ ∀ p ∈ assign map sections, ¬Obstructs map p o.subject)
    ∨ ∃ p ∈ assign map sections, Obstructs map p o.subject
      ∧ o.result = .error (.overlap (extent o.subject o.subject.org.toNat)
        ⟨extent p.subject p.subject.org.toNat, p.subject⟩ (fixedKey map o.subject).bank) := by
  rcases List.append_of_mem ho with ⟨before, after, h⟩
  have hmem := fun (p : Outcome) (loc : Location) (hok : p.result = .ok loc) =>
    mem_before_iff hids h hvalid hfixed hok
  have horg : o.subject.orgFixed = true := by
    simp only [isFixed, Bool.and_eq_true] at hfixed
    exact hfixed.1
  cases turn_of_assign h with
  | rejected invalid => simp [invalid] at hvalid
  | floating current valid floating => simp [hfixed] at floating
  | fixed current valid fixed result =>
    rw [result]
    rcases placeFixed_cases current (valid_of_validate hvalid) horg fun p hp loc hok =>
      eq_fixedLocation ((hmem p loc hok).mp hp).1 ((hmem p loc hok).mp hp).2.1 hok with
      ⟨hplaced, hclear⟩ | ⟨n, hn, hcollide, hrefused⟩
    · refine Or.inl ⟨hplaced, fun p hp hobstructs => ?_⟩
      exact hclear p ((hmem p _ hobstructs.placed).mpr ⟨hp, hobstructs.fixed, hobstructs.earlier⟩)
        _ hobstructs.placed hobstructs.collide
    · rcases (hmem _ _ rfl).mp hn with ⟨hn', hnfixed, hearlier⟩
      exact Or.inr ⟨_, hn', ⟨hnfixed, rfl, hearlier, hcollide⟩, hrefused⟩

/-- **Fixed placement is exact.** A valid fixed section stays without a place exactly if it collides
with a fixed section that comes before it by address and number and was placed. The error then
names such a section, and never says that the addresses are not free. So if no two of the valid
fixed sections collide, all of them are placed, and where they asked to be. -/
theorem assign_fixed_iff (map : MemoryMap) (sections : List Merged)
    (hids : (sections.map Merged.id).Nodup) :
    (∀ o ∈ assign map sections, validate map o.subject = .ok () → isFixed map o.subject = true →
      ((∃ e, o.result = .error e) ↔ ∃ p ∈ assign map sections, Obstructs map p o.subject)
      ∧ (∀ loc, o.result = .ok loc → loc = fixedLocation map o.subject)
      ∧ ∀ e, o.result = .error e → ∃ p ∈ assign map sections, Obstructs map p o.subject
        ∧ e = .overlap (extent o.subject o.subject.org.toNat)
          ⟨extent p.subject p.subject.org.toNat, p.subject⟩ (fixedKey map o.subject).bank)
    ∧ ((∀ m ∈ sections, ∀ n ∈ sections, m.id ≠ n.id → validate map m = .ok () →
        validate map n = .ok () → isFixed map m = true → isFixed map n = true →
        ¬Collide map m n) →
      ∀ o ∈ assign map sections, validate map o.subject = .ok () →
        isFixed map o.subject = true → o.result = .ok (fixedLocation map o.subject)) := by
  refine ⟨fun o ho hvalid hfixed => ?_, fun hclear o ho hvalid hfixed => ?_⟩
  · rcases fixed_cases hids ho hvalid hfixed with ⟨hplaced, hnone⟩ | ⟨p, hp, hobstructs, herror⟩
    · refine ⟨⟨fun h => ?_, fun h => ?_⟩, fun loc hok => ?_, fun e he => ?_⟩
      · simp [hplaced] at h
      · rcases h with ⟨p, hp, hobstructs⟩
        exact absurd hobstructs (hnone p hp)
      · exact (Except.ok.inj (hplaced.symm.trans hok)).symm
      · simp [hplaced] at he
    · refine ⟨⟨fun _ => ⟨p, hp, hobstructs⟩, fun _ => ⟨_, herror⟩⟩, fun loc hok => ?_,
        fun e he => ⟨p, hp, hobstructs, ?_⟩⟩
      · simp [herror] at hok
      · exact (Except.error.inj (herror.symm.trans he)).symm
  · rcases fixed_cases hids ho hvalid hfixed with ⟨hplaced, -⟩ | ⟨p, hp, hobstructs, -⟩
    · exact hplaced
    · -- an earlier section is another one
      have hne : p.subject.id ≠ o.subject.id := by
        intro heq
        obtain rfl := List.inj_on_of_nodup_map (nodup_map_assign hids) hp ho heq
        simpa [Std.ReflCmp.compare_self] using hobstructs.earlier
      exact absurd hobstructs.collide (hclear _ (subject_mem_of_mem_assign hp) _
        (subject_mem_of_mem_assign ho) hne (validate_of_ok hp hobstructs.placed) hvalid
        hobstructs.fixed hfixed)

/-- A section of ROM0 with a fixed address. -/
def fixedPart (id : ℕ) (org : UInt16) (size : UInt32) : Merged :=
  { id, name := [0x61 + id.toUInt8], kind := .rom0, modifier := .normal, size, orgFixed := true,
    org }

/-- Two sections that ask for the address 2, and one without addresses between them. -/
def rivals : List Merged :=
  [fixedPart 0 0 3, fixedPart 1 2 2, fixedPart 2 1 0]

theorem assign_rivals : assign {} rivals
    = [⟨fixedPart 0 0 3, .ok ⟨0, 0⟩⟩, ⟨fixedPart 2 1 0, .ok ⟨1, 0⟩⟩,
      ⟨fixedPart 1 2 2, .error (.overlap ⟨2, 4⟩ ⟨⟨0, 3⟩, fixedPart 0 0 3⟩ 0)⟩] := by
  cbv

/-- Of the rivals the second one stays without a place, and what obstructs it is the first one. The
section without addresses obstructs nobody. -/
theorem assign_fixed_iff_rivals : (rivals.map Merged.id).Nodup
    ∧ (∃ o ∈ assign {} rivals, o.subject = fixedPart 1 2 2 ∧ ∃ e, o.result = .error e)
    ∧ ∃ p ∈ assign {} rivals, Obstructs {} p (fixedPart 1 2 2) ∧ p.subject = fixedPart 0 0 3 := by
  have hids : (rivals.map Merged.id).Nodup := by decide
  have hmem : ⟨fixedPart 1 2 2, .error (.overlap ⟨2, 4⟩ ⟨⟨0, 3⟩, fixedPart 0 0 3⟩ 0)⟩
      ∈ assign {} rivals := by
    simp [assign_rivals]
  rcases ((assign_fixed_iff {} rivals hids).1 _ hmem (by cbv) (by decide)).2.2 _ rfl with
    ⟨p, hp, hobstructs, herror⟩
  simp only [PlacementError.overlap.injEq, Occupant.mk.injEq] at herror
  exact ⟨hids, ⟨_, hmem, rfl, _, rfl⟩, p, hp, hobstructs, herror.2.1.2.symm⟩

end Placement

end BankedLinker
