import BankedLinker.Proofs.Names
import Mathlib.Data.List.Sort

/-!
# The order in which sections are found does not matter to their places

Sections are placed in the order of what they ask for, and among equals in the order in which they
were found. The fixed ones go where they ask to go, so that any order does; the order of the others
is decided by their names at last. So the places of sections with distinct names depend on the
sections, but not on their numbers or their order.

* `BankSpace.Tidy.eq_of_covers`: the list of free spans is determined by the free addresses;
* `Placement.Room`: fixed sections can be placed in any order, or in none;
* `Placement.SameFree` and `Placement.Matches`: floating sections see the free addresses only;
* `Placement.assign_renumbered` and `Placement.assign_permuted`: the places of all sections.
-/

namespace BankedLinker

/-- Of two items one comes first. -/
theorem isLE_or_isLE {α : Type} (order : α → α → Ordering) [Std.OrientedCmp order] (a b : α) :
    ((order a b).isLE || (order b a).isLE) = true := by
  have hswap : order b a = (order a b).swap := Std.OrientedCmp.eq_swap
  rw [hswap]
  cases order a b <;> rfl

/-- Sorting by a comparison leaves a sorted list. -/
theorem pairwise_mergeSort_isLE {α : Type} (order : α → α → Ordering) [Std.TransCmp order]
    (items : List α) :
    (items.mergeSort fun a b => (order a b).isLE).Pairwise fun a b => (order a b).isLE = true :=
  List.pairwise_mergeSort (fun _ _ _ => Std.TransCmp.isLE_trans) (isLE_or_isLE order) items

/-! ## Free spans -/

namespace BankSpace

variable {f g s : Span} {free free' rest : List Span} {a : ℕ}

/-- Nothing is free below the first span, nor between it and the next one. -/
theorem Tidy.bounds (h : Tidy (f :: rest)) (ha : Covers rest a) : f.stop < a := by
  obtain ⟨g, hg, hga⟩ := ha
  have hapart := (List.pairwise_cons.mp h.apart).1 g hg
  exact lt_of_lt_of_le hapart hga.1

theorem Tidy.of_cons (h : Tidy (f :: rest)) : Tidy rest :=
  ⟨(List.pairwise_cons.mp h.apart).2, fun g hg => h.start_le_stop g (List.mem_cons_of_mem _ hg)⟩

/-- Of two lists with the same addresses neither begins with a larger span. -/
theorem Tidy.first_le (h : Tidy (g :: free')) (hf : f.start < f.stop)
    (hsame : ∀ a, Covers (f :: rest) a ↔ Covers (g :: free') a) :
    g.start ≤ f.start ∧ (g.start = f.start → f.stop ≤ g.stop) := by
  have hbounds : ∀ a, Covers (g :: free') a → g.Has a ∨ g.stop < a := by
    intro a ha
    rw [covers_cons] at ha
    exact ha.imp_right h.bounds
  have hle := h.start_le_stop g List.mem_cons_self
  have hcovered : ∀ a, f.Has a → Covers (g :: free') a := by
    intro a ha
    exact (hsame a).mp (covers_cons.mpr (Or.inl ha))
  constructor
  · have hfirst := hbounds f.start (hcovered f.start ⟨le_rfl, hf⟩)
    unfold Span.Has at hfirst
    omega
  · -- the end of the shorter span would be an address of the longer one
    intro heq
    by_contra hlt
    have hstop := hbounds g.stop (hcovered g.stop ⟨by omega, by omega⟩)
    unfold Span.Has at hstop
    omega

/-- The free spans are determined by the free addresses. -/
theorem Tidy.eq_of_covers (h : Tidy free) (h' : Tidy free') (hne : ∀ f ∈ free, f.start < f.stop)
    (hne' : ∀ f ∈ free', f.start < f.stop) (hsame : ∀ a, Covers free a ↔ Covers free' a) :
    free = free' := by
  induction free generalizing free' with
  | nil =>
    cases free' with
    | nil => rfl
    | cons g rest' =>
      obtain ⟨f, hf, -⟩ := (hsame g.start).mpr
        (covers_cons.mpr (Or.inl ⟨le_rfl, hne' g List.mem_cons_self⟩))
      cases hf
  | cons f rest ih =>
    cases free' with
    | nil =>
      obtain ⟨g, hg, -⟩ := (hsame f.start).mp
        (covers_cons.mpr (Or.inl ⟨le_rfl, hne f List.mem_cons_self⟩))
      cases hg
    | cons g rest' =>
      rw [List.forall_mem_cons] at hne hne'
      obtain ⟨hstart, hstop⟩ := h'.first_le hne.1 hsame
      obtain ⟨hstart', hstop'⟩ := h.first_le hne'.1 fun a => (hsame a).symm
      have heq : f.start = g.start := by omega
      have hstops : f.stop = g.stop := by
        have hle := hstop heq.symm
        have hge := hstop' heq
        omega
      obtain rfl : f = g := by
        cases f
        cases g
        simp only at heq hstops
        rw [heq, hstops]
      refine congrArg (f :: ·) (ih h.of_cons h'.of_cons hne.2 hne'.2 ?_)
      -- what lies behind the first span is not in it
      have hbehind : ∀ {free : List Span}, Tidy (f :: free) →
          ∀ a, Covers free a ↔ Covers (f :: free) a ∧ ¬f.Has a := by
        intro free ht a
        rw [covers_cons]
        constructor
        · intro ha
          have hlt := ht.bounds ha
          refine ⟨Or.inr ha, ?_⟩
          unfold Span.Has
          omega
        · rintro ⟨ha | ha, hnot⟩
          · exact absurd ha hnot
          · exact ha
      intro a
      rw [hbehind h, hbehind h', hsame]

/-- A span whose addresses are all free lies in one free span. -/
theorem Tidy.exists_isInside (h : Tidy free) (hs : s.start < s.stop)
    (hcovers : ∀ a, s.Has a → Covers free a) : ∃ f ∈ free, s.isInside f = true := by
  induction free with
  | nil =>
    obtain ⟨f, hf, -⟩ := hcovers s.start ⟨le_rfl, hs⟩
    cases hf
  | cons f rest ih =>
    rcases covers_cons.mp (hcovers s.start ⟨le_rfl, hs⟩) with hfirst | hlater
    · refine ⟨f, List.mem_cons_self, Span.isInside_iff.mpr ⟨hfirst.1, ?_⟩⟩
      by_contra hlong
      -- the address after `f` is not free
      rcases covers_cons.mp (hcovers f.stop ⟨hfirst.2.le, by omega⟩) with hstop | hstop
      · exact absurd hstop.2 (lt_irrefl _)
      · exact absurd (h.bounds hstop) (lt_irrefl _)
    · have hbehind := h.bounds hlater
      obtain ⟨g, hg, hinside⟩ := ih h.of_cons fun a ha => by
        rcases covers_cons.mp (hcovers a ha) with hfirst | hrest
        · unfold Span.Has at ha hfirst
          omega
        · exact hrest
      exact ⟨g, List.mem_cons_of_mem f hg, hinside⟩

/-- Whether a span can be reserved, and what is left then, depends on the free spans only. -/
theorem free_reserve (b : BankSpace) (s : Span) (user : Merged) :
    (b.reserve s user).map BankSpace.free = if s.isEmpty then some b.free else carve? s b.free := by
  unfold reserve
  split
  · rfl
  · cases carve? s b.free <;> rfl

/-- A span can be reserved exactly if all of its addresses are free. -/
theorem exists_reserve_iff {b : BankSpace} {user : Merged} (h : Tidy b.free) :
    (∃ b', b.reserve s user = some b') ↔ ∀ a, s.Has a → b.IsFree a := by
  constructor
  · rintro ⟨b', hb'⟩
    exact (reserve_eq_some hb' h).2.2
  · intro hfree
    by_cases hempty : s.isEmpty = true
    · exact ⟨b, reserve_of_isEmpty hempty⟩
    · have hs : s.start < s.stop := by
        rw [Span.isEmpty_iff] at hempty
        omega
      obtain ⟨left, hleft⟩ := exists_carve?_iff.mpr (h.exists_isInside hs hfree)
      unfold reserve
      rw [if_neg hempty, hleft]
      exact ⟨_, rfl⟩

/-- Carving leaves no span without addresses. -/
theorem start_lt_stop_of_carve? {left : List Span} (h : carve? s free = some left)
    (hne : ∀ f ∈ free, f.start < f.stop) : ∀ f ∈ left, f.start < f.stop := by
  induction free generalizing left with
  | nil => cases h
  | cons f rest ih =>
    rw [List.forall_mem_cons] at hne
    unfold carve? at h
    split at h
    · obtain rfl := Option.some.inj h
      intro g hg
      rcases List.mem_append.mp hg with hg | hg
      · exact (Span.mem_without hg).1
      · exact hne.2 g hg
    · obtain ⟨left', hleft', rfl⟩ := Option.map_eq_some_iff.mp h
      rw [List.forall_mem_cons]
      exact ⟨hne.1, ih hleft' hne.2⟩

end BankSpace

/-- The test for an overlap finds an address of both spans. -/
theorem Span.overlaps_iff {s t : Span} : s.overlaps t = true ↔ ∃ a, s.Has a ∧ t.Has a := by
  have hempty : ∀ u : Span, (!u.isEmpty) = true ↔ u.start < u.stop := by
    intro u
    rw [Bool.not_eq_true', ← Bool.not_eq_true, Span.isEmpty_iff]
    omega
  simp only [overlaps, Bool.and_eq_true, decide_eq_true_eq, hempty, Has]
  constructor
  · intro h
    -- the higher of the two starts belongs to both
    exact ⟨max s.start t.start, by omega, by omega⟩
  · intro h
    rcases h with ⟨a, hs, ht⟩
    omega

/-! ## Fixed sections -/

/-- The ledger is in order: free spans are tidy and have addresses, as far as their region has any,
and what is used is not free. -/
structure Ledger.Orderly (l : Ledger) : Prop where
  tidy : ∀ key, BankSpace.Tidy (l.space key).free
  start_lt_stop : ∀ key, 0 < (l.map.region key.kind).size.toNat →
    ∀ f ∈ (l.space key).free, f.start < f.stop
  not_free : ∀ key, ∀ o ∈ (l.space key).used, ∀ a, o.span.Has a → ¬(l.space key).IsFree a

namespace Ledger

variable {l l' : Ledger}

theorem orderly_empty (map : MemoryMap) : ({ map } : Ledger).Orderly where
  tidy key := by
    rw [space_empty]
    refine BankSpace.tidy_fresh _ ?_
    rw [map.toNat_stop]
    omega
  start_lt_stop key hpos f hf := by
    rw [space_empty] at hf
    obtain rfl := List.mem_singleton.mp hf
    have hsize : 0 < (map.region key.kind).size.toNat := hpos
    show (map.region key.kind).start.toNat < (map.region key.kind).stop.toNat
    rw [map.toNat_stop]
    omega
  not_free key o ho := by
    rw [space_empty] at ho
    cases ho

theorem Orderly.update (h : l.Orderly) {key : BankKey} {s : Span} {user : Merged} {b : BankSpace}
    (hb : (l.space key).reserve s user = some b) : (l.update key b).Orderly := by
  obtain ⟨htidy, hfree, -⟩ := BankSpace.reserve_eq_some hb (h.tidy key)
  refine ⟨fun key' => ?_, fun key' hpos f hf => ?_, fun key' o ho a ha => ?_⟩
  · rw [space_update]
    split
    · exact htidy
    · exact h.tidy key'
  · rw [space_update] at hf
    split at hf
    · next hkey =>
      subst hkey
      have hold := h.start_lt_stop key' hpos
      have hleft := BankSpace.free_reserve (l.space key') s user
      rw [hb, Option.map_some] at hleft
      split at hleft
      · rw [Option.some.inj hleft] at hf
        exact hold f hf
      · exact BankSpace.start_lt_stop_of_carve? hleft.symm hold f hf
    · exact h.start_lt_stop key' hpos f hf
  · rw [space_update] at ho ⊢
    split at ho
    · next hkey =>
      subst hkey
      rw [if_pos rfl, hfree]
      rintro ⟨hafree, hnot⟩
      rcases BankSpace.mem_used_of_reserve hb ho with rfl | ho
      · exact hnot ha
      · exact h.not_free key' o ho a ha hafree
    · next hkey =>
      rw [if_neg hkey]
      exact h.not_free key' o ho a ha

end Ledger

namespace Placement

variable {map : MemoryMap} {l l' : Ledger} {m m' n : Merged} {ms ms' : List Merged}

/-- The bank that a fixed section goes to. -/
def fixedKey (map : MemoryMap) (m : Merged) : BankKey :=
  ⟨m.kind, if m.bankFixed then m.bank else (map.region m.kind).firstBank⟩

/-- Where a fixed section goes. -/
def fixedLocation (map : MemoryMap) (m : Merged) : Location :=
  ⟨m.org, (fixedKey map m).bank⟩

/-- The fixed section asks for an address of a bank. -/
def Claims (map : MemoryMap) (m : Merged) (key : BankKey) (a : ℕ) : Prop :=
  key = fixedKey map m ∧ (extent m m.org.toNat).Has a

/-- The step: a fixed section is placed if all that it asks for is free. -/
theorem placeFixed_of_free (hl : l.Orderly)
    (hfree : ∀ key a, Claims l.map m key a → (l.space key).IsFree a) :
    ∃ l', placeFixed l m = .ok (fixedLocation l.map m, l') ∧ l'.Orderly ∧ l'.map = l.map
      ∧ ∀ key a, (l'.space key).IsFree a ↔ (l.space key).IsFree a ∧ ¬Claims l.map m key a := by
  have htarget : ∀ a, (extent m m.org.toNat).Has a → (l.space (fixedKey l.map m)).IsFree a :=
    fun a ha => hfree _ a ⟨rfl, ha⟩
  -- an occupant in the way would use a free address
  have hnone : (l.space (fixedKey l.map m)).overlapping? (extent m m.org.toNat) = none := by
    refine List.find?_eq_none.mpr fun o ho hoverlaps => ?_
    obtain ⟨a, hoa, ha⟩ := Span.overlaps_iff.mp hoverlaps
    exact hl.not_free _ o ho a hoa (htarget a ha)
  obtain ⟨b, hb⟩ : ∃ b, (l.space (fixedKey l.map m)).reserve (extent m m.org.toNat) m = some b :=
    (BankSpace.exists_reserve_iff (hl.tidy _)).mpr htarget
  refine ⟨l.update (fixedKey l.map m) b, ?_, hl.update hb, rfl, ?_⟩
  · unfold placeFixed
    dsimp only
    split
    · next other hother => cases hnone.symm.trans hother
    split
    · next hrefused => cases hb.symm.trans hrefused
    · next space hspace =>
      obtain rfl : space = b := Option.some.inj (hspace.symm.trans hb)
      rfl
  · intro key a
    obtain ⟨-, hleft, -⟩ := BankSpace.reserve_eq_some hb (hl.tidy _)
    rw [Ledger.space_update]
    unfold Claims
    split
    · next hkey =>
      subst hkey
      rw [hleft]
      simp
    · next hkey => simp [hkey]

/-- A fixed section that was placed has found all that it asked for. -/
theorem free_of_placeFixed (hl : l.Orderly) {placed : Location × Ledger}
    (h : placeFixed l m = .ok placed) :
    ∀ key a, Claims l.map m key a → (l.space key).IsFree a := by
  unfold placeFixed at h
  dsimp only at h
  split at h
  · cases h
  split at h
  · cases h
  next space hspace =>
  rintro key a ⟨rfl, ha⟩
  exact (BankSpace.exists_reserve_iff (hl.tidy _)).mp ⟨space, hspace⟩ a ha

/-- Fixed sections find all that they ask for, and no two of them ask for the same. -/
structure Room (l : Ledger) (ms : List Merged) : Prop where
  free : ∀ m ∈ ms, ∀ key a, Claims l.map m key a → (l.space key).IsFree a
  apart : ms.Pairwise fun m n => ∀ key a, ¬(Claims l.map m key a ∧ Claims l.map n key a)

/-- The run: fixed sections for which there is room. -/
theorem placeAll_of_room (hl : l.Orderly) (h : Room l ms) :
    (placeAll placeFixed l ms).1 = ms.map (fun m => ⟨m, .ok (fixedLocation l.map m)⟩)
      ∧ (placeAll placeFixed l ms).2.Orderly ∧ (placeAll placeFixed l ms).2.map = l.map
      ∧ ∀ key a, ((placeAll placeFixed l ms).2.space key).IsFree a
        ↔ (l.space key).IsFree a ∧ ∀ m ∈ ms, ¬Claims l.map m key a := by
  induction ms generalizing l with
  | nil => exact ⟨rfl, hl, rfl, by simp [placeAll]⟩
  | cons m rest ih =>
    obtain ⟨hfirst, hrest⟩ := List.forall_mem_cons.mp h.free
    obtain ⟨hapart, hpairs⟩ := List.pairwise_cons.mp h.apart
    obtain ⟨l', hplace, hl', hmap, hfree⟩ := placeFixed_of_free hl hfirst
    have hroom : Room l' rest := by
      refine ⟨fun n hn key a hclaims => ?_, ?_⟩
      · rw [hmap] at hclaims
        exact (hfree key a).mpr ⟨hrest n hn key a hclaims,
          fun hm => hapart n hn key a ⟨hm, hclaims⟩⟩
      · rw [hmap]
        exact hpairs
    obtain ⟨houtcomes, horderly, hmap', hfree'⟩ := ih hl' hroom
    unfold placeAll
    rw [hplace]
    dsimp only
    rw [hmap] at houtcomes hmap' hfree'
    refine ⟨by rw [houtcomes, List.map_cons], horderly, hmap', fun key a => ?_⟩
    rw [hfree', hfree, List.forall_mem_cons, and_assoc]

/-- If all fixed sections were placed, there was room for them. -/
theorem room_of_placeAll (hl : l.Orderly)
    (h : ∀ o ∈ (placeAll placeFixed l ms).1, ∃ loc, o.result = .ok loc) : Room l ms := by
  induction ms generalizing l with
  | nil => exact ⟨by simp, List.Pairwise.nil⟩
  | cons m rest ih =>
    unfold placeAll at h
    split at h
    · next e he =>
      rw [List.forall_mem_cons] at h
      obtain ⟨loc, hloc⟩ := h.1
      cases hloc
    · next loc placed hplace =>
      rw [List.forall_mem_cons] at h
      have hfirst := free_of_placeFixed hl hplace
      obtain ⟨l', hplace', hl', hmap, hfree⟩ := placeFixed_of_free hl hfirst
      obtain rfl : placed = l' := by
        rw [hplace] at hplace'
        exact congrArg Prod.snd (Except.ok.inj hplace')
      obtain ⟨hrest, hpairs⟩ := ih hl' h.2
      rw [hmap] at hrest hpairs
      refine ⟨List.forall_mem_cons.mpr ⟨hfirst, fun n hn key a hclaims => ?_⟩,
        List.pairwise_cons.mpr ⟨fun n hn key a hboth => ?_, hpairs⟩⟩
      · exact ((hfree key a).mp (hrest n hn key a hclaims)).1
      · exact ((hfree key a).mp (hrest n hn key a hboth.2)).2 hboth.1

/-- The same sections in another order and with other numbers. -/
def Renumbered (ms ms' : List Merged) : Prop :=
  (ms.map Merged.unnumbered).Perm (ms'.map Merged.unnumbered)

theorem Renumbered.exists_mem (h : Renumbered ms ms') (hm' : m' ∈ ms') :
    ∃ m ∈ ms, m.unnumbered = m'.unnumbered :=
  List.mem_map.mp (h.mem_iff.mpr (List.mem_map_of_mem hm'))

theorem Room.renumbered (h : Room l ms) (hms : Renumbered ms ms') : Room l ms' := by
  have hclaims : ∀ (n : Merged) key a, Claims l.map n.unnumbered key a ↔ Claims l.map n key a :=
    fun _ _ _ => Iff.rfl
  refine ⟨fun m' hm' key a hclaim => ?_, ?_⟩
  · obtain ⟨m, hm, heq⟩ := hms.exists_mem hm'
    rw [← hclaims, ← heq, hclaims] at hclaim
    exact h.free m hm key a hclaim
  · have hpairs : ∀ ns : List Merged, (ns.map Merged.unnumbered).Pairwise
        (fun m n => ∀ key a, ¬(Claims l.map m key a ∧ Claims l.map n key a)) ↔ ns.Pairwise
        (fun m n => ∀ key a, ¬(Claims l.map m key a ∧ Claims l.map n key a)) :=
      fun ns => List.pairwise_map
    rw [← hpairs, ← hms.pairwise_iff fun hmn key a hnm => hmn key a hnm.symm, hpairs]
    exact h.apart

/-! ## Floating sections -/

/-- The same addresses are free in both ledgers, and in the same spans. -/
structure SameFree (l l' : Ledger) : Prop where
  map_eq : l'.map = l.map
  free_eq : ∀ key, 0 < (l.map.region key.kind).size.toNat →
    (l'.space key).free = (l.space key).free

/-- Two attempts to place a section fail both, or find the same place and leave the same free. -/
inductive Matches {ε : Type} : Except ε (Location × Ledger) → Except ε (Location × Ledger) → Prop
  | error (e : ε) : Matches (.error e) (.error e)
  | ok (loc : Location) {l l' : Ledger} (same : SameFree l l') :
      Matches (.ok (loc, l)) (.ok (loc, l'))

theorem eq_of_unnumbered_eq (h : m'.unnumbered = m.unnumbered) : m' = { m with id := m'.id } := by
  have hid : m' = { m'.unnumbered with id := m'.id } := rfl
  rw [h] at hid
  exact hid

theorem fitIn_congr {space space' : BankSpace} (hfree : space'.free = space.free)
    (hm : m'.unnumbered = m.unnumbered) (largest : ℕ) (frees : List Span) :
    (fitIn space' m' largest frees).map (fun r => (r.1, r.2.free))
      = (fitIn space m largest frees).map (fun r => (r.1, r.2.free)) := by
  rw [eq_of_unnumbered_eq hm]
  generalize m'.id = i
  induction frees generalizing largest with
  | nil => rfl
  | cons free rest ih =>
    have hcandidate : candidate? { m with id := i } free = candidate? m free := rfl
    unfold fitIn
    rw [hcandidate]
    cases candidate? m free with
    | none => exact ih largest
    | some start =>
      have hextent : extent { m with id := i } start = extent m start := rfl
      have hsize : ({ m with id := i } : Merged).size = m.size := rfl
      dsimp only
      rw [hextent, hsize]
      by_cases hfits : start + m.size.toNat ≤ free.stop
      · rw [if_pos hfits, if_pos hfits]
        -- both spaces can be reserved or not, and leave the same
        have hleft := space'.free_reserve (extent m start) { m with id := i }
        rw [hfree, ← space.free_reserve (extent m start) m] at hleft
        cases hreserve : space.reserve (extent m start) m with
        | none =>
          rw [hreserve, Option.map_none, Option.map_eq_none_iff] at hleft
          rw [hleft]
          exact ih _
        | some left =>
          rw [hreserve, Option.map_some, Option.map_eq_some_iff] at hleft
          obtain ⟨left', hreserve', heq⟩ := hleft
          rw [hreserve']
          show Except.ok (start, left'.free) = Except.ok (start, left.free)
          rw [heq]
      · rw [if_neg hfits, if_neg hfits]
        exact ih _

theorem SameFree.update (h : SameFree l l') {key : BankKey} {b b' : BankSpace}
    (hfree : b'.free = b.free) : SameFree (l.update key b) (l'.update key b') := by
  refine ⟨h.map_eq, fun key' hpos => ?_⟩
  rw [Ledger.space_update, Ledger.space_update]
  split
  · exact hfree
  · exact h.free_eq key' hpos

theorem matches_searchBanks (h : SameFree l l') (hm : m'.unnumbered = m.unnumbered)
    (hpos : 0 < (l.map.region m.kind).size.toNat) (count : ℕ) (bank : UInt32) (largest : ℕ) :
    Matches (searchBanks l m count bank largest) (searchBanks l' m' count bank largest) := by
  have hkind : m'.kind = m.kind := by rw [eq_of_unnumbered_eq hm]
  induction count generalizing bank largest with
  | zero => exact .error largest
  | succ count ih =>
    have hspaces := h.free_eq ⟨m.kind, bank⟩ hpos
    have hfit := fitIn_congr hspaces hm largest (l.space ⟨m.kind, bank⟩).free
    unfold searchBanks
    dsimp only
    rw [hkind, hspaces]
    cases hresult : fitIn (l.space ⟨m.kind, bank⟩) m largest (l.space ⟨m.kind, bank⟩).free with
    | error n =>
      rw [hresult] at hfit
      cases hresult' : fitIn (l'.space ⟨m.kind, bank⟩) m' largest
          (l.space ⟨m.kind, bank⟩).free with
      | error n' =>
        rw [hresult'] at hfit
        obtain rfl : n' = n := Except.error.inj hfit
        exact ih (bank + 1) n'
      | ok found =>
        rw [hresult'] at hfit
        cases hfit
    | ok found =>
      rw [hresult] at hfit
      cases hresult' : fitIn (l'.space ⟨m.kind, bank⟩) m' largest
          (l.space ⟨m.kind, bank⟩).free with
      | error n' =>
        rw [hresult'] at hfit
        cases hfit
      | ok found' =>
        rw [hresult'] at hfit
        obtain ⟨start, left⟩ := found
        obtain ⟨start', left'⟩ := found'
        obtain ⟨rfl, hfree⟩ := Prod.mk.inj (Except.ok.inj hfit)
        exact .ok _ (h.update hfree)

/-- The step: a floating section finds the same place in ledgers with the same free addresses. -/
theorem matches_placeFloating (h : SameFree l l') (hm : m'.unnumbered = m.unnumbered)
    (hpos : 0 < (l.map.region m.kind).size.toNat) :
    Matches (placeFloating l m) (placeFloating l' m') := by
  have hfields := eq_of_unnumbered_eq hm
  have hkind : m'.kind = m.kind := by rw [hfields]
  have hsize : m'.size = m.size := by rw [hfields]
  have horg : m'.orgFixed = m.orgFixed := by rw [hfields]
  have hfixed : m'.bankFixed = m.bankFixed := by rw [hfields]
  have hbank : m'.bank = m.bank := by rw [hfields]
  unfold placeFloating
  dsimp only
  rw [h.map_eq, hkind, hsize, horg, hfixed, hbank]
  have hsearch := matches_searchBanks h hm hpos
    (if m.bankFixed then 1 else (l.map.region m.kind).bankCount.toNat)
    (if m.bankFixed then m.bank else (l.map.region m.kind).firstBank) 0
  generalize searchBanks l m _ _ 0 = result at hsearch ⊢
  generalize searchBanks l' m' _ _ 0 = result' at hsearch ⊢
  cases hsearch with
  | ok loc same => exact .ok loc same
  | error n =>
    dsimp only
    split
    · exact .ok _ h
    · exact .error _

theorem map_searchBanks {count largest : ℕ} {bank : UInt32} {placed : Location × Ledger}
    (h : searchBanks l m count bank largest = .ok placed) : placed.2.map = l.map := by
  induction count generalizing bank largest with
  | zero => cases h
  | succ count ih =>
    unfold searchBanks at h
    dsimp only at h
    split at h
    · cases h
      rfl
    · exact ih h

theorem map_placeFloating {placed : Location × Ledger} (h : placeFloating l m = .ok placed) :
    placed.2.map = l.map := by
  unfold placeFloating at h
  dsimp only at h
  split at h
  · next hsearch =>
    cases h
    exact map_searchBanks hsearch
  · split at h
    · cases h
      rfl
    · cases h

/-- What an outcome says of a section, its number apart. -/
def Outcome.summary (o : Outcome) : Merged × Option Location :=
  (o.subject.unnumbered, o.result.toOption)

/-- Places can be read from the summaries. -/
theorem Outcome.result_of_summary {o o' : Outcome} {loc : Location} (h : o.summary = o'.summary)
    (hok : o.result = .ok loc) : o'.result = .ok loc := by
  have hresult : o.result.toOption = o'.result.toOption := congrArg Prod.snd h
  rw [hok] at hresult
  cases hresult' : o'.result with
  | ok loc' =>
    rw [hresult'] at hresult
    rw [Option.some.inj hresult]
  | error e =>
    rw [hresult'] at hresult
    cases hresult

/-- The run: floating sections in the same order. -/
theorem summary_placeAll (h : SameFree l l')
    (hms : ms'.map Merged.unnumbered = ms.map Merged.unnumbered)
    (hpos : ∀ m ∈ ms, 0 < (l.map.region m.kind).size.toNat) :
    (placeAll placeFloating l' ms').1.map Outcome.summary
      = (placeAll placeFloating l ms).1.map Outcome.summary := by
  induction ms generalizing l l' ms' with
  | nil =>
    obtain rfl := List.map_eq_nil_iff.mp hms
    rfl
  | cons m rest ih =>
    cases ms' with
    | nil => cases hms
    | cons m' rest' =>
      obtain ⟨hm, hrest⟩ := List.cons.inj hms
      rw [List.forall_mem_cons] at hpos
      have hstep := matches_placeFloating h hm hpos.1
      have hmap : ∀ {placed : Location × Ledger}, placeFloating l m = .ok placed →
          placed.2.map = l.map := map_placeFloating
      unfold placeAll
      generalize placeFloating l m = result at hstep hmap ⊢
      generalize placeFloating l' m' = result' at hstep ⊢
      cases hstep with
      | error e =>
        dsimp only
        rw [List.map_cons, List.map_cons, ih h hrest hpos.2]
        refine congrArg (· :: _) (Prod.ext hm rfl)
      | ok loc same =>
        dsimp only
        have hpos' := hpos.2
        rw [← hmap rfl] at hpos'
        rw [List.map_cons, List.map_cons, ih same hrest hpos']
        refine congrArg (· :: _) (Prod.ext hm rfl)

/-! ### The order of floating sections -/

/-- A floating section comes before another or after it. -/
def floatsBefore (a b : Merged) : Bool :=
  (compareFloating a b).isLE

instance : Std.TransCmp compareFloating :=
  have : Std.TransCmp fun a b : Merged => compare b.size a.size :=
    @Std.TransCmp.opposite _ (compareOn Merged.size) inferInstance
  inferInstanceAs (Std.TransCmp (compareLex (compareOn constraintClass)
    (compareLex (fun a b : Merged => compare b.size a.size)
      (compareLex (compareOn Merged.name) (compareOn Merged.id)))))

/-- Numbers decide last. -/
theorem floatsBefore_unnumbered (h : floatsBefore m n = true) :
    floatsBefore m.unnumbered n.unnumbered = true := by
  unfold floatsBefore compareFloating at *
  simp only [Ordering.isLE_then_iff_or] at h ⊢
  exact h.imp_right (And.imp_right (Or.imp_right (And.imp_right (Or.imp_right
    (And.imp_right fun _ => rfl)))))

/-- Of sections with different names one comes first. -/
theorem name_eq_of_floatsBefore (h : floatsBefore m n = true) (h' : floatsBefore n m = true) :
    m.name = n.name := by
  have heq : compareFloating m n = .eq := Std.OrientedCmp.isLE_antisymm h h'
  unfold compareFloating at heq
  simp only [Ordering.then_eq_eq] at heq
  exact Std.LawfulEqOrd.eq_of_compare heq.2.2.1

theorem Renumbered.filter (h : Renumbered ms ms') {p : Merged → Bool}
    (hp : ∀ m : Merged, p m.unnumbered = p m) : Renumbered (ms.filter p) (ms'.filter p) := by
  have hfilter := List.Perm.filter p h
  rw [List.filter_map, List.filter_map, show p ∘ Merged.unnumbered = p from funext hp] at hfilter
  exact hfilter

theorem Renumbered.mergeSort (h : Renumbered ms ms') (le : Merged → Merged → Bool) :
    Renumbered (ms.mergeSort le) (ms'.mergeSort le) :=
  ((List.mergeSort_perm ms le).map _).trans (h.trans ((List.mergeSort_perm ms' le).map _).symm)

/-- Floating sections with distinct names are always placed in the same order. -/
theorem Renumbered.map_mergeSort (h : Renumbered ms ms') (hnames : (ms.map Merged.name).Nodup) :
    (ms'.mergeSort floatsBefore).map Merged.unnumbered
      = (ms.mergeSort floatsBefore).map Merged.unnumbered := by
  have hsorted : ∀ ns : List Merged, ((ns.mergeSort floatsBefore).map Merged.unnumbered).Pairwise
      fun a b => floatsBefore a b = true := by
    intro ns
    rw [List.pairwise_map]
    exact (pairwise_mergeSort_isLE compareFloating ns).imp floatsBefore_unnumbered
  have hperm := h.mergeSort floatsBefore
  refine (hperm.eq_of_pairwise ?_ (hsorted ms) (hsorted ms')).symm
  intro a b ha hb hab hba
  have hmem : ∀ {c}, c ∈ (ms.mergeSort floatsBefore).map Merged.unnumbered →
      c ∈ ms.map Merged.unnumbered := ((List.mergeSort_perm ms floatsBefore).map _).mem_iff.mp
  have hunique : ((ms.map Merged.unnumbered).map Merged.name).Nodup := by
    rw [List.map_map]
    exact hnames
  exact List.inj_on_of_nodup_map hunique (hmem ha) (hmem (hperm.mem_iff.mpr hb))
    (name_eq_of_floatsBefore hab hba)

/-! ### All sections -/

/-- If nothing is impossible, the fixed sections are placed and then the others. -/
theorem assign_of_valid {sections : List Merged}
    (h : ∀ m ∈ sections, validate map m = .ok ()) :
    assign map sections
      = (placeAll placeFixed { map } ((sections.filter (isFixed map)).mergeSort
          fun a b => (compareFixed a b).isLE)).1
        ++ (placeAll placeFloating
          (placeAll placeFixed { map } ((sections.filter (isFixed map)).mergeSort
            fun a b => (compareFixed a b).isLE)).2
          ((sections.filter fun m => !isFixed map m).mergeSort floatsBefore)).1 := by
  have hnone : ∀ m ∈ sections, rejection? map m = none := by
    intro m hm
    unfold rejection?
    rw [h m hm]
  have hrejected : sections.filterMap (rejection? map) = [] :=
    List.filterMap_eq_nil_iff.mpr hnone
  have hvalid : sections.filter (fun m => (rejection? map m).isNone) = sections := by
    refine List.filter_eq_self.mpr fun m hm => ?_
    rw [hnone m hm]
    rfl
  unfold assign
  simp only [hrejected, hvalid, List.partition_eq_filter_filter, List.nil_append]
  rfl

theorem validate_of_assign {sections : List Merged}
    (hok : ∀ o ∈ assign map sections, ∃ loc, o.result = .ok loc) :
    ∀ m ∈ sections, validate map m = .ok () := by
  intro m hm
  refine validate_of_rejection?_isNone (Option.isNone_iff_eq_none.mpr ?_)
  by_contra hsome
  obtain ⟨o, ho⟩ := Option.ne_none_iff_exists'.mp hsome
  have hmem : o ∈ assign map sections := by
    unfold assign
    exact List.mem_append_left _ (List.mem_append_left _ (List.mem_filterMap.mpr ⟨m, hm, ho⟩))
  obtain ⟨loc, hloc⟩ := hok o hmem
  obtain ⟨-, e, he⟩ := rejection?_eq_some ho
  rw [he] at hloc
  cases hloc

theorem size_pos_of_validate (h : validate map m = .ok ()) :
    0 < (map.region m.kind).size.toNat := by
  have hcount : (map.region m.kind).bankCount ≠ 0 := by
    intro hzero
    unfold validate at h
    dsimp only at h
    rw [if_pos hzero] at h
    cases h
  apply map.size_region_pos
  by_contra hunknown
  apply hcount
  rw [map.region_of_not_isKnown hunknown]

/-- The ledgers after the fixed sections have the same free addresses. -/
theorem sameFree_of_room (hroom : Room { map } ms) (hms : Renumbered ms ms') :
    SameFree (placeAll placeFixed { map } ms).2 (placeAll placeFixed { map } ms').2 := by
  obtain ⟨-, hl, hmap, hfree⟩ := placeAll_of_room (Ledger.orderly_empty map) hroom
  obtain ⟨-, hl', hmap', hfree'⟩ :=
    placeAll_of_room (Ledger.orderly_empty map) (hroom.renumbered hms)
  refine ⟨hmap'.trans hmap.symm, fun key hpos => ?_⟩
  rw [hmap] at hpos
  refine (hl'.tidy key).eq_of_covers (hl.tidy key) (hl'.start_lt_stop key (by rwa [hmap']))
    (hl.start_lt_stop key (by rwa [hmap])) fun a => ?_
  refine (hfree' key a).trans (Iff.trans ?_ (hfree key a).symm)
  refine and_congr_right fun _ => ⟨fun h m hm => ?_, fun h m' hm' => ?_⟩
  · obtain ⟨m', hm', heq⟩ := Renumbered.exists_mem hms.symm hm
    rw [eq_of_unnumbered_eq heq.symm]
    exact h m' hm'
  · obtain ⟨m, hm, heq⟩ := hms.exists_mem hm'
    rw [eq_of_unnumbered_eq heq.symm]
    exact h m hm

/-- If all sections find a place, they find it in any order and whatever their numbers are. -/
theorem assign_renumbered {sections sections' : List Merged} (h : Renumbered sections sections')
    (hnames : (sections.map Merged.name).Nodup)
    (hok : ∀ o ∈ assign map sections, ∃ loc, o.result = .ok loc) :
    ((assign map sections).map Outcome.summary).Perm
      ((assign map sections').map Outcome.summary) := by
  have hvalid := validate_of_assign hok
  have hvalid' : ∀ m' ∈ sections', validate map m' = .ok () := by
    intro m' hm'
    obtain ⟨m, hm, heq⟩ := h.exists_mem hm'
    have hsame : validate map m.unnumbered = validate map m := rfl
    rw [← hvalid m hm, ← hsame, heq]
    rfl
  rw [assign_of_valid hvalid] at hok ⊢
  rw [assign_of_valid hvalid']
  have hfixed := (h.filter (p := isFixed map) fun _ => rfl).mergeSort
    fun a b => (compareFixed a b).isLE
  have hfloating := h.filter (p := fun m => !isFixed map m) fun _ => rfl
  have hroom := room_of_placeAll (Ledger.orderly_empty map) fun o ho =>
    hok o (List.mem_append_left _ ho)
  have hsame := sameFree_of_room hroom hfixed
  obtain ⟨houtcomes, -, hmap, -⟩ := placeAll_of_room (Ledger.orderly_empty map) hroom
  obtain ⟨houtcomes', -⟩ := placeAll_of_room (Ledger.orderly_empty map) (hroom.renumbered hfixed)
  have hrest := summary_placeAll hsame
    (hfloating.map_mergeSort (hnames.sublist (List.filter_sublist.map _))) (by
      intro m hm
      rw [hmap]
      exact size_pos_of_validate
        (hvalid m (List.mem_of_mem_filter (List.mem_mergeSort.mp hm))))
  rw [List.map_append, List.map_append, hrest]
  refine List.Perm.append_right _ ?_
  rw [houtcomes, houtcomes', List.map_map, List.map_map]
  -- where a fixed section goes does not depend on its number
  have hsummary : ∀ ns : List Merged,
      ns.map (Outcome.summary ∘ fun m => ⟨m, .ok (fixedLocation map m)⟩)
        = (ns.map Merged.unnumbered).map fun m => (m, some (fixedLocation map m)) := by
    intro ns
    rw [List.map_map]
    rfl
  show (List.map (Outcome.summary ∘ fun m => ⟨m, .ok (fixedLocation map m)⟩) _).Perm
    (List.map (Outcome.summary ∘ fun m => ⟨m, .ok (fixedLocation map m)⟩) _)
  rw [hsummary, hsummary]
  exact hfixed.map _

/-- **The order does not matter.** Take sections with distinct names that all find a place. In any
other order, and with any other numbers, all of them find a place again, and the outcome of each
section is the one that the section of its name had before. -/
theorem assign_permuted {sections sections' : List Merged} (h : Renumbered sections sections')
    (hnames : (sections.map Merged.name).Nodup)
    (hok : ∀ o ∈ assign map sections, ∃ loc, o.result = .ok loc) :
    (∀ o' ∈ assign map sections', ∃ loc, o'.result = .ok loc)
    ∧ ∀ o ∈ assign map sections, ∀ m' ∈ sections', m'.name = o.subject.name →
      ∀ result, (⟨m', result⟩ ∈ assign map sections' ↔ result = o.result) := by
  have hperm := assign_renumbered h hnames hok
  -- what is summed up the same in both assignments is placed the same
  have hsame : ∀ o' ∈ assign map sections', ∃ o ∈ assign map sections,
      o.subject.name = o'.subject.name ∧ o'.result = o.result := by
    intro o' ho'
    rcases List.mem_map.mp (hperm.mem_iff.mpr (List.mem_map_of_mem ho')) with ⟨o, ho, hsummary⟩
    rcases hok o ho with ⟨loc, hloc⟩
    have hname : o.subject.unnumbered.name = o'.subject.unnumbered.name :=
      congrArg Merged.name (congrArg Prod.fst hsummary)
    refine ⟨o, ho, hname, ?_⟩
    rw [hloc, Outcome.result_of_summary hsummary hloc]
  have hresult : ∀ o ∈ assign map sections, ∀ o' ∈ assign map sections',
      o'.subject.name = o.subject.name → o'.result = o.result := by
    intro o ho o' ho' hname
    rcases hsame o' ho' with ⟨p, hp, hpname, hpresult⟩
    have hpo : p = o :=
      List.inj_on_of_nodup_map (nodup_map_assign hnames) hp ho (hpname.trans hname)
    rw [hpresult, hpo]
  refine ⟨fun o' ho' => ?_, fun o ho m' hm' hname result => ⟨fun hmem => ?_, fun heq => ?_⟩⟩
  · rcases hsame o' ho' with ⟨o, ho, -, heq⟩
    rw [heq]
    exact hok o ho
  · exact hresult o ho _ hmem hname
  · -- the section has an outcome, and no other than this one
    rcases exists_mem_assign map hm' with ⟨o', ho', rfl⟩
    rw [heq, ← hresult o ho o' ho' hname]
    exact ho'

/-- A section of ROM0 that may ask for an address or an alignment. -/
def romPart (id : ℕ) (name : UInt8) (org : Option UInt16) (size : UInt32) (align : UInt8) :
    Merged :=
  { id, name := [name], kind := .rom0, modifier := .normal, size, orgFixed := org.isSome,
    org := org.getD 0, align }

/-- An aligned section, a larger one, two of one size, and one with an address. -/
def romParts : List Merged :=
  [romPart 0 0x65 none 4 4, romPart 1 0x62 none 8 0, romPart 2 0x61 none 20 0,
    romPart 3 0x63 none 8 0, romPart 4 0x64 (some 8) 4 0]

/-- The same sections backwards, and numbered as they stand there. -/
def reversedParts : List Merged :=
  [romPart 0 0x64 (some 8) 4 0, romPart 1 0x63 none 8 0, romPart 2 0x61 none 20 0,
    romPart 3 0x62 none 8 0, romPart 4 0x65 none 4 4]

theorem assign_romParts : assign {} romParts =
    [⟨romPart 4 0x64 (some 8) 4 0, .ok ⟨8, 0⟩⟩, ⟨romPart 2 0x61 none 20 0, .ok ⟨12, 0⟩⟩,
      ⟨romPart 1 0x62 none 8 0, .ok ⟨0, 0⟩⟩, ⟨romPart 3 0x63 none 8 0, .ok ⟨32, 0⟩⟩,
      ⟨romPart 0 0x65 none 4 4, .ok ⟨48, 0⟩⟩] := by
  cbv

/-- Of the two sections of one size the same one goes first in both orders, and the aligned section
goes to the same address. -/
theorem assign_permuted_reversedParts :
    (∀ o ∈ assign {} reversedParts, ∃ loc, o.result = .ok loc)
      ∧ ⟨romPart 3 0x62 none 8 0, .ok ⟨0, 0⟩⟩ ∈ assign {} reversedParts
      ∧ ⟨romPart 1 0x63 none 8 0, .ok ⟨32, 0⟩⟩ ∈ assign {} reversedParts
      ∧ ⟨romPart 4 0x65 none 4 4, .ok ⟨48, 0⟩⟩ ∈ assign {} reversedParts := by
  have hrenumbered : Renumbered romParts reversedParts :=
    (List.reverse_perm (romParts.map Merged.unnumbered)).symm
  have hplaced : ∀ o ∈ assign {} romParts, ∃ loc, o.result = .ok loc := by
    simp [assign_romParts]
  rcases assign_permuted hrenumbered (by decide) hplaced with ⟨hall, hsame⟩
  rw [assign_romParts] at hsame
  refine ⟨hall, ?_, ?_, ?_⟩
  · exact (hsame ⟨romPart 1 0x62 none 8 0, .ok ⟨0, 0⟩⟩ (by simp) (romPart 3 0x62 none 8 0)
      (by simp [reversedParts]) rfl _).mpr rfl
  · exact (hsame ⟨romPart 3 0x63 none 8 0, .ok ⟨32, 0⟩⟩ (by simp) (romPart 1 0x63 none 8 0)
      (by simp [reversedParts]) rfl _).mpr rfl
  · exact (hsame ⟨romPart 0 0x65 none 4 4, .ok ⟨48, 0⟩⟩ (by simp) (romPart 4 0x65 none 4 4)
      (by simp [reversedParts]) rfl _).mpr rfl

end Placement

end BankedLinker
