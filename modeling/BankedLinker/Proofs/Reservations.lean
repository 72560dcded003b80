import BankedLinker.Proofs.Packing

/-!
# Reservations in a bank

A bank starts out with one free span and nothing used. Spans are then asked for one after the
other, and each is granted or refused. Whatever the requests are, the free and the used spans
divide the region between them, so that a span can be refused only because it leads out of the
region or into a used one.

* `BankSpace.Divides`: free and used spans stand in order and divide a region;
* `BankSpace.reserve_cases`: what a granted request does to the two lists;
* `BankSpace.Divides.reserve` is the step, `BankSpace.divides_reserveAll` the run;
* `BankSpace.Divides.exists_reserve_iff`: which requests are granted;
* `BankSpace.reserveAll_divides` is the result.
-/

namespace BankedLinker

/-- Spans with addresses that share none lie one after the other. -/
theorem Span.stop_le_or_stop_le {s t : Span} (hs : s.start < s.stop) (ht : t.start < t.stop)
    (h : ∀ a, s.Has a → ¬t.Has a) : s.stop ≤ t.start ∨ t.stop ≤ s.start := by
  unfold Has at h
  have hshared := h (max s.start t.start)
  omega

/-- A bank is fresh until it is used for the first time. -/
theorem Ledger.space_of_not_mem {l : Ledger} {key : BankKey} (h : key ∉ l.banks) :
    l.space key = .fresh (l.map.region key.kind) :=
  Std.HashMap.getD_eq_fallback h

namespace BankSpace

variable {r : Region} {b b' : BankSpace} {s : Span} {user : Merged} {x o : Occupant}
  {used : List Occupant} {a : ℕ}

/-- An address belongs to an occupant. -/
def IsUsed (b : BankSpace) (a : ℕ) : Prop :=
  ∃ o ∈ b.used, o.span.Has a

/-- The bank after an occupant has asked for its span. A refusal leaves the bank as it is. -/
def afterRequest (b : BankSpace) (x : Occupant) : BankSpace :=
  (b.reserve x.span x.user).getD b

/-- The bank after a sequence of requests. -/
def reserveAll (b : BankSpace) (requests : List Occupant) : BankSpace :=
  requests.foldl afterRequest b

/-- Free and used spans have addresses, stand in ascending order and divide the region: free spans
have a gap between them, used spans do not overlap, and each address of the region is either free
or used. -/
structure Divides (r : Region) (b : BankSpace) : Prop where
  free_apart : b.free.Pairwise fun f g => f.stop < g.start
  free_nonempty : ∀ f ∈ b.free, f.start < f.stop
  used_apart : b.used.Pairwise fun o p => o.span.stop ≤ p.span.start
  used_nonempty : ∀ o ∈ b.used, o.span.start < o.span.stop
  free_or_used : ∀ a, b.IsFree a ∨ b.IsUsed a ↔ r.HasAddress a
  not_free_and_used : ∀ a, ¬(b.IsFree a ∧ b.IsUsed a)

/-! ## Occupants -/

/-- An occupant is put between two neighbours. -/
theorem exists_insert_eq (x : Occupant) (used : List Occupant) :
    ∃ before after, used = before ++ after ∧ insert x used = before ++ x :: after := by
  induction used with
  | nil => exact ⟨[], [], rfl, rfl⟩
  | cons y rest ih =>
    unfold insert
    by_cases hlt : y.span.start < x.span.start
    · rcases ih with ⟨before, after, hrest, hinsert⟩
      rw [if_pos hlt, hinsert, hrest]
      exact ⟨y :: before, after, rfl, rfl⟩
    · rw [if_neg hlt]
      exact ⟨[], y :: rest, rfl, rfl⟩

/-- An occupant that shares no address with the others is put in its place. -/
theorem pairwise_insert (hx : x.span.start < x.span.stop)
    (hnonempty : ∀ o ∈ used, o.span.start < o.span.stop)
    (hclear : ∀ o ∈ used, o.span.stop ≤ x.span.start ∨ x.span.stop ≤ o.span.start)
    (h : used.Pairwise fun o p => o.span.stop ≤ p.span.start) :
    (insert x used).Pairwise fun o p => o.span.stop ≤ p.span.start := by
  induction used with
  | nil => exact List.pairwise_singleton _ _
  | cons y rest ih =>
    rw [List.forall_mem_cons] at hnonempty hclear
    rw [List.pairwise_cons] at h
    unfold insert
    by_cases hlt : y.span.start < x.span.start
    · have hbefore : y.span.stop ≤ x.span.start := by omega
      rw [if_pos hlt, List.pairwise_cons]
      refine ⟨?_, ih hnonempty.2 hclear.2 h.2⟩
      intro o ho
      rcases mem_insert_iff.mp ho with rfl | ho
      · exact hbefore
      · exact h.1 o ho
    · have hafter : x.span.stop ≤ y.span.start := by omega
      rw [if_neg hlt, List.pairwise_cons, List.pairwise_cons]
      refine ⟨?_, h⟩
      intro o ho
      rcases List.mem_cons.mp ho with rfl | ho
      · exact hafter
      · -- `o` comes after `y`, and `y` after `x`
        have hle := h.1 o ho
        omega

/-! ## One request -/

/-- A request that is granted is empty and changes nothing, or its span is carved out of the free
ones and joins the used ones. -/
theorem reserve_cases (h : b.reserve s user = some b') :
    (s.stop ≤ s.start ∧ b' = b)
      ∨ (s.start < s.stop ∧ ∃ free, carve? s b.free = some free
        ∧ b' = { free, used := insert ⟨s, user⟩ b.used }) := by
  unfold reserve at h
  by_cases hempty : s.isEmpty = true
  · rw [if_pos hempty] at h
    exact Or.inl ⟨Span.isEmpty_iff.mp hempty, (Option.some.inj h).symm⟩
  · rw [if_neg hempty] at h
    rw [Span.isEmpty_iff, Nat.not_le] at hempty
    split at h
    · cases h
    · next free hfree => exact Or.inr ⟨hempty, free, hfree, (Option.some.inj h).symm⟩

theorem isUsed_insert {free : List Span} :
    IsUsed { free, used := insert x b.used } a ↔ x.span.Has a ∨ b.IsUsed a := by
  unfold IsUsed
  simp only [mem_insert_iff, or_and_right, exists_or, exists_eq_left]

namespace Divides

variable (h : Divides r b)

include h

theorem tidy : Tidy b.free :=
  ⟨h.free_apart, fun f hf => (h.free_nonempty f hf).le⟩

theorem isFree_iff : b.IsFree a ↔ r.HasAddress a ∧ ¬b.IsUsed a := by
  have hone := h.free_or_used a
  have hboth := h.not_free_and_used a
  tauto

/-- The step: a request that is granted leaves the region divided. -/
theorem reserve (hb : b.reserve s user = some b') : Divides r b' := by
  rcases reserve_eq_some hb h.tidy with ⟨htidy, hfree, hwas⟩
  rcases reserve_cases hb with ⟨-, rfl⟩ | ⟨hs, free, hcarve, rfl⟩
  · exact h
  -- the addresses of the span were free, so that no occupant has them
  have hclear : ∀ o ∈ b.used, o.span.stop ≤ s.start ∨ s.stop ≤ o.span.start := by
    intro o ho
    apply Span.stop_le_or_stop_le (h.used_nonempty o ho) hs
    intro a hoa hsa
    exact h.not_free_and_used a ⟨hwas a hsa, o, ho, hoa⟩
  constructor
  · exact htidy.apart
  · exact start_lt_stop_of_carve? hcarve h.free_nonempty
  · exact pairwise_insert hs h.used_nonempty hclear h.used_apart
  · intro o ho
    rcases mem_insert_iff.mp ho with rfl | ho
    · exact hs
    · exact h.used_nonempty o ho
  · intro a
    rw [hfree a, isUsed_insert, ← h.free_or_used a]
    have hsfree := hwas a
    tauto
  · intro a
    rw [hfree a, isUsed_insert]
    have hboth := h.not_free_and_used a
    tauto

/-- A span with addresses is granted exactly if it lies inside of the region and meets no
occupant. -/
theorem exists_reserve_iff (hs : s.start < s.stop) :
    (∃ b', b.reserve s user = some b')
      ↔ (r.start.toNat ≤ s.start ∧ s.stop ≤ r.start.toNat + r.size.toNat)
        ∧ ∀ o ∈ b.used, ∀ a, o.span.Has a → ¬s.Has a := by
  rw [BankSpace.exists_reserve_iff h.tidy]
  constructor
  · intro hfree
    have hfirst := h.isFree_iff.mp (hfree s.start ⟨le_rfl, hs⟩)
    have hlast := h.isFree_iff.mp (hfree (s.stop - 1) ⟨by omega, by omega⟩)
    constructor
    · have hlow := hfirst.1.1
      have hhigh := hlast.1.2
      omega
    · intro o ho a hoa hsa
      exact h.not_free_and_used a ⟨hfree a hsa, o, ho, hoa⟩
  · intro hfits a ha
    apply h.isFree_iff.mpr
    constructor
    · unfold Span.Has at ha
      unfold Region.HasAddress
      omega
    · intro hused
      rcases hused with ⟨o, ho, hoa⟩
      exact hfits.2 o ho a hoa ha

end Divides

/-! ## Sequences of requests -/

theorem divides_fresh (h : r.start.toNat < r.stop.toNat)
    (hstop : r.stop.toNat = r.start.toNat + r.size.toNat) : Divides r (fresh r) where
  free_apart := List.pairwise_singleton _ _
  free_nonempty f hf := by
    rw [List.mem_singleton.mp hf]
    exact h
  used_apart := List.Pairwise.nil
  used_nonempty o ho := by cases ho
  free_or_used a := by
    have hnone : ¬(fresh r).IsUsed a := by simp [IsUsed, fresh]
    rw [isFree_fresh, hstop]
    exact or_iff_left hnone
  not_free_and_used a := by simp [IsUsed, fresh]

/-- The run: the region stays divided whatever is asked for. -/
theorem divides_reserveAll (h : Divides r b) (requests : List Occupant) :
    Divides r (b.reserveAll requests) := by
  induction requests generalizing b with
  | nil => exact h
  | cons x rest ih =>
    show Divides r ((b.afterRequest x).reserveAll rest)
    apply ih
    unfold afterRequest
    cases hb : b.reserve x.span x.user with
    | none => exact h
    | some b' => exact h.reserve hb

/-- How a bank of a region answers a request, and what is left of the bank then. -/
structure Answers (r : Region) (b : BankSpace) (x : Occupant) : Prop where
  /-- A span with addresses is granted exactly if it lies inside of the region and meets no used
  span. -/
  granted_iff : x.span.start < x.span.stop →
    ((∃ b', b.reserve x.span x.user = some b')
      ↔ (r.start.toNat ≤ x.span.start ∧ x.span.stop ≤ r.start.toNat + r.size.toNat)
        ∧ ∀ o ∈ b.used, ∀ a, o.span.Has a → ¬x.span.Has a)
  /-- Then it joins the used spans, and none of them changes. -/
  used_eq : x.span.start < x.span.stop → ∀ b', b.reserve x.span x.user = some b' →
    ∃ before after, b.used = before ++ after ∧ b'.used = before ++ x :: after
  /-- Its addresses are free no longer, and no others cease to be so. -/
  isFree_iff : x.span.start < x.span.stop → ∀ b', b.reserve x.span x.user = some b' →
    ∀ a, b'.IsFree a ↔ b.IsFree a ∧ ¬x.span.Has a
  /-- An empty span is granted. -/
  empty_granted : x.span.stop ≤ x.span.start → b.reserve x.span x.user = some b
  /-- What is empty or refused changes nothing. -/
  unchanged : x.span.stop ≤ x.span.start ∨ b.reserve x.span x.user = none → b.afterRequest x = b

theorem Divides.answers (h : Divides r b) (x : Occupant) : Answers r b x where
  granted_iff hx := h.exists_reserve_iff hx
  used_eq hx b' hb := by
    rcases reserve_cases hb with ⟨hle, -⟩ | ⟨-, free, -, rfl⟩
    · omega
    · exact exists_insert_eq x b.used
  isFree_iff _ b' hb := (reserve_eq_some hb h.tidy).2.1
  empty_granted hx := reserve_of_isEmpty (Span.isEmpty_iff.mpr hx)
  unchanged hx := by
    unfold afterRequest
    rcases hx with hempty | hrefused
    · rw [reserve_of_isEmpty (Span.isEmpty_iff.mpr hempty)]
      rfl
    · rw [hrefused]
      rfl

/-- **A bank stays divided.** Let spans of a bank that a ledger has not seen before be asked for
one after the other, whatever they are and whether or not they are granted. Afterwards free and used
spans stand in order and divide the region of the bank; a further span with addresses is granted
exactly if it lies inside of the region and meets no used span, and then just this span is used and
just its addresses are free no longer; and an empty span, or one that is refused, changes
nothing. -/
theorem reserveAll_divides (l : Ledger) {key : BankKey} (hk : key.kind.isKnown = true)
    (hfresh : key ∉ l.banks) (requests : List Occupant) :
    Divides (l.map.region key.kind) ((l.space key).reserveAll requests)
      ∧ ∀ x, Answers (l.map.region key.kind) ((l.space key).reserveAll requests) x := by
  have hdivided : Divides (l.map.region key.kind) (l.space key) := by
    have hsize := l.map.size_region_pos hk
    have hstop := l.map.toNat_stop key.kind
    rw [Ledger.space_of_not_mem hfresh]
    apply divides_fresh
    · show (l.map.region key.kind).start.toNat < (l.map.region key.kind).stop.toNat
      omega
    · exact hstop
  have hdivides := divides_reserveAll hdivided requests
  exact ⟨hdivides, hdivides.answers⟩

/-- A user of addresses of VRAM. -/
def vramUser : Merged :=
  { id := 0, name := "v", kind := .vram, modifier := .normal }

/-- Requests for the first page of VRAM, for a part of it and more, for the last page, and for
nothing right behind the first page. -/
def vramRequests : List Occupant :=
  [⟨⟨0x8000, 0x8100⟩, vramUser⟩, ⟨⟨0x8080, 0x8180⟩, vramUser⟩, ⟨⟨0x9F00, 0xA000⟩, vramUser⟩,
    ⟨⟨0x8100, 0x8100⟩, vramUser⟩]

/-- The second request is refused. What is left between the two pages is granted in one piece. -/
theorem reserveAll_divides_vramRequests :
    RegionKind.vram.isKnown = true ∧ (⟨.vram, 1⟩ : BankKey) ∉ ({ map := {} } : Ledger).banks
      ∧ ∃ b b' : BankSpace,
      (({ map := {} } : Ledger).space ⟨.vram, 1⟩).reserveAll vramRequests = b
      ∧ b.free = [⟨0x8100, 0x9F00⟩]
      ∧ b.used.map Occupant.span = [⟨0x8000, 0x8100⟩, ⟨0x9F00, 0xA000⟩]
      ∧ Divides (({} : MemoryMap).region .vram) b
      ∧ b.reserve ⟨0x8100, 0x9F00⟩ vramUser = some b'
      ∧ ∀ a, b'.IsFree a ↔ b.IsFree a ∧ ¬Span.Has ⟨0x8100, 0x9F00⟩ a := by
  have hknown : RegionKind.vram.isKnown = true := rfl
  have hunused : (⟨.vram, 1⟩ : BankKey) ∉ ({ map := {} } : Ledger).banks :=
    Std.HashMap.not_mem_empty
  rcases reserveAll_divides { map := {} } hknown hunused vramRequests with ⟨hdivides, hanswers⟩
  have hanswer := hanswers ⟨⟨0x8100, 0x9F00⟩, vramUser⟩
  have hb : (({ map := {} } : Ledger).space ⟨.vram, 1⟩).reserveAll vramRequests
      = { free := [⟨0x8100, 0x9F00⟩],
          used := [⟨⟨0x8000, 0x8100⟩, vramUser⟩, ⟨⟨0x9F00, 0xA000⟩, vramUser⟩] } := by
    rw [Ledger.space_empty]
    rfl
  rw [hb] at hdivides hanswer
  have hlt : 0x8100 < 0x9F00 := by decide
  exact ⟨hknown, hunused, _, _, hb, rfl, rfl, hdivides, rfl, hanswer.isFree_iff hlt _ rfl⟩

end BankSpace

end BankedLinker
