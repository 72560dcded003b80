import BankedLinker.Placement.Ledger
import Mathlib.Data.List.Basic
import Mathlib.Order.Nat
import Mathlib.Tactic.SplitIfs

/-!
# The free addresses of a bank

The ledger keeps the free addresses of a bank as a list of spans. Here the list is read as the set
of its addresses.

* `BankSpace.IsFree` says that an address is free;
* `BankSpace.Tidy` is the invariant of the list: ascending, with a gap between any two spans;
* `BankSpace.reserve_eq_some`: reserving a span takes exactly its addresses out of the free ones,
  all of which were free, and keeps the list tidy;
* `BankSpace.exists_carve?_iff`: a span can be carved out exactly if it lies in one free span;
* `Ledger.space_update`: changing one bank leaves the others as they are.
-/

namespace BankedLinker

namespace Span

/-- An address belongs to the span. -/
def Has (s : Span) (a : ℕ) : Prop :=
  s.start ≤ a ∧ a < s.stop

theorem isEmpty_iff {s : Span} : s.isEmpty = true ↔ s.stop ≤ s.start := by
  unfold isEmpty size
  rw [decide_eq_true_eq]
  omega

theorem isInside_iff {s t : Span} : s.isInside t = true ↔ t.start ≤ s.start ∧ s.stop ≤ t.stop := by
  simp only [isInside, Bool.and_eq_true, decide_eq_true_eq]

/-- What is left of a span lies on one side of what was taken. -/
theorem mem_without {s taken f : Span} (h : f ∈ s.without taken) :
    f.start < f.stop ∧ (f.start = s.start ∧ f.stop = taken.start
      ∨ f.start = taken.stop ∧ f.stop = s.stop) := by
  unfold without at h
  rw [List.mem_append] at h
  rcases h with h | h
  · split_ifs at h with hlt
    · obtain rfl := List.mem_singleton.mp h
      exact ⟨hlt, Or.inl ⟨rfl, rfl⟩⟩
    · cases h
  · split_ifs at h with hlt
    · obtain rfl := List.mem_singleton.mp h
      exact ⟨hlt, Or.inr ⟨rfl, rfl⟩⟩
    · cases h

/-- What is left of a span has all of its addresses but those that were taken. -/
theorem exists_mem_without_has {s taken : Span} (hinside : taken.isInside s = true)
    (hne : taken.start < taken.stop) (a : ℕ) :
    (∃ f ∈ s.without taken, f.Has a) ↔ s.Has a ∧ ¬taken.Has a := by
  rw [isInside_iff] at hinside
  unfold Has
  constructor
  · rintro ⟨f, hf, ha⟩
    obtain ⟨-, h | h⟩ := mem_without hf <;> omega
  · rintro ⟨hs, htaken⟩
    by_cases hlow : a < taken.start
    · refine ⟨⟨s.start, taken.start⟩, ?_, by dsimp only; omega⟩
      unfold without
      rw [if_pos (show s.start < taken.start by omega)]
      exact List.mem_append_left _ (List.mem_singleton.mpr rfl)
    · refine ⟨⟨taken.stop, s.stop⟩, ?_, by dsimp only; omega⟩
      unfold without
      rw [if_pos (show taken.stop < s.stop by omega)]
      exact List.mem_append_right _ (List.mem_singleton.mpr rfl)

end Span

namespace BankSpace

/-- The spans stand in ascending order, and there is an address between any two of them. -/
structure Tidy (free : List Span) : Prop where
  apart : free.Pairwise fun f g => f.stop < g.start
  start_le_stop : ∀ f ∈ free, f.start ≤ f.stop

/-- An address belongs to one of the spans. -/
def Covers (free : List Span) (a : ℕ) : Prop :=
  ∃ f ∈ free, f.Has a

/-- An address is free. -/
def IsFree (b : BankSpace) (a : ℕ) : Prop :=
  Covers b.free a

theorem covers_append {l₁ l₂ : List Span} {a : ℕ} :
    Covers (l₁ ++ l₂) a ↔ Covers l₁ a ∨ Covers l₂ a := by
  unfold Covers
  simp only [List.mem_append, or_and_right, exists_or]

theorem covers_cons {f : Span} {l : List Span} {a : ℕ} :
    Covers (f :: l) a ↔ f.Has a ∨ Covers l a := by
  unfold Covers
  simp only [List.mem_cons, exists_eq_or_imp]

/-! ## Carving -/

/-- A span can be carved out exactly if it lies in one of the spans. -/
theorem exists_carve?_iff {s : Span} {free : List Span} :
    (∃ free', carve? s free = some free') ↔ ∃ f ∈ free, s.isInside f = true := by
  induction free with
  | nil => simp [carve?]
  | cons f rest ih =>
    by_cases hin : s.isInside f = true
    · simp [carve?, hin]
    · simp [carve?, hin, ← ih]

/-- Nothing is left outside of the spans that were there. -/
theorem mem_carve? {s : Span} {free free' : List Span} (h : carve? s free = some free')
    (hs : s.start < s.stop) {g : Span} (hg : g ∈ free') :
    ∃ f ∈ free, f.start ≤ g.start ∧ g.stop ≤ f.stop := by
  induction free generalizing free' with
  | nil => simp [carve?] at h
  | cons f rest ih =>
    unfold carve? at h
    split_ifs at h with hin
    · obtain rfl := Option.some.inj h
      rw [Span.isInside_iff] at hin
      rcases List.mem_append.mp hg with hg | hg
      · refine ⟨f, List.mem_cons_self .., ?_⟩
        obtain ⟨-, hside | hside⟩ := Span.mem_without hg <;> omega
      · exact ⟨g, List.mem_cons_of_mem _ hg, le_rfl, le_rfl⟩
    · obtain ⟨rest', hrest', rfl⟩ := Option.map_eq_some_iff.mp h
      rcases List.mem_cons.mp hg with rfl | hg
      · exact ⟨g, List.mem_cons_self .., le_rfl, le_rfl⟩
      · obtain ⟨f', hf', hle⟩ := ih hrest' hg
        exact ⟨f', List.mem_cons_of_mem _ hf', hle⟩

theorem tidy_carve? {s : Span} {free free' : List Span} (h : carve? s free = some free')
    (hs : s.start < s.stop) (ht : Tidy free) : Tidy free' := by
  induction free generalizing free' with
  | nil => simp [carve?] at h
  | cons f rest ih =>
    obtain ⟨hfirst, hrest⟩ := List.pairwise_cons.mp ht.apart
    have htrest : Tidy rest := ⟨hrest, fun g hg => ht.start_le_stop g (List.mem_cons_of_mem _ hg)⟩
    unfold carve? at h
    split_ifs at h with hin
    · obtain rfl := Option.some.inj h
      rw [Span.isInside_iff] at hin
      constructor
      · refine List.pairwise_append.mpr ⟨?_, hrest, ?_⟩
        · -- the two parts of `f` have `s` between them, which is not empty
          unfold Span.without
          split_ifs <;> simp [hs]
        · intro g hg g' hg'
          have hapart := hfirst g' hg'
          obtain ⟨-, hside | hside⟩ := Span.mem_without hg <;> omega
      · intro g hg
        rcases List.mem_append.mp hg with hg | hg
        · exact (Span.mem_without hg).1.le
        · exact htrest.start_le_stop g hg
    · obtain ⟨rest', hrest', rfl⟩ := Option.map_eq_some_iff.mp h
      have ih' := ih hrest' htrest
      constructor
      · refine List.pairwise_cons.mpr ⟨?_, ih'.apart⟩
        intro g hg
        -- `g` is part of a later span, which `f` is apart from
        obtain ⟨f', hf', hle, -⟩ := mem_carve? hrest' hs hg
        exact lt_of_lt_of_le (hfirst f' hf') hle
      · intro g hg
        rcases List.mem_cons.mp hg with rfl | hg
        · exact ht.start_le_stop g (List.mem_cons_self ..)
        · exact ih'.start_le_stop g hg

/-- In a tidy list, carving takes out the addresses of the span and no others. -/
theorem covers_carve? {s : Span} {free free' : List Span} (h : carve? s free = some free')
    (hs : s.start < s.stop) (ht : Tidy free) (a : ℕ) :
    Covers free' a ↔ Covers free a ∧ ¬s.Has a := by
  induction free generalizing free' with
  | nil => simp [carve?] at h
  | cons f rest ih =>
    obtain ⟨hfirst, hrest⟩ := List.pairwise_cons.mp ht.apart
    have htrest : Tidy rest := ⟨hrest, fun g hg => ht.start_le_stop g (List.mem_cons_of_mem _ hg)⟩
    unfold carve? at h
    split_ifs at h with hin
    · -- the rest lies behind `f`, and `s` inside of it
      obtain rfl := Option.some.inj h
      have hbehind : Covers rest a → ¬s.Has a := by
        rintro ⟨g, hg, hga⟩ hsa
        have hapart := hfirst g hg
        rw [Span.isInside_iff] at hin
        unfold Span.Has at hga hsa
        omega
      rw [covers_append, covers_cons]
      have hwithout : Covers (f.without s) a ↔ f.Has a ∧ ¬s.Has a :=
        Span.exists_mem_without_has hin hs a
      rw [hwithout]
      tauto
    · -- `f` stays, and `s` lies in a later span
      obtain ⟨rest', hrest', rfl⟩ := Option.map_eq_some_iff.mp h
      obtain ⟨g, hg, hsg⟩ := exists_carve?_iff.mp ⟨rest', hrest'⟩
      have hbefore : f.Has a → ¬s.Has a := by
        intro hfa hsa
        have hapart := hfirst g hg
        rw [Span.isInside_iff] at hsg
        unfold Span.Has at hfa hsa
        omega
      rw [covers_cons, covers_cons, ih hrest' htrest]
      tauto

/-! ## Reserving -/

theorem reserve_of_isEmpty {b : BankSpace} {s : Span} {user : Merged} (h : s.isEmpty = true) :
    b.reserve s user = some b := by
  simp [reserve, h]

/-- Reserving takes the addresses of the span out of the free ones, and they were free. -/
theorem reserve_eq_some {b b' : BankSpace} {s : Span} {user : Merged}
    (h : b.reserve s user = some b') (ht : Tidy b.free) :
    Tidy b'.free ∧ (∀ a, b'.IsFree a ↔ b.IsFree a ∧ ¬s.Has a) ∧ ∀ a, s.Has a → b.IsFree a := by
  unfold reserve at h
  split at h
  · next hempty =>
    obtain rfl := Option.some.inj h
    -- an empty span has no addresses, and nothing is reserved
    have hno : ∀ a, ¬s.Has a := by
      intro a ha
      rw [Span.isEmpty_iff] at hempty
      unfold Span.Has at ha
      omega
    refine ⟨ht, fun a => ?_, fun a ha => absurd ha (hno a)⟩
    simp [hno a]
  · next hempty =>
    have hs : s.start < s.stop := by
      rw [Span.isEmpty_iff] at hempty
      omega
    split at h
    · cases h
    · next free hfree =>
      obtain rfl := Option.some.inj h
      refine ⟨tidy_carve? hfree hs ht, covers_carve? hfree hs ht, ?_⟩
      intro a ha
      obtain ⟨f, hf, hin⟩ := exists_carve?_iff.mp ⟨free, hfree⟩
      rw [Span.isInside_iff] at hin
      unfold Span.Has at ha
      exact ⟨f, hf, by unfold Span.Has; omega⟩

/-- Reserving makes no free span larger. -/
theorem mem_free_of_reserve {b b' : BankSpace} {s : Span} {user : Merged}
    (h : b.reserve s user = some b') {g : Span} (hg : g ∈ b'.free) :
    ∃ f ∈ b.free, f.start ≤ g.start ∧ g.stop ≤ f.stop := by
  unfold reserve at h
  split at h
  · obtain rfl := Option.some.inj h
    exact ⟨g, hg, le_rfl, le_rfl⟩
  · next hempty =>
    have hs : s.start < s.stop := by
      rw [Span.isEmpty_iff] at hempty
      omega
    split at h
    · cases h
    · next free hfree =>
      obtain rfl := Option.some.inj h
      exact mem_carve? hfree hs hg

theorem mem_insert_iff {x o : Occupant} {used : List Occupant} :
    o ∈ insert x used ↔ o = x ∨ o ∈ used := by
  induction used with
  | nil => simp [insert]
  | cons y used ih =>
    unfold insert
    split
    · rw [List.mem_cons, ih, List.mem_cons]
      tauto
    · rw [List.mem_cons]

/-- Reserving a span with addresses adds one occupant, and reserving an empty one adds none. -/
theorem mem_used_reserve_iff {b b' : BankSpace} {s : Span} {user : Merged} {o : Occupant}
    (h : b.reserve s user = some b') :
    o ∈ b'.used ↔ (s.start < s.stop ∧ o = ⟨s, user⟩) ∨ o ∈ b.used := by
  unfold reserve at h
  split at h
  · next hempty =>
    obtain rfl := Option.some.inj h
    have hno : ¬s.start < s.stop := Nat.not_lt.mpr (Span.isEmpty_iff.mp hempty)
    simp [hno]
  · next hempty =>
    have hs : s.start < s.stop := Nat.not_le.mp fun hle => hempty (Span.isEmpty_iff.mpr hle)
    split at h
    · cases h
    · obtain rfl := Option.some.inj h
      simp [mem_insert_iff, hs]

/-- Reserving adds at most one occupant. -/
theorem mem_used_of_reserve {b b' : BankSpace} {s : Span} {user : Merged} {o : Occupant}
    (h : b.reserve s user = some b') (ho : o ∈ b'.used) : o = ⟨s, user⟩ ∨ o ∈ b.used :=
  ((mem_used_reserve_iff h).mp ho).imp_left And.right

theorem tidy_fresh (r : Region) (h : r.start.toNat ≤ r.stop.toNat) : Tidy (fresh r).free where
  apart := List.pairwise_singleton _ _
  start_le_stop f hf := by
    obtain rfl := List.mem_singleton.mp hf
    exact h

theorem isFree_fresh (r : Region) (a : ℕ) :
    (fresh r).IsFree a ↔ r.start.toNat ≤ a ∧ a < r.stop.toNat := by
  unfold IsFree Covers fresh Span.Has
  simp

end BankSpace

namespace Ledger

@[simp] theorem space_empty (map : MemoryMap) (key : BankKey) :
    ({ map } : Ledger).space key = .fresh (map.region key.kind) := by
  simp [space]

theorem space_update (l : Ledger) (key key' : BankKey) (b : BankSpace) :
    (l.update key b).space key' = if key' = key then b else l.space key' := by
  unfold space update
  rw [Std.HashMap.getD_insert]
  by_cases h : key' = key
  · simp [h]
  · simp [h, Ne.symm h]

end Ledger

end BankedLinker
