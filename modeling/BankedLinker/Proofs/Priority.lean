import BankedLinker.Proofs.Packing

/-!
# Nobody is displaced by a section that asks for less

Within a region the sections are placed by how much they ask for: those with address and bank
first, then those with an address, then those with a bank, and at last the rest. Every bank of
every region has free addresses of its own. So what becomes of a section depends on the sections of
its region that ask for as much or more, and on no others.

* `filter_mergeSort_isLE`: a stable sort puts the items of a part in the same order as the part
  alone;
* `Placement.rank` says how early a section is placed;
* `Ledger.AgreeOn`: two ledgers have the same space in one region;
* `Placement.Local` is what one step keeps to: it looks at the region of its section only, and
  changes nothing elsewhere. `Placement.local_placeFixed` and `Placement.local_placeFloating` are
  the steps, `Placement.filter_placeAll_of_agree` and `Placement.filter_placeAll` are the runs;
* `Placement.filter_assign` is the result for all sections.
-/

namespace BankedLinker

/-! ## Sorting a part -/

section Sorting

variable {α : Type} (order : α → α → Ordering) [Std.TransCmp order]

/-- Sorting one more item puts it behind the smaller ones and in front of all others. -/
theorem mergeSort_isLE_cons (a : α) (items : List α) :
    ∃ smaller others, (a :: items).mergeSort (fun a b => (order a b).isLE) = smaller ++ a :: others
      ∧ items.mergeSort (fun a b => (order a b).isLE) = smaller ++ others
      ∧ (∀ b ∈ smaller, (order a b).isLE = false) ∧ ∀ b ∈ others, (order a b).isLE = true := by
  have htrans : ∀ a b c, (order a b).isLE = true → (order b c).isLE = true →
      (order a c).isLE = true := fun a b c => Std.TransCmp.isLE_trans
  obtain ⟨smaller, others, hcons, hitems, hsmaller⟩ :=
    List.mergeSort_cons htrans (isLE_or_isLE order) a items
  have hsorted := pairwise_mergeSort_isLE order (a :: items)
  rw [hcons, List.pairwise_append] at hsorted
  exact ⟨smaller, others, hcons, hitems, fun b hb => by simpa using hsmaller b hb,
    (List.pairwise_cons.mp hsorted.2.1).1⟩

/-- A list has one place at which the items of one sort end and those of the other begin. -/
theorem eq_of_append_eq_append {p : α → Bool} {l₁ l₂ r₁ r₂ : List α} (h : l₁ ++ r₁ = l₂ ++ r₂)
    (hl₁ : ∀ a ∈ l₁, p a = false) (hl₂ : ∀ a ∈ l₂, p a = false) (hr₁ : ∀ a ∈ r₁, p a = true)
    (hr₂ : ∀ a ∈ r₂, p a = true) : l₁ = l₂ ∧ r₁ = r₂ := by
  have hside : ∀ l r : List α, (∀ a ∈ l, p a = false) → (∀ a ∈ r, p a = true) →
      (l ++ r).filter (fun a => !p a) = l := by
    intro l r hl hr
    rw [List.filter_append, List.filter_eq_self.mpr fun a ha => by rw [hl a ha]; rfl,
      List.filter_eq_nil_iff.mpr fun a ha => by rw [hr a ha]; decide, List.append_nil]
  obtain rfl : l₁ = l₂ := by
    rw [← hside l₁ r₁ hl₁ hr₁, h, hside l₂ r₂ hl₂ hr₂]
  exact ⟨rfl, List.append_cancel_left h⟩

/-- A stable sort puts the items of a part in the order in which it puts the part alone. -/
theorem filter_mergeSort_isLE (p : α → Bool) (items : List α) :
    (items.mergeSort fun a b => (order a b).isLE).filter p
      = (items.filter p).mergeSort fun a b => (order a b).isLE := by
  induction items with
  | nil => simp
  | cons a items ih =>
    obtain ⟨smaller, others, hcons, hitems, hsmaller, hothers⟩ :=
      mergeSort_isLE_cons order a items
    rw [hitems, List.filter_append] at ih
    rw [hcons, List.filter_append]
    by_cases hp : p a = true
    · obtain ⟨smaller', others', hcons', hitems', hsmaller', hothers'⟩ :=
        mergeSort_isLE_cons order a (items.filter p)
      rw [List.filter_cons_of_pos hp, List.filter_cons_of_pos hp, hcons']
      -- both lists are cut where the items stop to be smaller than the new one
      obtain ⟨hleft, hright⟩ := eq_of_append_eq_append (ih.trans hitems')
        (fun b hb => hsmaller b (List.mem_of_mem_filter hb)) hsmaller'
        (fun b hb => hothers b (List.mem_of_mem_filter hb)) hothers'
      rw [hleft, hright]
    · rw [List.filter_cons_of_neg hp, List.filter_cons_of_neg hp]
      exact ih

end Sorting

/-- In a list with ascending values, those up to a bound come before the others. -/
theorem filter_append_filter_of_ascending {α : Type} {f : α → ℕ} {items : List α}
    (h : items.Pairwise fun a b => f a ≤ f b) (bound : ℕ) :
    (items.filter fun a => f a ≤ bound) ++ (items.filter fun a => bound < f a) = items := by
  induction items with
  | nil => rfl
  | cons a rest ih =>
    obtain ⟨hfirst, hrest⟩ := List.pairwise_cons.mp h
    by_cases ha : f a ≤ bound
    · rw [List.filter_cons_of_pos (by simpa using ha), List.filter_cons_of_neg (by simpa using ha),
        List.cons_append, ih hrest]
    · -- nothing after `a` is below the bound
      have hnone : ∀ b ∈ a :: rest, bound < f b := by
        rw [List.forall_mem_cons]
        exact ⟨by omega, fun b hb => by have := hfirst b hb; omega⟩
      rw [List.filter_eq_nil_iff.mpr fun b hb => by simpa using hnone b hb,
        List.filter_eq_self.mpr fun b hb => by simpa using hnone b hb, List.nil_append]

/-! ## Ledgers that agree on a region -/

/-- Two ledgers have the same space in all banks of a region. -/
structure Ledger.AgreeOn (kind : RegionKind) (l l' : Ledger) : Prop where
  map_eq : l'.map = l.map
  space_eq : ∀ bank, l'.space ⟨kind, bank⟩ = l.space ⟨kind, bank⟩

namespace Ledger

variable {kind kind' : RegionKind} {l l' l'' : Ledger}

theorem AgreeOn.refl (kind : RegionKind) (l : Ledger) : l.AgreeOn kind l :=
  ⟨rfl, fun _ => rfl⟩

theorem AgreeOn.symm (h : l.AgreeOn kind l') : l'.AgreeOn kind l :=
  ⟨h.map_eq.symm, fun bank => (h.space_eq bank).symm⟩

theorem AgreeOn.trans (h : l.AgreeOn kind l') (h' : l'.AgreeOn kind l'') : l.AgreeOn kind l'' :=
  ⟨h'.map_eq.trans h.map_eq, fun bank => (h'.space_eq bank).trans (h.space_eq bank)⟩

/-- The same change to both ledgers keeps them in agreement. -/
theorem AgreeOn.update (h : l.AgreeOn kind l') (key : BankKey) (b : BankSpace) :
    (l.update key b).AgreeOn kind (l'.update key b) := by
  refine ⟨h.map_eq, fun bank => ?_⟩
  rw [space_update, space_update, h.space_eq]

/-- A change to another region does not matter. -/
theorem agreeOn_update_of_ne (l : Ledger) {key : BankKey} (hne : kind ≠ key.kind)
    (b : BankSpace) : l.AgreeOn kind (l.update key b) := by
  refine ⟨rfl, fun bank => ?_⟩
  have hkey : (⟨kind, bank⟩ : BankKey) ≠ key := fun heq => hne (congrArg BankKey.kind heq)
  rw [space_update, if_neg hkey]

end Ledger

namespace Placement

variable {map : MemoryMap} {kind : RegionKind} {l l' : Ledger} {m : Merged} {ms : List Merged}

/-! ## One section -/

/-- Two attempts to place a section of a region fail alike, or find the same place and leave
ledgers that agree on the region. -/
inductive Parallel {ε : Type} (kind : RegionKind) :
    Except ε (Location × Ledger) → Except ε (Location × Ledger) → Prop
  | error (e : ε) : Parallel kind (.error e) (.error e)
  | ok (loc : Location) {l l' : Ledger} (agree : l.AgreeOn kind l') :
      Parallel kind (.ok (loc, l)) (.ok (loc, l'))

/-- Placing a section depends on its own region and changes no other one. -/
structure Local (placeOne : Ledger → Merged → Except PlacementError (Location × Ledger)) :
    Prop where
  parallel : ∀ {l l' : Ledger} {m : Merged}, l.AgreeOn m.kind l' →
    Parallel m.kind (placeOne l m) (placeOne l' m)
  frame : ∀ {l l' : Ledger} {m : Merged} {loc : Location}, placeOne l m = .ok (loc, l') →
    ∀ {kind : RegionKind}, kind ≠ m.kind → l.AgreeOn kind l'

theorem local_placeFixed : Local placeFixed where
  parallel {l l' m} h := by
    unfold placeFixed
    dsimp only
    rw [h.map_eq, h.space_eq]
    split
    · exact .error _
    · split
      · exact .error _
      · exact .ok _ (h.update _ _)
  frame {l l' m loc} h kind hne := by
    unfold placeFixed at h
    dsimp only at h
    split at h
    · cases h
    · split at h
      · cases h
      · cases h
        exact l.agreeOn_update_of_ne hne _

theorem parallel_searchBanks (h : l.AgreeOn m.kind l') (count : ℕ) (bank : UInt32)
    (largest : ℕ) : Parallel m.kind (searchBanks l m count bank largest)
      (searchBanks l' m count bank largest) := by
  induction count generalizing bank largest with
  | zero => exact .error largest
  | succ count ih =>
    unfold searchBanks
    dsimp only
    rw [h.space_eq]
    split
    · exact .ok _ (h.update _ _)
    · exact ih _ _

/-- A search changes one bank of the region of the section. -/
theorem exists_update_of_searchBanks {count largest : ℕ} {bank : UInt32} {loc : Location}
    (h : searchBanks l m count bank largest = .ok (loc, l')) :
    ∃ b, l' = l.update ⟨m.kind, loc.bank⟩ b := by
  induction count generalizing bank largest with
  | zero => cases h
  | succ count ih =>
    unfold searchBanks at h
    dsimp only at h
    split at h
    · cases h
      exact ⟨_, rfl⟩
    · exact ih h

theorem local_placeFloating : Local placeFloating where
  parallel {l l' m} h := by
    unfold placeFloating
    dsimp only
    rw [h.map_eq]
    have hsearch := parallel_searchBanks h
      (if m.bankFixed then 1 else (l.map.region m.kind).bankCount.toNat)
      (if m.bankFixed then m.bank else (l.map.region m.kind).firstBank) 0
    generalize searchBanks l m _ _ 0 = result at hsearch ⊢
    generalize searchBanks l' m _ _ 0 = result' at hsearch ⊢
    cases hsearch with
    | ok loc agree => exact .ok loc agree
    | error largest =>
      dsimp only
      split
      · exact .ok _ h
      · exact .error _
  frame {l l' m loc} h kind hne := by
    unfold placeFloating at h
    dsimp only at h
    split at h
    · next hsearch =>
      cases h
      obtain ⟨b, rfl⟩ := exists_update_of_searchBanks hsearch
      exact l.agreeOn_update_of_ne hne b
    · split at h
      · cases h
        exact .refl kind l
      · cases h

/-! ## Runs -/

section Runs

variable {placeOne : Ledger → Merged → Except PlacementError (Location × Ledger)}

/-- Two attempts with the same space in some regions, that of the section among them, fail alike,
or find the same place and leave the same space in these regions. -/
theorem Local.parallel_of_agree (hlocal : Local placeOne) {kinds : RegionKind → Prop}
    (h : ∀ kind, kinds kind → l.AgreeOn kind l') (hm : kinds m.kind) :
    (∃ e, placeOne l m = .error e ∧ placeOne l' m = .error e)
    ∨ ∃ loc r r', placeOne l m = .ok (loc, r) ∧ placeOne l' m = .ok (loc, r')
      ∧ ∀ kind, kinds kind → r.AgreeOn kind r' := by
  have hstep := hlocal.parallel (h m.kind hm)
  generalize hresult : placeOne l m = result at hstep
  generalize hresult' : placeOne l' m = result' at hstep
  cases hstep with
  | error e => exact Or.inl ⟨e, rfl, rfl⟩
  | ok loc agree =>
    refine Or.inr ⟨loc, _, _, rfl, rfl, fun kind hkind => ?_⟩
    by_cases heq : kind = m.kind
    · rw [heq]
      exact agree
    · -- neither attempt changes another region
      exact (hlocal.frame hresult heq).symm.trans
        ((h kind hkind).trans (hlocal.frame hresult' heq))

/-- The run: sections that change nothing in the regions of the others can be left out. -/
theorem filter_placeAll_of_agree (hlocal : Local placeOne) (kinds : RegionKind → Prop)
    {p : Merged → Bool} (hkept : ∀ m, p m = true → kinds m.kind)
    (hleft : ∀ {l r m loc}, ¬p m = true → placeOne l m = .ok (loc, r) →
      ∀ kind, kinds kind → l.AgreeOn kind r)
    (h : ∀ kind, kinds kind → l.AgreeOn kind l') (ms : List Merged) :
    (placeAll placeOne l ms).1.filter (fun o => p o.subject)
        = (placeAll placeOne l' (ms.filter p)).1
      ∧ ∀ kind, kinds kind → (placeAll placeOne l ms).2.AgreeOn kind
        (placeAll placeOne l' (ms.filter p)).2 := by
  induction ms generalizing l l' with
  | nil => exact ⟨rfl, h⟩
  | cons m rest ih =>
    by_cases hp : p m = true
    · -- both runs place the section, in the same way
      rw [List.filter_cons_of_pos hp]
      rcases hlocal.parallel_of_agree h (hkept m hp) with
        ⟨e, he, he'⟩ | ⟨loc, r, r', hok, hok', hagree⟩
      · rcases ih h with ⟨houtcomes, hagree⟩
        unfold placeAll
        rw [he, he']
        exact ⟨by rw [List.filter_cons_of_pos (by exact hp), houtcomes], hagree⟩
      · rcases ih hagree with ⟨houtcomes, hagree'⟩
        unfold placeAll
        rw [hok, hok']
        exact ⟨by rw [List.filter_cons_of_pos (by exact hp), houtcomes], hagree'⟩
    · -- one run leaves the section out, and the other one changes nothing that matters
      rw [List.filter_cons_of_neg hp, placeAll]
      split
      · rw [List.filter_cons_of_neg (by exact hp)]
        exact ih h
      · next loc placed hplace =>
        rw [List.filter_cons_of_neg (by exact hp)]
        exact ih fun kind hkind => (hleft hp hplace kind hkind).symm.trans (h kind hkind)

/-- Sections of other regions can be left out. -/
theorem filter_placeAll (hlocal : Local placeOne) (h : l.AgreeOn kind l') (ms : List Merged) :
    (placeAll placeOne l ms).1.filter (fun o => o.subject.kind = kind)
        = (placeAll placeOne l' (ms.filter fun m => m.kind = kind)).1
      ∧ (placeAll placeOne l ms).2.AgreeOn kind
        (placeAll placeOne l' (ms.filter fun m => m.kind = kind)).2 := by
  have hrun := filter_placeAll_of_agree hlocal (· = kind) (p := fun m => m.kind = kind) (by simp)
    (fun hm hplace other hother => hlocal.frame hplace fun heq => hm (by simp [← heq, hother]))
    (fun other hother => hother ▸ h) ms
  exact ⟨hrun.1, hrun.2 kind rfl⟩

end Runs

theorem placeAll_append
    (placeOne : Ledger → Merged → Except PlacementError (Location × Ledger)) (l : Ledger)
    (ms ms' : List Merged) : (placeAll placeOne l (ms ++ ms')).1
      = (placeAll placeOne l ms).1 ++ (placeAll placeOne (placeAll placeOne l ms).2 ms').1 := by
  induction ms generalizing l with
  | nil => rfl
  | cons m rest ih =>
    rw [List.cons_append, placeAll, placeAll]
    split <;> simp [ih]

theorem subject_mem_of_mem_placeAll
    {placeOne : Ledger → Merged → Except PlacementError (Location × Ledger)} {o : Outcome}
    (ho : o ∈ (placeAll placeOne l ms).1) : o.subject ∈ ms := by
  rw [← subjects_placeAll placeOne l ms]
  exact List.mem_map_of_mem ho

/-! ## Ranks -/

/-- How early a section is placed: first the sections whose address and bank are known, then those
that ask for an address, then those that ask for a bank, and at last those that ask for neither. -/
def rank (map : MemoryMap) (m : Merged) : ℕ :=
  if isFixed map m then 0 else if m.orgFixed then 1 else if m.bankFixed then 2 else 3

/-- The sections of a region up to a rank. -/
def upTo (map : MemoryMap) (kind : RegionKind) (bound : ℕ) (m : Merged) : Bool :=
  m.kind = kind && rank map m ≤ bound

theorem rank_of_isFixed (h : isFixed map m = true) : rank map m = 0 := if_pos h

theorem rank_of_not_isFixed (h : ¬isFixed map m = true) : rank map m = constraintClass m + 1 := by
  unfold rank constraintClass
  rw [if_neg h]
  split
  · rfl
  · split <;> rfl

/-- Sections that are not fixed are sorted by rank. -/
theorem constraintClass_le_of_isLE {a b : Merged} (h : (compareFloating a b).isLE = true) :
    constraintClass a ≤ constraintClass b := by
  unfold compareFloating at h
  rw [Ordering.isLE_then_iff_or] at h
  rcases h with h | ⟨h, -⟩
  · exact (Nat.compare_eq_lt.mp h).le
  · exact (Nat.compare_eq_eq.mp h).le

instance : Std.TransCmp compareFixed :=
  inferInstanceAs (Std.TransCmp (compareLex (compareOn fun m : Merged => m.org) (compareOn Merged.id)))

/-- Of the fixed sections of a region none is left out. -/
theorem filter_placeAll_placeFixed (map : MemoryMap) {ms : List Merged}
    (hms : ∀ m ∈ ms, isFixed map m = true) (bound : ℕ) (h : l.AgreeOn kind l') :
    (placeAll placeFixed l ms).1.filter (fun o => upTo map kind bound o.subject)
        = (placeAll placeFixed l' (ms.filter (upTo map kind bound))).1
      ∧ (placeAll placeFixed l ms).2.AgreeOn kind
        (placeAll placeFixed l' (ms.filter (upTo map kind bound))).2 := by
  have hupTo : ∀ m ∈ ms, upTo map kind bound m = decide (m.kind = kind) := by
    intro m hm
    unfold upTo
    rw [rank_of_isFixed (hms m hm)]
    simp
  rw [List.filter_congr hupTo, List.filter_congr fun o ho => hupTo _ (subject_mem_of_mem_placeAll ho)]
  exact filter_placeAll local_placeFixed h ms

/-- Of the other sections of a region those of a higher rank come later. -/
theorem filter_placeAll_placeFloating (hms : ∀ m ∈ ms, ¬isFixed map m = true)
    (hsorted : ms.Pairwise fun a b => (compareFloating a b).isLE = true) (bound : ℕ)
    (h : l.AgreeOn kind l') :
    (placeAll placeFloating l ms).1.filter (fun o => upTo map kind bound o.subject)
      = (placeAll placeFloating l' (ms.filter (upTo map kind bound))).1 := by
  -- the sections of the region, cut where the bound is passed
  have hranks : (ms.filter fun m => m.kind = kind).Pairwise fun a b => rank map a ≤ rank map b := by
    refine (hsorted.sublist List.filter_sublist).imp_of_mem fun {a b} ha hb hle => ?_
    rw [rank_of_not_isFixed (hms a (List.mem_of_mem_filter ha)),
      rank_of_not_isFixed (hms b (List.mem_of_mem_filter hb))]
    exact Nat.succ_le_succ (constraintClass_le_of_isLE hle)
  have hcut := filter_append_filter_of_ascending hranks bound
  have hlow : ms.filter (upTo map kind bound)
      = (ms.filter fun m => m.kind = kind).filter fun m => rank map m ≤ bound := by
    rw [List.filter_filter]
    exact List.filter_congr fun m _ => Bool.and_comm _ _
  have hsplit : (placeAll placeFloating l ms).1.filter (fun o => upTo map kind bound o.subject)
      = ((placeAll placeFloating l ms).1.filter fun o => o.subject.kind = kind).filter
        fun o => rank map o.subject ≤ bound := by
    rw [List.filter_filter]
    exact List.filter_congr fun o _ => Bool.and_comm _ _
  rw [hsplit, (filter_placeAll local_placeFloating h ms).1, hlow]
  conv_lhs => rw [← hcut, placeAll_append, List.filter_append]
  have hfirst : ∀ o ∈ (placeAll placeFloating l' ((ms.filter fun m => m.kind = kind).filter
      fun m => rank map m ≤ bound)).1, decide (rank map o.subject ≤ bound) = true :=
    fun o ho => (List.mem_filter.mp (subject_mem_of_mem_placeAll ho)).2
  have hlater : ∀ (l : Ledger), ∀ o ∈ (placeAll placeFloating l
      ((ms.filter fun m => m.kind = kind).filter fun m => bound < rank map m)).1,
      ¬decide (rank map o.subject ≤ bound) = true := by
    intro l o ho
    have hrank := (List.mem_filter.mp (subject_mem_of_mem_placeAll ho)).2
    simpa using hrank
  rw [List.filter_eq_self.mpr hfirst, List.filter_eq_nil_iff.mpr (hlater _), List.append_nil]

/-! ## All sections -/

/-- Whether a section is rejected depends on the section alone. -/
theorem filter_rejections (p : Merged → Bool) (sections : List Merged) :
    (sections.filterMap (rejection? map)).filter (fun o => p o.subject)
      = (sections.filter p).filterMap (rejection? map) := by
  induction sections with
  | nil => rfl
  | cons m rest ih =>
    cases hm : rejection? map m with
    | none =>
      rw [List.filterMap_cons_none hm, ih]
      by_cases hp : p m = true
      · rw [List.filter_cons_of_pos hp, List.filterMap_cons_none hm]
      · rw [List.filter_cons_of_neg hp]
    | some o =>
      have hsubject := (rejection?_eq_some hm).1
      rw [List.filterMap_cons_some hm]
      by_cases hp : p m = true
      · rw [List.filter_cons_of_pos (by rwa [hsubject]), List.filter_cons_of_pos hp,
          List.filterMap_cons_some hm, ih]
      · rw [List.filter_cons_of_neg (by rwa [hsubject]), List.filter_cons_of_neg hp, ih]

/-- **Sections that ask for less, and sections of other regions, displace nobody.** Take the
sections of a region up to a rank out of a list: placed on their own, each of them has the outcome
that it has among all sections, with the same address and bank or the same error. -/
theorem filter_assign (map : MemoryMap) (sections : List Merged) (kind : RegionKind) (bound : ℕ) :
    (assign map sections).filter (fun o => upTo map kind bound o.subject)
      = assign map (sections.filter (upTo map kind bound)) := by
  have hcomm : ∀ (ms : List Merged) (p : Merged → Bool),
      (ms.filter (upTo map kind bound)).filter p = (ms.filter p).filter (upTo map kind bound) := by
    intro ms p
    rw [List.filter_filter, List.filter_filter]
    exact List.filter_congr fun m _ => Bool.and_comm _ _
  unfold assign
  simp only [List.partition_eq_filter_filter, List.filter_append, filter_rejections, hcomm]
  set valid := sections.filter fun m => (rejection? map m).isNone
  -- the fixed sections start from the same ledger, the others from two that agree on the region
  have hmsFixed : ∀ m ∈ (valid.filter (isFixed map)).mergeSort
      fun a b => (compareFixed a b).isLE, isFixed map m = true :=
    fun m hm => (List.mem_filter.mp (List.mem_mergeSort.mp hm)).2
  have hmsFloating : ∀ m ∈ (valid.filter (not ∘ isFixed map)).mergeSort
      fun a b => (compareFloating a b).isLE, ¬isFixed map m = true :=
    fun m hm => by simpa using (List.mem_filter.mp (List.mem_mergeSort.mp hm)).2
  obtain ⟨hfixed, hagree⟩ :=
    filter_placeAll_placeFixed map hmsFixed bound (.refl kind { map })
  rw [filter_mergeSort_isLE compareFixed] at hfixed hagree
  have hfloating := filter_placeAll_placeFloating hmsFloating
    (pairwise_mergeSort_isLE compareFloating _) bound hagree
  rw [filter_mergeSort_isLE compareFloating] at hfloating
  rw [hfixed, hfloating]

end Placement

end BankedLinker
