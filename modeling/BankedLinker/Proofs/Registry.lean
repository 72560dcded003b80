import BankedLinker.Section.Registry
import Mathlib.Data.List.Basic
import Mathlib.Tactic.SplitIfs

/-!
# What merging does to the registry

Merging a section touches one merged section, the one of its name. This file says so once, and
derives from it the two ways of proving something about all merged sections.

* `Registry.Indexed`: sections and names of the registry belong together;
* `Registry.Slot` is the merged section that a section joins, `Merged.joined` and `Merged.refused`
  are what becomes of it;
* `Registry.add_cases` lists everything that `Registry.add` can do;
* `Registry.forall_addAll`: what holds of an empty merged section and survives each merge holds of
  all merged sections after any sequence of merges;
* `Registry.addAll_induction`: the same for the registry as a whole and merges without a conflict.
-/

namespace BankedLinker

namespace Merged

/-- The merged section after a section of a file joined it. -/
def joined (m : Merged) (f : ObjectFile) (s : Section) : Merged :=
  let x := m.newMember f s
  { m.append x with toConstraints := (m.absorb x.content x.offset).1 }

/-- The merged section after a section of a file could not join it. -/
def refused (m : Merged) (f : ObjectFile) (s : Section) : Merged :=
  let x := m.newMember f s
  { m with toConstraints := (m.absorb x.content x.offset).1 }

/-- The wish that keeps a section of a file from joining the merged section. -/
def unmetWish? (m : Merged) (f : ObjectFile) (s : Section) : Option UnmetWish :=
  let x := m.newMember f s
  (m.absorb x.content x.offset).2

section Fields

variable (m : Merged) (f : ObjectFile) (s : Section)

@[simp] theorem id_refused : (m.refused f s).id = m.id := rfl
@[simp] theorem name_refused : (m.refused f s).name = m.name := rfl

variable (x : Member)

theorem append_eq_or : m.append x = { m with
      size := m.grownSize x.content.size
      members := (m.members.map fun y =>
        if y.key = x.key then { y with offset := x.offset } else y).push x }
    ∨ x.content.kind.hasData = true ∧ m.append x = { m with
      size := m.grownSize x.content.size
      members := (m.members.map fun y =>
        if y.key = x.key then { y with offset := x.offset } else y).push x
      data := m.data ++ x.content.data
      tail := m.tail.drop x.content.data.length } := by
  unfold append
  split
  · next hd => exact Or.inr ⟨hd, rfl⟩
  · exact Or.inl rfl

@[simp] theorem id_joined : (m.joined f s).id = m.id := by
  obtain h | ⟨-, h⟩ := m.append_eq_or (m.newMember f s) <;> simp [joined, h]

@[simp] theorem name_joined : (m.joined f s).name = m.name := by
  obtain h | ⟨-, h⟩ := m.append_eq_or (m.newMember f s) <;> simp [joined, h]

@[simp] theorem kind_joined : (m.joined f s).kind = m.kind := by
  obtain h | ⟨-, h⟩ := m.append_eq_or (m.newMember f s) <;> simp [joined, h]

@[simp] theorem modifier_joined : (m.joined f s).modifier = m.modifier := by
  obtain h | ⟨-, h⟩ := m.append_eq_or (m.newMember f s) <;> simp [joined, h]

@[simp] theorem placed_joined : (m.joined f s).placed = m.placed := by
  obtain h | ⟨-, h⟩ := m.append_eq_or (m.newMember f s) <;> simp [joined, h]

@[simp] theorem size_joined :
    (m.joined f s).size = m.grownSize (m.newMember f s).content.size := by
  obtain h | ⟨-, h⟩ := m.append_eq_or (m.newMember f s) <;> simp [joined, h]

/-- A section whose key is new becomes a member for the first time. -/
theorem newMember_of_first (h : ∀ y ∈ m.members, y.key ≠ ⟨f.index, s.id⟩) :
    m.newMember f s = m.firstMember f s := by
  have hnone : m.member? ⟨f.index, s.id⟩ = none := by
    refine Array.find?_eq_none.mpr fun y hy => ?_
    simpa using h y hy
  unfold newMember
  rw [hnone]

@[simp] theorem key_newMember : (m.newMember f s).key = ⟨f.index, s.id⟩ := by
  unfold newMember
  split <;> rfl

/-- Nothing moves for a member whose key is new. -/
theorem map_moved_of_first (h : ∀ y ∈ m.members, y.key ≠ x.key) :
    (m.members.map fun y => if y.key = x.key then { y with offset := x.offset } else y)
      = m.members := by
  rw [Array.map_congr_left fun y hy => if_neg (h y hy)]
  exact Array.map_id m.members

theorem append_of_first (h : ∀ y ∈ m.members, y.key ≠ x.key) : m.append x = m.appendFirst x := by
  unfold append appendFirst
  rw [m.map_moved_of_first x h]

theorem members_joined :
    (m.joined f s).members = (m.members.map fun y =>
      if y.key = (m.newMember f s).key then { y with offset := (m.newMember f s).offset }
      else y).push (m.newMember f s) := by
  obtain h | ⟨-, h⟩ := m.append_eq_or (m.newMember f s) <;> simp [joined, h]

/-- The keys of the members after a section joined are those before and the section's own. -/
theorem key_mem_joined {x : Member} (hx : x ∈ (m.joined f s).members) :
    (∃ y ∈ m.members, y.key = x.key) ∨ x.key = ⟨f.index, s.id⟩ := by
  rw [members_joined, Array.mem_push] at hx
  rcases hx with hx | rfl
  · obtain ⟨y, hy, rfl⟩ := Array.mem_map.mp hx
    refine Or.inl ⟨y, hy, ?_⟩
    split <;> rfl
  · exact Or.inr (m.key_newMember f s)

end Fields

end Merged

namespace Registry

/-! ## Sections and names -/

/-- Every merged section stands at the position that its number and its name give, and the keys of
its members are known. -/
structure Indexed (r : Registry) : Prop where
  id_eq : ∀ {i : ℕ} {m : Merged}, r.sections[i]? = some m → m.id = i
  position_eq : ∀ {i : ℕ} {m : Merged}, r.sections[i]? = some m → r.positions[m.name]? = some i
  section_at : ∀ {name : Bytes} {i : ℕ}, r.positions[name]? = some i →
    ∃ m, r.sections[i]? = some m ∧ m.name = name
  key_mem : ∀ {i : ℕ} {m : Merged}, r.sections[i]? = some m → ∀ x ∈ m.members, x.key ∈ r.keys

theorem indexed_empty : ({} : Registry).Indexed where
  id_eq h := by simp at h
  position_eq h := by simp at h
  section_at h := by simp at h
  key_mem h := by simp at h

/-- The merged section of a name is the one that carries it. -/
theorem Indexed.find?_eq_some_iff {r : Registry} (hr : r.Indexed) {name : Bytes} {m : Merged} :
    r.find? name = some m ↔ m ∈ r.sections ∧ m.name = name := by
  unfold find?
  rw [Option.bind_eq_some_iff, Array.mem_iff_getElem?]
  constructor
  · rintro ⟨i, hi, hm⟩
    obtain ⟨m', hm', hname⟩ := hr.section_at hi
    obtain rfl : m' = m := by simpa [hm'] using hm
    exact ⟨⟨i, hm'⟩, hname⟩
  · rintro ⟨⟨i, hi⟩, rfl⟩
    exact ⟨i, hr.position_eq hi, hi⟩

/-! ## One merge -/

/-- The merged section that `s` joins, and its position: the one of its name, if `s` may join it,
or an empty one. -/
inductive Slot (r : Registry) (s : Section) (i : ℕ) (m : Merged) : Prop
  | known (position : r.positions[s.name]? = some i) (present : r.sections[i]? = some m)
      (kinship : checkKinship m s = none)
  | fresh (position : r.positions[s.name]? = none) (last : i = r.sections.size)
      (empty : m = r.emptyFor s)

/-- A section may join the merged section, as far as name, region and modifier go. -/
structure Admits (m : Merged) (s : Section) : Prop where
  name_eq : m.name = s.name
  kinship : checkKinship m s = none
  storable : ¬(s.modifier = .union ∧ s.kind.hasData = true)

/-- A section may not join at all: unions are not stored in the image, and the merged section of its
name is of another sort. -/
inductive Refuses (r : Registry) (s : Section) : Conflict → Prop
  | unstorable (union : s.modifier = .union) (hasData : s.kind.hasData = true) :
      Refuses r s .unionWithData
  | unrelated {m : Merged} {conflict : Conflict} (mem : m ∈ r.sections) (name_eq : m.name = s.name)
      (kinship : checkKinship m s = some conflict) : Refuses r s conflict

/-- `r'` differs from `r` by the merged section `m` at position `i`. -/
structure Puts (r r' : Registry) (i : ℕ) (m : Merged) : Prop where
  sections : ∀ j : ℕ, r'.sections[j]? = if j = i then some m else r.sections[j]?
  positions : ∀ name : Bytes,
    r'.positions[name]? = if name = m.name then some i else r.positions[name]?
  keys : ∀ key : SectionKey, key ∈ r.keys → key ∈ r'.keys
  key_mem : ∀ x ∈ m.members, x.key ∈ r'.keys

theorem Slot.name_eq {r : Registry} {s : Section} {i : ℕ} {m : Merged} (hr : r.Indexed)
    (h : r.Slot s i m) : m.name = s.name := by
  cases h with
  | known position present _ =>
    obtain ⟨m', hm', hname⟩ := hr.section_at position
    obtain rfl : m' = m := by simpa [hm'] using present
    exact hname
  | fresh _ _ empty => rw [empty]; rfl

theorem Slot.kinship {r : Registry} {s : Section} {i : ℕ} {m : Merged} (h : r.Slot s i m) :
    checkKinship m s = none := by
  cases h with
  | known _ _ kinship => exact kinship
  | fresh _ _ empty => rw [empty]; rfl

theorem Slot.id_eq {r : Registry} {s : Section} {i : ℕ} {m : Merged} (hr : r.Indexed)
    (h : r.Slot s i m) : m.id = i := by
  cases h with
  | known _ present _ => exact hr.id_eq present
  | fresh _ last empty => rw [empty, last]; rfl

/-- The keys of the members are known. -/
theorem Slot.key_mem {r : Registry} {s : Section} {i : ℕ} {m : Merged} (hr : r.Indexed)
    (h : r.Slot s i m) : ∀ x ∈ m.members, x.key ∈ r.keys := by
  cases h with
  | known _ present _ => exact hr.key_mem present
  | fresh _ _ empty =>
    rw [empty]
    exact fun x hx => absurd hx (Array.not_mem_empty x)

theorem entry_of_some {r : Registry} {s : Section} {i : ℕ} (h : r.positions[s.name]? = some i) :
    r.entry s = (r, i) := by
  simp [entry, h]

theorem entry_of_none {r : Registry} {s : Section} (h : r.positions[s.name]? = none) :
    r.entry s = ({ r with
      sections := r.sections.push (r.emptyFor s)
      positions := r.positions.insert s.name r.sections.size }, r.sections.size) := by
  simp [entry, h]

@[simp] theorem keys_entry (r : Registry) (s : Section) : (r.entry s).1.keys = r.keys := by
  unfold entry
  split <;> rfl

/-- Changing the merged section that the entry of `s` leads to, and learning keys, is putting it
there. -/
theorem puts_modify_entry {r : Registry} {s : Section} {i : ℕ} {m m' : Merged} (hr : r.Indexed)
    (hslot : r.Slot s i m) {change : Merged → Merged} (hchange : change m = m')
    (hname : m'.name = m.name) {keys : Std.HashSet SectionKey}
    (hkeys : ∀ key ∈ r.keys, key ∈ keys) (hmembers : ∀ x ∈ m'.members, x.key ∈ keys) :
    r.Puts { (r.entry s).1 with
      sections := (r.entry s).1.sections.modify i change, keys } i m' := by
  have hsname := hslot.name_eq hr
  cases hslot with
  | known position present _ =>
    rw [entry_of_some position]
    refine ⟨?_, ?_, hkeys, hmembers⟩
    · intro j
      rw [Array.getElem?_modify]
      by_cases hj : i = j
      · subst hj
        simp [present, hchange]
      · simp [hj, Ne.symm hj]
    · intro name
      by_cases hn : name = m'.name
      · rw [if_pos hn, hn, hname, hsname]
        exact position
      · rw [if_neg hn]
  | fresh position last empty =>
    rw [entry_of_none position]
    subst last
    refine ⟨?_, ?_, hkeys, hmembers⟩
    · intro j
      rw [Array.getElem?_modify, Array.getElem?_push]
      by_cases hj : j = r.sections.size
      · simp [hj, ← empty, hchange]
      · simp [hj, Ne.symm hj]
    · intro name
      rw [Std.HashMap.getElem?_insert, hname, hsname]
      by_cases hn : name = s.name
      · simp [hn]
      · simp [hn, Ne.symm hn]

section Join

variable {r : Registry} {i : ℕ} {m : Merged} {f : ObjectFile} {s : Section}
  (hm : r.sections[i]? = some m) (hkeys : ∀ x ∈ m.members, x.key ∈ r.keys)

include hkeys

/-- A key that is not known is new to the merged section. -/
theorem key_ne_of_first (h : ¬r.keys.contains ⟨f.index, s.id⟩ = true) :
    ∀ x ∈ m.members, x.key ≠ ⟨f.index, s.id⟩ := by
  intro x hx heq
  have hmem := hkeys x hx
  rw [heq] at hmem
  exact h hmem

/-- Whether its key is known or not, a section becomes the same member. -/
theorem member_eq :
    (if !r.keys.contains ⟨f.index, s.id⟩ then m.firstMember f s else m.newMember f s)
      = m.newMember f s := by
  split
  · next h => exact (m.newMember_of_first f s (key_ne_of_first hkeys (by simpa using h))).symm
  · rfl

theorem append_eq :
    (if !r.keys.contains ⟨f.index, s.id⟩ then m.appendFirst (m.newMember f s)
      else m.append (m.newMember f s)) = m.append (m.newMember f s) := by
  split
  · next h =>
    refine (m.append_of_first _ ?_).symm
    rw [Merged.key_newMember]
    exact key_ne_of_first hkeys (by simpa using h)
  · rfl

include hm

theorem join_of_unmet {wish : UnmetWish} (h : m.unmetWish? f s = some wish) :
    r.join i f s = ({ r with sections := r.sections.modify i fun m' =>
      { m' with toConstraints := (m.refused f s).toConstraints } }, some (.unmet wish)) := by
  have habsorb : m.absorb (m.newMember f s).content (m.newMember f s).offset
      = ((m.refused f s).toConstraints, some wish) := Prod.ext rfl h
  unfold join
  simp only [hm, member_eq hkeys, habsorb]

theorem join_of_met (h : m.unmetWish? f s = none) :
    ∃ change : Merged → Merged, change m = m.joined f s
      ∧ r.join i f s = ({ r with
        sections := r.sections.modify i change, keys := r.keys.insert ⟨f.index, s.id⟩ }, none) := by
  have habsorb : m.absorb (m.newMember f s).content (m.newMember f s).offset
      = ((m.joined f s).toConstraints, none) := Prod.ext rfl h
  unfold join
  simp only [hm, member_eq hkeys, habsorb]
  refine ⟨_, ?_, rfl⟩
  rw [append_eq hkeys]
  rfl

end Join

/-- Everything that merging a section can do: it is refused at once and nothing changes, or its
wishes are looked at by one merged section, which it joins or not. -/
theorem add_cases {r : Registry} (hr : r.Indexed) (f : ObjectFile) (s : Section) :
    (∃ conflict, r.Refuses s conflict ∧ r.add f s = (r, some conflict))
    ∨ ∃ i m r', r.Slot s i m ∧ Admits m s
      ∧ ((∃ wish, m.unmetWish? f s = some wish ∧ r.add f s = (r', some (.unmet wish))
          ∧ r.Puts r' i (m.refused f s))
        ∨ m.unmetWish? f s = none ∧ r.add f s = (r', none) ∧ r.Puts r' i (m.joined f s)) := by
  unfold add
  split
  · next hunion => exact Or.inl ⟨_, .unstorable hunion.1 hunion.2, rfl⟩
  next hunion =>
  cases hkin : (r.find? s.name).bind (checkKinship · s) with
  | some conflict =>
    obtain ⟨m, hfind, hconflict⟩ := Option.bind_eq_some_iff.mp hkin
    obtain ⟨hm, hname⟩ := hr.find?_eq_some_iff.mp hfind
    exact Or.inl ⟨conflict, .unrelated hm hname hconflict, rfl⟩
  | none =>
    refine Or.inr ?_
    -- the entry leads to the merged section of the name, or to a new one
    obtain ⟨m, hslot, hpresent⟩ : ∃ m, r.Slot s (r.entry s).2 m
        ∧ (r.entry s).1.sections[(r.entry s).2]? = some m := by
      cases hposition : r.positions[s.name]? with
      | some i =>
        obtain ⟨m, hm, -⟩ := hr.section_at hposition
        rw [show r.find? s.name = some m by simp [find?, hposition, hm]] at hkin
        rw [entry_of_some hposition]
        exact ⟨m, .known hposition hm hkin, hm⟩
      | none =>
        rw [entry_of_none hposition]
        exact ⟨r.emptyFor s, .fresh hposition rfl rfl, by simp⟩
    have hadmits : Admits m s := ⟨hslot.name_eq hr, hslot.kinship, hunion⟩
    have hkeys := hslot.key_mem hr
    have hentry : ∀ x ∈ m.members, x.key ∈ (r.entry s).1.keys := by rwa [keys_entry]
    cases hwish : m.unmetWish? f s with
    | some wish =>
      refine ⟨_, m, _, hslot, hadmits, Or.inl ⟨wish, hwish, join_of_unmet hpresent hentry hwish,
        puts_modify_entry hr hslot rfl rfl ?_ hentry⟩⟩
      rw [keys_entry]
      exact fun _ h => h
    | none =>
      obtain ⟨change, hchange, hjoin⟩ := join_of_met hpresent hentry hwish
      refine ⟨_, m, _, hslot, hadmits, Or.inr ⟨hwish, hjoin,
        puts_modify_entry hr hslot hchange (m.name_joined f s) ?_ ?_⟩⟩
      · rw [keys_entry]
        exact fun _ h => Std.HashSet.mem_insert.mpr (Or.inr h)
      · intro x hx
        rw [keys_entry, Std.HashSet.mem_insert]
        obtain ⟨y, hy, hkey⟩ | hkey := m.key_mem_joined f s hx
        · exact Or.inr (hkey ▸ hkeys y hy)
        · exact Or.inl (by rw [hkey]; exact beq_self_eq_true _)

/-- A registry stays indexed when the new merged section fits its position. -/
theorem Puts.indexed {r r' : Registry} {s : Section} {i : ℕ} {m m' : Merged} (hr : r.Indexed)
    (hslot : r.Slot s i m) (hid : m'.id = m.id) (hname : m'.name = m.name)
    (h : r.Puts r' i m') : r'.Indexed := by
  have hsname := hslot.name_eq hr
  -- no other section carries the name
  have hother : ∀ {j : ℕ} {n : Merged}, j ≠ i → r.sections[j]? = some n → n.name ≠ m'.name := by
    intro j n hj hn heq
    have hposition := hr.position_eq hn
    rw [heq, hname, hsname] at hposition
    cases hslot with
    | known position _ _ =>
      rw [position] at hposition
      exact hj (Option.some.inj hposition).symm
    | fresh position _ _ =>
      rw [position] at hposition
      cases hposition
  constructor
  · intro j n hn
    rw [h.sections] at hn
    split_ifs at hn with hj
    · obtain rfl : m' = n := by simpa using hn
      rw [hid, hslot.id_eq hr, hj]
    · exact hr.id_eq hn
  · intro j n hn
    rw [h.sections] at hn
    rw [h.positions]
    split_ifs at hn with hj
    · obtain rfl : m' = n := by simpa using hn
      rw [if_pos rfl, hj]
    · rw [if_neg (hother hj hn)]
      exact hr.position_eq hn
  · intro name j hj
    rw [h.positions] at hj
    rw [h.sections]
    split_ifs at hj with hn
    · obtain rfl : i = j := by simpa using hj
      exact ⟨m', by rw [if_pos rfl], hn.symm⟩
    · obtain ⟨n, hn', rfl⟩ := hr.section_at hj
      refine ⟨n, ?_, rfl⟩
      rw [if_neg ?_]
      · exact hn'
      · rintro rfl
        -- the section that was at `i` has the name that is looked for
        cases hslot with
        | known position present _ =>
          obtain rfl : n = m := by simpa [hn'] using present
          exact hn hname.symm
        | fresh _ last _ =>
          rw [last, Array.getElem?_size] at hn'
          cases hn'
  · intro j n hn x hx
    rw [h.sections] at hn
    split_ifs at hn with hj
    · obtain rfl : m' = n := by simpa using hn
      exact h.key_mem x hx
    · exact h.keys _ (hr.key_mem hn x hx)

theorem Puts.mem {r r' : Registry} {i : ℕ} {m : Merged} (h : r.Puts r' i m) :
    m ∈ r'.sections := by
  refine Array.mem_of_getElem? (i := i) ?_
  rw [h.sections, if_pos rfl]

/-- After a change a merged section is the new one, or one that was there and has another name. -/
theorem Puts.mem_cases {r r' : Registry} {i : ℕ} {m n : Merged} (hr' : r'.Indexed)
    (h : r.Puts r' i m) (hn : n ∈ r'.sections) : n = m ∨ n ∈ r.sections ∧ n.name ≠ m.name := by
  obtain ⟨j, hj⟩ := Array.mem_iff_getElem?.mp hn
  have hold := hj
  rw [h.sections] at hold
  split_ifs at hold with hij
  · exact Or.inl (Option.some.inj hold).symm
  · refine Or.inr ⟨Array.mem_of_getElem? hold, fun hname => ?_⟩
    -- two positions cannot carry one name
    have hi : r'.positions[m.name]? = some i := by
      rw [h.positions, if_pos rfl]
    rw [← hname, hr'.position_eq hj] at hi
    exact hij (Option.some.inj hi)

/-- No merged section is lost, but for the one that is changed. -/
theorem Puts.mem_or_eq {r r' : Registry} {s : Section} {i : ℕ} {m m' n : Merged}
    (h : r.Puts r' i m') (hslot : r.Slot s i m) (hn : n ∈ r.sections) :
    n ∈ r'.sections ∨ n = m := by
  obtain ⟨j, hj⟩ := Array.mem_iff_getElem?.mp hn
  by_cases hij : j = i
  · refine Or.inr ?_
    cases hslot with
    | known _ present _ =>
      rw [hij, present] at hj
      exact (Option.some.inj hj).symm
    | fresh _ last _ =>
      rw [hij, last, Array.getElem?_size] at hj
      cases hj
  · refine Or.inl (Array.mem_of_getElem? (i := j) ?_)
    rw [h.sections, if_neg hij, hj]

theorem indexed_add {r : Registry} (hr : r.Indexed) (f : ObjectFile) (s : Section) :
    (r.add f s).1.Indexed := by
  obtain ⟨conflict, -, h⟩ | ⟨i, m, r', hslot, -, ⟨wish, -, h, hputs⟩ | ⟨-, h, hputs⟩⟩ :=
    add_cases hr f s
  · rw [h]
    exact hr
  · rw [h]
    exact hputs.indexed hr hslot (m.id_refused f s) (m.name_refused f s)
  · rw [h]
    exact hputs.indexed hr hslot (m.id_joined f s) (m.name_joined f s)

/-! ## Sequences of merges -/

/-- Merges sections one after the other; one that is refused does not end the sequence. -/
def addAll (r : Registry) (calls : List (ObjectFile × Section)) : Registry :=
  calls.foldl (fun r call => (r.add call.1 call.2).1) r

/-- Whether every section of a sequence could be merged. -/
def AllMerged (r : Registry) : List (ObjectFile × Section) → Prop
  | [] => True
  | (f, s) :: rest => (r.add f s).2 = none ∧ (r.add f s).1.AllMerged rest

/-- What holds of empty merged sections and survives each merge holds of every merged section. -/
theorem forall_add {P : Merged → Prop} {r : Registry} (hr : r.Indexed) {f : ObjectFile}
    {s : Section} (hP : ∀ m ∈ r.sections, P m)
    (hempty : P (r.emptyFor s))
    (hrefused : ∀ m, P m → Admits m s → P (m.refused f s))
    (hjoined : ∀ m, P m → Admits m s → m.unmetWish? f s = none → P (m.joined f s)) :
    ∀ m ∈ (r.add f s).1.sections, P m := by
  -- it holds of the section that is joined, and a registry changes there only
  have hslotP : ∀ {i m}, r.Slot s i m → P m := by
    intro i m hslot
    cases hslot with
    | known _ present _ => exact hP m (Array.mem_of_getElem? present)
    | fresh _ _ empty => rwa [empty]
  have hputs : ∀ {r' i m'}, r.Puts r' i m' → P m' → ∀ n ∈ r'.sections, P n := by
    intro r' i m' hputs hm' n hn
    obtain ⟨j, hj⟩ := Array.mem_iff_getElem?.mp hn
    rw [hputs.sections] at hj
    split_ifs at hj with hij
    · obtain rfl : m' = n := by simpa using hj
      exact hm'
    · exact hP n (Array.mem_of_getElem? hj)
  obtain ⟨conflict, -, h⟩ | ⟨i, m, r', hslot, hadmits, ⟨wish, -, h, hr'⟩ | ⟨hmet, h, hr'⟩⟩ :=
    add_cases hr f s
  · rwa [h]
  · rw [h]
    exact hputs hr' (hrefused m (hslotP hslot) hadmits)
  · rw [h]
    exact hputs hr' (hjoined m (hslotP hslot) hadmits hmet)

/-- The same for any sequence of merges. -/
theorem forall_addAll {P : Merged → Prop} (calls : List (ObjectFile × Section))
    (hempty : ∀ call ∈ calls, ∀ r : Registry, P (r.emptyFor call.2))
    (hrefused : ∀ call ∈ calls, ∀ m, P m → Admits m call.2 → P (m.refused call.1 call.2))
    (hjoined : ∀ call ∈ calls, ∀ m, P m → Admits m call.2 →
      m.unmetWish? call.1 call.2 = none → P (m.joined call.1 call.2)) :
    ∀ m ∈ (addAll {} calls).sections, P m := by
  -- the induction is over what is left of the sequence, from any registry that it may reach
  suffices hrun : ∀ (rest : List (ObjectFile × Section)) (r : Registry), r.Indexed →
      (∀ call ∈ rest, call ∈ calls) → (∀ m ∈ r.sections, P m) →
      ∀ m ∈ (addAll r rest).sections, P m from
    hrun calls {} indexed_empty (fun _ h => h) (by simp)
  intro rest
  induction rest with
  | nil =>
    intro r _ _ hP
    exact hP
  | cons call rest ih =>
    intro r hr hsub hP
    have hcall := hsub call (List.mem_cons_self ..)
    refine ih (r.add call.1 call.2).1 (indexed_add hr _ _)
      (fun c hc => hsub c (List.mem_cons_of_mem _ hc)) ?_
    exact forall_add hr hP (hempty call hcall r) (hrefused call hcall) (hjoined call hcall)

/-- What holds of the empty registry and of nothing merged, and survives each merge without a
conflict, holds after a sequence of such merges. -/
theorem addAll_induction {P : List (ObjectFile × Section) → Registry → Prop}
    {calls : List (ObjectFile × Section)} (hmerged : AllMerged {} calls) (hempty : P [] {})
    (hadd : ∀ (done : List (ObjectFile × Section)) (call : ObjectFile × Section)
      (rest : List (ObjectFile × Section)) (r : Registry), done ++ call :: rest = calls →
      P done r → (r.add call.1 call.2).2 = none →
      P (done ++ [call]) (r.add call.1 call.2).1) :
    P calls (addAll {} calls) := by
  -- the induction is over what is left, and the statement speaks of what is done
  suffices hrun : ∀ (rest done : List (ObjectFile × Section)) (r : Registry), P done r →
      r.AllMerged rest → done ++ rest = calls → P calls (r.addAll rest) from
    hrun calls [] {} hempty hmerged rfl
  intro rest
  induction rest with
  | nil =>
    intro done r hr _ heq
    rw [← heq, List.append_nil]
    exact hr
  | cons call rest ih =>
    intro done r hr hmerged heq
    refine ih (done ++ [call]) _ (hadd done call rest r heq hr hmerged.1) hmerged.2 ?_
    rw [← heq, List.append_assoc, List.singleton_append]

theorem indexed_addAll {r : Registry} (hr : r.Indexed) (calls : List (ObjectFile × Section)) :
    (r.addAll calls).Indexed := by
  induction calls generalizing r with
  | nil => exact hr
  | cons call rest ih => exact ih (indexed_add hr _ _)

end Registry

end BankedLinker
