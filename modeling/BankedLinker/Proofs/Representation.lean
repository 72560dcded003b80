import BankedLinker.Proofs.Image
import BankedLinker.Proofs.Tiling

/-!
# What a registry holds after any sequence of merges

Merging may fail, and linking goes on to find further conflicts. So the registry has to make sense
after failures too: a section that is refused leaves no trace but a wish that was accepted, and the
merged sections hold exactly those that were not refused.

* `Registry.accepted`: the sections of a sequence that are merged;
* `Merged.Represents` and `Registry.Represents` are the invariant of merging with and without
  conflicts, `Registry.represents_add` is its step and `Registry.represents_addAll` its run;
* `Merged.Coherent` and `Registry.Faithful` say what that means for names, positions, sizes and
  bytes, and `Registry.faithful_addAll` is the result.
-/

namespace BankedLinker

theorem totalSize_append (calls calls' : List (ObjectFile × Section)) :
    totalSize (calls ++ calls') = totalSize calls + totalSize calls' := by
  simp [totalSize]

/-- A member lies behind those before it. -/
theorem Consecutive.offset_eq {a b i : ℕ} {xs : List Member} {x : Member}
    (h : Consecutive a xs b) (hx : xs[i]? = some x) :
    x.offset.toNat = a + ((xs.take i).map fun y => y.content.size.toNat).sum := by
  induction xs generalizing a i with
  | nil => simp at hx
  | cons y rest ih =>
    cases i with
    | zero =>
      obtain rfl : y = x := by simpa using hx
      exact h.1
    | succ i =>
      rw [List.getElem?_cons_succ] at hx
      rw [ih h.2 hx, List.take_succ_cons, List.map_cons, List.sum_cons]
      omega

/-! ## One merged section -/

namespace Merged

variable {m : Merged} {calls : List (ObjectFile × Section)} {f : ObjectFile} {s : Section}

/-- The merged section holds the sections of its name among `calls`, laid out as its modifier
says. -/
structure Represents (calls : List (ObjectFile × Section)) (m : Merged) : Prop where
  calls_eq : m.members.toList.map Member.call = calls.filter fun call => call.2.name = m.name
  kind_eq : ∀ x ∈ m.members, x.content.kind = m.kind
  modifier_eq : ∀ x ∈ m.members, x.content.modifier = m.modifier
  storable : ∀ x ∈ m.members, ¬(x.content.modifier = .union ∧ x.content.kind.hasData = true)
  alone : m.modifier = .normal → m.members.size ≤ 1
  offset_eq : m.modifier = .union → ∀ x ∈ m.members, x.offset = 0
  size_eq : m.modifier = .union →
    m.size = (m.members.toList.map fun x => x.content.size).foldl max 0
  consecutive : m.modifier = .normal ∨ m.modifier = .fragment →
    Consecutive 0 m.members.toList m.size.toNat
  data_eq : m.kind.hasData = true →
    m.data.toList = m.members.toList.flatMap fun x => x.content.data
  tail_eq : m.tail = #[]

namespace Represents

theorem call_mem (hm : m.Represents calls) {x : Member} (hx : x ∈ m.members) :
    x.call ∈ calls ∧ x.content.name = m.name := by
  have hmem : x.call ∈ m.members.toList.map Member.call :=
    List.mem_map_of_mem (Array.mem_toList_iff.mpr hx)
  rw [hm.calls_eq, List.mem_filter] at hmem
  exact ⟨hmem.1, of_decide_eq_true hmem.2⟩

theorem exists_member (hm : m.Represents calls) {call : ObjectFile × Section}
    (hcall : call ∈ calls) (hname : call.2.name = m.name) : ∃ x ∈ m.members, x.call = call := by
  have hmem : call ∈ calls.filter fun call => call.2.name = m.name :=
    List.mem_filter.mpr ⟨hcall, decide_eq_true hname⟩
  rw [← hm.calls_eq, List.mem_map] at hmem
  obtain ⟨x, hx, hcall⟩ := hmem
  exact ⟨x, Array.mem_toList_iff.mp hx, hcall⟩

/-- What follows each other is together as large as the sections of the name. -/
theorem size_le (hm : m.Represents calls)
    (hmodifier : m.modifier = .normal ∨ m.modifier = .fragment) :
    m.size.toNat ≤ totalSize calls := by
  have hsum : m.size.toNat = totalSize (calls.filter fun call => call.2.name = m.name) := by
    rw [(hm.consecutive hmodifier).eq_add_sum, Nat.zero_add, totalSize, ← hm.calls_eq,
      List.map_map]
    rfl
  rw [hsum]
  exact totalSize_le_of_sublist List.filter_sublist

/-- The keys of the members are those of sections of the sequence. -/
theorem nodup_keys (hm : m.Represents calls) (hkeys : (calls.map callKey).Nodup) :
    (m.members.toList.map Member.key).Nodup := by
  have heq : m.members.toList.map Member.key
      = (calls.filter fun call => call.2.name = m.name).map callKey := by
    rw [← hm.calls_eq, List.map_map]
    rfl
  rw [heq]
  exact hkeys.sublist (List.filter_sublist.map _)

/-- A member is found by its key. -/
theorem member?_eq (hm : m.Represents calls) (hkeys : (calls.map callKey).Nodup) {x : Member}
    (hx : x ∈ m.members) : m.member? x.key = some x := by
  cases hfind : m.member? x.key with
  | none =>
    have hnone := Array.find?_eq_none.mp hfind x hx
    simp at hnone
  | some y =>
    have hy : y ∈ m.members := Array.mem_of_find?_eq_some hfind
    have hkey : y.key = x.key := by simpa using Array.find?_some hfind
    exact congrArg some (List.inj_on_of_nodup_map (hm.nodup_keys hkeys)
      (Array.mem_toList_iff.mpr hy) (Array.mem_toList_iff.mpr hx) hkey)

/-- A section that is refused changes nothing that is represented. -/
theorem refused (hm : m.Represents calls) : (m.refused f s).Represents calls :=
  ⟨hm.calls_eq, hm.kind_eq, hm.modifier_eq, hm.storable, hm.alone, hm.offset_eq, hm.size_eq,
    hm.consecutive, hm.data_eq, hm.tail_eq⟩

/-- A merge of a section of another name does not matter. -/
theorem concat_of_ne (hm : m.Represents calls) (hname : s.name ≠ m.name) :
    m.Represents (calls ++ [(f, s)]) := by
  have hnone : [(f, s)].filter (fun call => call.2.name = m.name) = [] := by
    simp [hname]
  refine { hm with calls_eq := ?_ }
  rw [List.filter_append, hnone, List.append_nil, hm.calls_eq]

end Represents

section Join

variable (hm : m.Represents calls) (hkin : m.Kindred s)

include hm hkin

/-- What follows the members starts where they end. -/
theorem Represents.toNat_nextOffset (hmodifier : m.modifier = .normal ∨ m.modifier = .fragment) :
    m.nextOffset.toNat = m.size.toNat := by
  unfold nextOffset
  rcases hmodifier with hnormal | hfragment
  · -- a plain section is the only one of its name, so it joins an empty merged section
    have hconsecutive := hm.consecutive (Or.inl hnormal)
    rw [hkin.alone (hkin.modifier_eq.symm.trans hnormal)] at hconsecutive
    rw [if_neg (by rw [hnormal]; decide), ← show 0 = m.size.toNat from hconsecutive]
    rfl
  · rw [if_pos hfragment]

theorem Represents.toNat_grownSize (hmodifier : m.modifier = .normal ∨ m.modifier = .fragment)
    (hfits : m.size.toNat + s.size.toNat < 2 ^ 32) :
    (m.grownSize s.size).toNat = m.size.toNat + s.size.toNat := by
  have hunion : m.modifier ≠ .union := by
    rcases hmodifier with h | h <;> rw [h] <;> decide
  rw [grownSize, if_neg hunion, UInt32.toNat_add, hm.toNat_nextOffset hkin hmodifier,
    Nat.mod_eq_of_lt hfits]

/-- One merge: the section becomes the last member of the merged section of its name. -/
theorem Represents.joined (hnew : ∀ call ∈ calls, callKey call ≠ callKey (f, s))
    (htotal : totalSize (calls ++ [(f, s)]) < 2 ^ 32) :
    (m.joined f s).Represents (calls ++ [(f, s)]) := by
  have hkeys : ∀ x ∈ m.members, x.key ≠ callKey (f, s) := fun x hx => hnew _ (hm.call_mem hx).1
  have hmember := newMember_of_new hkeys
  have hmembers := members_joined_of_new hkeys
  have hcontent : (m.newMember f s).content = s := by rw [hmember]
  have hoffset : (m.newMember f s).offset = m.nextOffset := by rw [hmember]
  constructor
  · have hone : [(f, s)].filter (fun call => call.2.name = m.name) = [(f, s)] := by
      simp [hkin.name_eq]
    rw [hmembers, Array.toList_push, List.map_append, hm.calls_eq, hmember, name_joined,
      List.filter_append, hone]
    rfl
  · intro x hx
    rw [hmembers, Array.mem_push] at hx
    rw [kind_joined]
    rcases hx with hx | rfl
    · exact hm.kind_eq x hx
    · rw [hcontent, hkin.kind_eq]
  · intro x hx
    rw [hmembers, Array.mem_push] at hx
    rw [modifier_joined]
    rcases hx with hx | rfl
    · exact hm.modifier_eq x hx
    · rw [hcontent, hkin.modifier_eq]
  · intro x hx
    rw [hmembers, Array.mem_push] at hx
    rcases hx with hx | rfl
    · exact hm.storable x hx
    · rw [hcontent]
      exact hkin.storable
  · intro hnormal
    rw [modifier_joined, hkin.modifier_eq] at hnormal
    rw [hmembers, Array.size_push, hkin.alone hnormal]
    exact le_refl _
  · intro hunion x hx
    rw [modifier_joined] at hunion
    rw [hmembers, Array.mem_push] at hx
    rcases hx with hx | rfl
    · exact hm.offset_eq hunion x hx
    · rw [hoffset, nextOffset, if_neg (by rw [hunion]; decide)]
  · intro hunion
    rw [modifier_joined] at hunion
    rw [size_joined, grownSize, if_pos hunion, hmembers, Array.toList_push, List.map_append,
      List.foldl_append, ← hm.size_eq hunion]
    rfl
  · intro hmodifier
    rw [modifier_joined] at hmodifier
    -- the sizes of all sections together fit into a word, so the size does not wrap
    have hsize := hm.size_le hmodifier
    have hsum := totalSize_append calls [(f, s)]
    have hone : totalSize [(f, s)] = s.size.toNat := by simp [totalSize]
    have hgrown := hm.toNat_grownSize hkin hmodifier (by omega)
    have hstart : (m.newMember f s).offset.toNat = m.size.toNat := by
      rw [hoffset, hm.toNat_nextOffset hkin hmodifier]
    have hconcat := (hm.consecutive hmodifier).concat hstart
    rw [hmembers, Array.toList_push, size_joined]
    rw [hcontent] at hconcat ⊢
    rwa [hgrown]
  · intro hdata
    rw [kind_joined] at hdata
    have hdata' : (m.newMember f s).content.kind.hasData = true := by
      rw [hcontent, ← hkin.kind_eq]
      exact hdata
    rw [data_joined_of_hasData hdata', hmembers, Array.toList_push, List.flatMap_append,
      ← hm.data_eq hdata]
    simp
  · obtain h | ⟨-, h⟩ := m.append_eq_or (m.newMember f s) <;> simp [Merged.joined, h, hm.tail_eq]

end Join

/-- What a section asks for can always be met as long as nothing else is asked for. -/
theorem unmetWish?_emptyFor (r : Registry) (f : ObjectFile) (s : Section) :
    (r.emptyFor s).unmetWish? f s = none := by
  have hoffset : (r.emptyFor s).nextOffset = 0 := by
    unfold nextOffset
    split <;> rfl
  unfold unmetWish?
  rw [newMember_of_new fun x hx => absurd hx (Array.not_mem_empty x), hoffset]
  show ((({} : Constraints).absorb s 0)).2 = none
  cases hbank : s.bank <;> cases horg : s.org <;>
    by_cases halign : 0 < s.align <;>
    simp [Constraints.absorb, Constraints.absorbBank, Constraints.absorbPlace,
      Constraints.absorbOrg, Constraints.absorbAlign, hbank, horg, halign]

end Merged

/-! ## Sequences of merges -/

namespace Registry

variable {calls done : List (ObjectFile × Section)} {r : Registry} {f : ObjectFile} {s : Section}

/-- The sections of a sequence that are merged. Those that are refused are left out. -/
def accepted (r : Registry) : List (ObjectFile × Section) → List (ObjectFile × Section)
  | [] => []
  | (f, s) :: rest =>
    if (r.add f s).2.isNone then (f, s) :: (r.add f s).1.accepted rest
    else (r.add f s).1.accepted rest

theorem accepted_append (r : Registry) (calls calls' : List (ObjectFile × Section)) :
    r.accepted (calls ++ calls') = r.accepted calls ++ (r.addAll calls).accepted calls' := by
  induction calls generalizing r with
  | nil => rfl
  | cons call rest ih =>
    rw [List.cons_append, accepted, accepted, ih]
    split <;> rfl

theorem accepted_sublist (r : Registry) (calls : List (ObjectFile × Section)) :
    (r.accepted calls).Sublist calls := by
  induction calls generalizing r with
  | nil => exact List.Sublist.slnil
  | cons call rest ih =>
    unfold accepted
    split
    · exact (ih _).cons_cons call
    · exact (ih _).cons call

/-- A section is accepted once, or not at all if it is refused when its turn comes. -/
theorem filter_accepted {rest : List (ObjectFile × Section)}
    (hkeys : ((done ++ (f, s) :: rest).map callKey).Nodup) :
    (r.accepted (done ++ (f, s) :: rest)).filter (fun call => callKey call = callKey (f, s))
      = if ((r.addAll done).add f s).2.isNone then [(f, s)] else [] := by
  rw [List.map_append, List.map_cons, List.nodup_append, List.nodup_cons] at hkeys
  obtain ⟨-, ⟨hrest, -⟩, hdone⟩ := hkeys
  -- neither the sections before nor those after have the key
  have hnone : ∀ (r : Registry) (calls : List (ObjectFile × Section)),
      (∀ call ∈ calls, callKey call ≠ callKey (f, s)) →
      (r.accepted calls).filter (fun call => callKey call = callKey (f, s)) = [] := by
    intro r calls hcalls
    refine List.filter_eq_nil_iff.mpr fun call hcall => ?_
    simpa using hcalls call ((accepted_sublist r calls).mem hcall)
  have hleft := hnone r done fun call hcall =>
    hdone _ (List.mem_map_of_mem hcall) _ List.mem_cons_self
  have hright := hnone ((r.addAll done).add f s).1 rest fun call hcall heq =>
    hrest (heq ▸ List.mem_map_of_mem hcall)
  rw [accepted_append, List.filter_append, hleft, List.nil_append, accepted]
  split
  · rw [List.filter_cons_of_pos (by simp), hright]
  · exact hright

/-- What a registry holds of the sections that were merged. -/
structure Represents (calls : List (ObjectFile × Section)) (r : Registry) : Prop where
  indexed : r.Indexed
  represents : ∀ m ∈ r.sections, m.Represents calls
  nonempty : ∀ m ∈ r.sections, m.members ≠ #[]
  present : ∀ call ∈ calls, ∃ m ∈ r.sections, m.name = call.2.name

theorem represents_empty : Represents [] {} where
  indexed := indexed_empty
  represents m hm := by simp at hm
  nonempty m hm := by simp at hm
  present call hcall := by cases hcall

/-- The merged section that a section joins holds the sections of its name. -/
theorem Represents.slot (hr : r.Represents calls) {i : ℕ} {m : Merged} (hslot : r.Slot s i m) :
    m.Represents calls := by
  cases hslot with
  | known position present _ => exact hr.represents m (Array.mem_of_getElem? present)
  | fresh position last empty =>
    subst empty
    have hnone := filter_eq_nil_of_fresh hr.indexed hr.present position
    have hempty : ∀ x ∈ (r.emptyFor s).members, False := Array.not_mem_empty
    exact ⟨hnone.symm, fun x hx => (hempty x hx).elim, fun x hx => (hempty x hx).elim,
      fun x hx => (hempty x hx).elim, fun _ => Nat.zero_le 1, fun _ x hx => (hempty x hx).elim,
      fun _ => rfl, fun _ => rfl, fun _ => rfl, rfl⟩

/-- The step with a conflict: nothing that is represented changes. -/
theorem represents_add_of_conflict (hr : r.Represents calls) (hadd : (r.add f s).2 ≠ none) :
    (r.add f s).1.Represents calls := by
  have hindexed := indexed_add hr.indexed f s
  obtain ⟨conflict, -, h⟩ | ⟨i, m, r', hslot, -, ⟨wish, hwish, h, hputs⟩ | ⟨-, h, -⟩⟩ :=
    add_cases hr.indexed f s
  · rw [h]
    exact hr
  · -- an empty merged section refuses nothing, so the section has a known name
    have hm : m ∈ r.sections := by
      cases hslot with
      | known _ present _ => exact Array.mem_of_getElem? present
      | fresh _ _ empty =>
        rw [empty, Merged.unmetWish?_emptyFor] at hwish
        cases hwish
    rw [h] at hindexed ⊢
    refine ⟨hindexed, ?_, ?_, ?_⟩
    · intro n hn
      obtain rfl | ⟨hn, -⟩ := hputs.mem_cases hindexed hn
      · exact (hr.represents m hm).refused
      · exact hr.represents n hn
    · intro n hn
      obtain rfl | ⟨hn, -⟩ := hputs.mem_cases hindexed hn
      · exact hr.nonempty m hm
      · exact hr.nonempty n hn
    · intro call hcall
      obtain ⟨n, hn, hname⟩ := hr.present call hcall
      obtain hn' | rfl := hputs.mem_or_eq hslot hn
      · exact ⟨n, hn', hname⟩
      · exact ⟨n.refused f s, hputs.mem, hname⟩
  · exact absurd (by rw [h]) hadd

/-- The step without a conflict: one more section is represented. -/
theorem represents_add (hr : r.Represents calls)
    (hnew : ∀ call ∈ calls, callKey call ≠ callKey (f, s))
    (htotal : totalSize (calls ++ [(f, s)]) < 2 ^ 32) (hadd : (r.add f s).2 = none) :
    (r.add f s).1.Represents (calls ++ [(f, s)]) := by
  have hindexed := indexed_add hr.indexed f s
  obtain ⟨conflict, -, h⟩ | ⟨i, m, r', hslot, hadmits, ⟨wish, -, h, -⟩ | ⟨-, h, hputs⟩⟩ :=
    add_cases hr.indexed f s
  · rw [h] at hadd
    cases hadd
  · rw [h] at hadd
    cases hadd
  rw [h] at hindexed ⊢
  have hkin := kindred_of_slot hr.nonempty hslot hadmits
  have hname := Merged.name_joined m f s
  refine ⟨hindexed, ?_, ?_, ?_⟩
  · intro n hn
    obtain rfl | ⟨hn, hne⟩ := hputs.mem_cases hindexed hn
    · exact (hr.slot hslot).joined hkin hnew htotal
    · rw [hname, hkin.name_eq] at hne
      exact (hr.represents n hn).concat_of_ne hne.symm
  · intro n hn
    obtain rfl | ⟨hn, -⟩ := hputs.mem_cases hindexed hn
    · rw [Merged.members_joined]
      exact Array.push_ne_empty
    · exact hr.nonempty n hn
  · intro call hcall
    rcases List.mem_append.mp hcall with hcall | hcall
    · obtain ⟨n, hn, heq⟩ := hr.present call hcall
      obtain hn' | rfl := hputs.mem_or_eq hslot hn
      · exact ⟨n, hn', heq⟩
      · exact ⟨n.joined f s, hputs.mem, hname.trans heq⟩
    · rw [List.mem_singleton.mp hcall]
      exact ⟨m.joined f s, hputs.mem, by rw [hname, hkin.name_eq]⟩

/-- The run: whatever conflicts there are, the registry represents the sections without one. -/
theorem represents_addAll_of_represents (hr : r.Represents done)
    (hkeys : ((done ++ calls).map callKey).Nodup) (htotal : totalSize (done ++ calls) < 2 ^ 32) :
    (r.addAll calls).Represents (done ++ r.accepted calls) := by
  induction calls generalizing done r with
  | nil =>
    rw [accepted, List.append_nil]
    exact hr
  | cons call rest ih =>
    obtain ⟨f, s⟩ := call
    have hsplit : done ++ (f, s) :: rest = (done ++ [(f, s)]) ++ rest := by simp
    unfold accepted
    split
    · next hadd =>
      have hnew : ∀ call ∈ done, callKey call ≠ callKey (f, s) := by
        intro call hcall
        rw [List.map_append, List.nodup_append] at hkeys
        exact hkeys.2.2 _ (List.mem_map_of_mem hcall) _ List.mem_cons_self
      have hle := totalSize_append (done ++ [(f, s)]) rest
      rw [hsplit] at hkeys htotal
      have hstep := represents_add hr hnew (by omega) (Option.isNone_iff_eq_none.mp hadd)
      rw [show done ++ (f, s) :: (r.add f s).1.accepted rest
        = (done ++ [(f, s)]) ++ (r.add f s).1.accepted rest by simp]
      exact ih hstep hkeys htotal
    · next hadd =>
      have hsub : (done ++ rest).Sublist (done ++ (f, s) :: rest) :=
        (List.sublist_cons_self (f, s) rest).append_left done
      have hstep := represents_add_of_conflict (f := f) (s := s) hr
        fun h => hadd (Option.isNone_iff_eq_none.mpr h)
      exact ih hstep (hkeys.sublist (hsub.map _))
        (lt_of_le_of_lt (totalSize_le_of_sublist hsub) htotal)

theorem represents_addAll (hkeys : (calls.map callKey).Nodup)
    (htotal : totalSize calls < 2 ^ 32) :
    (addAll {} calls).Represents (accepted {} calls) :=
  represents_addAll_of_represents represents_empty hkeys htotal

/-! ## What is represented -/

/-- The members of all merged sections. -/
def allMembers (r : Registry) : List Member :=
  r.sections.toList.flatMap fun m => m.members.toList

/-- A merged section of a registry: it has members of its name and sort, laid out as its modifier
says, and in ROM it holds their bytes, of which each member has a window. A tag beside the three
modifiers lets members overlap. -/
structure Coherent (r : Registry) (m : Merged) : Prop where
  nonempty : m.members ≠ #[]
  sort_eq : ∀ x ∈ m.members, x.content.name = m.name ∧ x.content.kind = m.kind
    ∧ x.content.modifier = m.modifier
  normal : m.modifier = .normal → ∃ x, m.members = #[x]
  union : m.modifier = .union → (∀ x ∈ m.members, x.offset = 0)
    ∧ IsGreatest {size | ∃ x ∈ m.members, size = x.content.size.toNat} m.size.toNat
  fragment : m.modifier = .fragment →
    m.size.toNat = (m.members.toList.map fun x => x.content.size.toNat).sum
    ∧ ∀ (i : ℕ) (x : Member), m.members[i]? = some x →
      x.offset.toNat = ((m.members.toList.take i).map fun y => y.content.size.toNat).sum
  data_eq : m.kind.hasData = true →
    m.data.toList = m.members.toList.flatMap fun x => x.content.data
  stored : m.kind.hasData = true →
    m.modifier = .normal ∨ m.modifier = .union ∨ m.modifier = .fragment →
    m.data.size = m.size.toNat
    ∧ ∀ x ∈ m.members, x.offset.toNat + x.content.size.toNat ≤ m.data.size
      ∧ r.bytes x.file x.content
        = (m.data.extract x.offset.toNat (x.offset.toNat + x.content.size.toNat)).toList

/-- The registry belongs to a sequence of merges: merged sections are numbered, have names of their
own and are found by them, and a section of the sequence is one member, or none if it was
refused. -/
structure Faithful (calls : List (ObjectFile × Section)) (r : Registry) : Prop where
  id_eq : ∀ (i : ℕ) (m : Merged), r.sections[i]? = some m → m.id = i
  nodup_names : (r.sections.toList.map Merged.name).Nodup
  find?_iff : ∀ name m, r.find? name = some m ↔ m ∈ r.sections ∧ m.name = name
  coherent : ∀ m ∈ r.sections, r.Coherent m
  member_iff : ∀ done f s rest, calls = done ++ (f, s) :: rest →
    (r.allMembers.filter fun x => x.key = callKey (f, s)).map Member.call
      = if ((addAll {} done).add f s).2.isNone then [(f, s)] else []

theorem Indexed.nodup_names (hr : r.Indexed) : (r.sections.toList.map Merged.name).Nodup := by
  rw [List.nodup_iff_getElem?_ne_getElem?]
  intro i j hij hj heq
  rw [List.length_map] at hj
  obtain ⟨m, hm⟩ : ∃ m, r.sections[i]? = some m :=
    ⟨_, Array.getElem?_eq_getElem (by simpa using hij.trans hj)⟩
  obtain ⟨n, hn⟩ : ∃ n, r.sections[j]? = some n :=
    ⟨_, Array.getElem?_eq_getElem (by simpa using hj)⟩
  rw [List.getElem?_map, List.getElem?_map, Array.getElem?_toList, Array.getElem?_toList, hm, hn,
    Option.map_some, Option.map_some, Option.some.injEq] at heq
  -- a name has one position
  have hi := hr.position_eq hm
  rw [heq, hr.position_eq hn, Option.some.injEq] at hi
  omega

section Represented

variable (hr : r.Represents done) (hkeys : (done.map callKey).Nodup)

include hr

theorem Represents.mem_allMembers_iff {call : ObjectFile × Section} :
    call ∈ r.allMembers.map Member.call ↔ call ∈ done := by
  unfold allMembers
  simp only [List.mem_map, List.mem_flatMap, Array.mem_toList_iff]
  constructor
  · rintro ⟨x, ⟨m, hm, hx⟩, rfl⟩
    exact ((hr.represents m hm).call_mem hx).1
  · intro hcall
    obtain ⟨m, hm, hname⟩ := hr.present call hcall
    obtain ⟨x, hx, hxcall⟩ := (hr.represents m hm).exists_member hcall hname.symm
    exact ⟨x, ⟨m, hm, hx⟩, hxcall⟩

include hkeys

/-- The members are the sections that were merged, in another order. -/
theorem Represents.allMembers_perm : (r.allMembers.map Member.call).Perm done := by
  have hnodup : (r.allMembers.map Member.call).Nodup := by
    rw [allMembers, List.map_flatMap, List.nodup_flatMap]
    constructor
    · intro m hm
      rw [(hr.represents m (Array.mem_toList_iff.mp hm)).calls_eq]
      exact hkeys.of_map.filter _
    · -- merged sections have different names, and so have their members
      refine (List.pairwise_map.mp hr.indexed.nodup_names).imp_of_mem ?_
      intro m n hm hn hname call hcall hcall'
      dsimp only at hcall hcall'
      rw [(hr.represents m (Array.mem_toList_iff.mp hm)).calls_eq, List.mem_filter] at hcall
      rw [(hr.represents n (Array.mem_toList_iff.mp hn)).calls_eq, List.mem_filter] at hcall'
      exact hname ((of_decide_eq_true hcall.2).symm.trans (of_decide_eq_true hcall'.2))
  rw [List.perm_ext_iff_of_nodup hnodup hkeys.of_map]
  exact fun call => hr.mem_allMembers_iff

/-- The bytes of a member are its window of the merged ones. -/
theorem Represents.bytes_eq {m : Merged} (hm : m ∈ r.sections) (hdata : m.kind.hasData = true)
    {x : Member} (hx : x ∈ m.members)
    (hstop : x.offset.toNat + x.content.size.toNat ≤ m.data.size) :
    r.bytes x.file x.content
      = (m.data.extract x.offset.toNat (x.offset.toNat + x.content.size.toNat)).toList := by
  have hrep := hr.represents m hm
  have hfind : r.find? x.content.name = some m :=
    hr.indexed.find?_eq_some_iff.mpr ⟨hm, ((hrep.call_mem hx).2).symm⟩
  have hmember : m.member? ⟨x.file.index, x.content.id⟩ = some x := hrep.member?_eq hkeys hx
  have hkind : x.content.kind.hasData = true := by rw [hrep.kind_eq x hx, hdata]
  have hbuffer : m.buffer = m.data := by rw [Merged.buffer, hrep.tail_eq, Array.append_empty]
  unfold bytes
  simp only [hfind, hmember, hkind, if_true]
  unfold Merged.window
  rw [hbuffer]
  -- nothing is missing at the end of the window
  have hlength : (m.data.extract x.offset.toNat
      (x.offset.toNat + x.content.size.toNat)).toList.length = x.content.size.toNat := by
    rw [Array.length_toList, Array.size_extract]
    omega
  simp only [hlength, Nat.sub_self, List.replicate_zero, List.append_nil]

theorem Represents.coherent
    (hlength : ∀ call ∈ done, call.2.kind.hasData = true →
      call.2.data.length = call.2.size.toNat)
    {m : Merged} (hm : m ∈ r.sections) : r.Coherent m := by
  have hrep := hr.represents m hm
  have hne := hr.nonempty m hm
  have hpos : 0 < m.members.size := Array.size_pos_iff.mpr hne
  refine ⟨hne, ?_, ?_, ?_, ?_, hrep.data_eq, ?_⟩
  · exact fun x hx => ⟨(hrep.call_mem hx).2, hrep.kind_eq x hx, hrep.modifier_eq x hx⟩
  · intro hnormal
    have hone := hrep.alone hnormal
    exact Array.size_eq_one_iff.mp (by omega)
  · intro hunion
    refine ⟨hrep.offset_eq hunion, ?_⟩
    -- the fold starts from zero, which is the size of a member or below one
    obtain ⟨hmem, hupper⟩ := Rom.isGreatest_foldl_max
      (m.members.toList.map fun x => x.content.size) 0
    rw [← hrep.size_eq hunion] at hmem hupper
    have hbound : ∀ x ∈ m.members, x.content.size.toNat ≤ m.size.toNat := fun x hx =>
      hupper (Or.inr ⟨_, List.mem_map_of_mem (Array.mem_toList_iff.mpr hx), rfl⟩)
    constructor
    · rcases hmem with hzero | ⟨w, hw, hsize⟩
      · refine ⟨m.members[0], Array.getElem_mem hpos, ?_⟩
        have hfirst := hbound _ (Array.getElem_mem hpos)
        simp only [UInt32.toNat_zero] at hzero
        omega
      · obtain ⟨x, hx, rfl⟩ := List.mem_map.mp hw
        exact ⟨x, Array.mem_toList_iff.mp hx, hsize⟩
    · rintro _ ⟨x, hx, rfl⟩
      exact hbound x hx
  · intro hfragment
    have hconsecutive := hrep.consecutive (Or.inr hfragment)
    refine ⟨?_, ?_⟩
    · rw [hconsecutive.eq_add_sum, Nat.zero_add]
    · intro i x hx
      rw [hconsecutive.offset_eq (i := i) (by rw [Array.getElem?_toList, hx]), Nat.zero_add]
  · intro hdata hmodifier
    have hstorable := hrep.storable _ (Array.getElem_mem hpos)
    rw [hrep.modifier_eq _ (Array.getElem_mem hpos), hrep.kind_eq _ (Array.getElem_mem hpos)]
      at hstorable
    -- there is no union in ROM, so the members follow each other
    have hconsecutive : Consecutive 0 m.members.toList m.size.toNat := by
      refine hrep.consecutive ?_
      rcases hmodifier with hnormal | hunion | hfragment
      · exact Or.inl hnormal
      · exact absurd ⟨hunion, hdata⟩ hstorable
      · exact Or.inr hfragment
    have hmember : ∀ x ∈ m.members.toList, x.content.data.length = x.content.size.toNat := by
      intro x hx
      have hmem := Array.mem_toList_iff.mp hx
      refine hlength x.call (hrep.call_mem hmem).1 ?_
      show x.content.kind.hasData = true
      rw [hrep.kind_eq x hmem, hdata]
    have hsize : m.data.size = m.size.toNat := by
      rw [← Array.length_toList, hrep.data_eq hdata, List.length_flatMap,
        hconsecutive.eq_add_sum, Nat.zero_add, List.map_congr_left hmember]
    refine ⟨hsize, fun x hx => ?_⟩
    have hstop := (hconsecutive.bounds (Array.mem_toList_iff.mpr hx)).2
    exact ⟨by omega, hr.bytes_eq hkeys hm hdata hx (by omega)⟩

end Represented

/-- After any sequence of merges of distinct sections that fit into a word together, and that
supply as many bytes as they are large in ROM, the registry is faithful to the sequence. -/
theorem faithful_addAll (calls : List (ObjectFile × Section)) (hkeys : (calls.map callKey).Nodup)
    (hlength : ∀ call ∈ calls, call.2.kind.hasData = true →
      call.2.data.length = call.2.size.toNat)
    (htotal : totalSize calls < 2 ^ 32) : (addAll {} calls).Faithful calls := by
  have hr := represents_addAll hkeys htotal
  have hsub := accepted_sublist {} calls
  have hkeys' : ((accepted {} calls).map callKey).Nodup := hkeys.sublist (hsub.map _)
  refine ⟨fun i m hm => hr.indexed.id_eq hm, hr.indexed.nodup_names,
    fun name m => hr.indexed.find?_eq_some_iff, ?_, ?_⟩
  · exact fun m hm => hr.coherent hkeys' (fun call hcall => hlength call (hsub.mem hcall)) hm
  · intro done f s rest hsplit
    -- the members of the key are the accepted sections of the key
    have hperm : (((addAll {} calls).allMembers.filter fun x => x.key = callKey (f, s)).map
        Member.call).Perm ((accepted {} calls).filter fun call => callKey call = callKey (f, s)) := by
      have hfilter := (hr.allMembers_perm hkeys').filter fun call => callKey call = callKey (f, s)
      rwa [List.filter_map] at hfilter
    rw [hsplit] at hkeys hperm
    rw [filter_accepted hkeys] at hperm
    rw [hsplit]
    split at hperm
    · next hnone =>
      rw [if_pos hnone]
      exact List.perm_singleton.mp hperm
    · next hsome =>
      rw [if_neg hsome]
      exact hperm.eq_nil

/-- A fragment of one name in a given region. -/
def rival (id : UInt32) (kind : RegionKind) (data : Bytes) : Section :=
  { id, name := [0x72], source := none, kind, modifier := .fragment, size := 2, org := none,
    bank := none, align := 0, alignOffset := 0, data, patches := [] }

/-- Three fragments of one name, the second of which is in another region than the other two. -/
def rivalFile : ObjectFile :=
  { name := [0x66], index := 0,
    sections := [rival 0 .rom0 [1, 2], rival 1 .wram0 [], rival 2 .rom0 [3, 4]] }

def rivals : List (ObjectFile × Section) :=
  rivalFile.sections.map (rivalFile, ·)

/-- The registry is faithful to the three fragments, and the second one is a member of none. -/
theorem faithful_addAll_rivals :
    (rivals.map callKey).Nodup
      ∧ (∀ call ∈ rivals, call.2.kind.hasData = true → call.2.data.length = call.2.size.toNat)
      ∧ totalSize rivals < 2 ^ 32 ∧ (addAll {} rivals).Faithful rivals
      ∧ ((addAll {} rivals).allMembers.filter fun x =>
        x.key = callKey (rivalFile, rival 1 .wram0 [])).map Member.call = [] := by
  have hfaithful := faithful_addAll rivals (by decide) (by decide) (by decide)
  have hrefused : ((addAll {} [(rivalFile, rival 0 .rom0 [1, 2])]).add rivalFile
      (rival 1 .wram0 [])).2.isNone = false := by cbv
  refine ⟨by decide, by decide, by decide, hfaithful, ?_⟩
  rw [hfaithful.member_iff [(rivalFile, rival 0 .rom0 [1, 2])] rivalFile (rival 1 .wram0 [])
    [(rivalFile, rival 2 .rom0 [3, 4])] rfl, hrefused]
  rfl

end Registry

end BankedLinker
