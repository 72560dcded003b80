import BankedLinker.Proofs.Decoding
import BankedLinker.Proofs.Merging
import Mathlib.Algebra.Order.BigOperators.Group.List

/-!
# The members of a ROM section

After merges without a conflict the members of a merged section are the sections of its name, in
the order in which they were merged. In ROM they tile it: each begins where the one before it
ends, and their bytes follow each other in the merged data.

* `Consecutive a members b`: the members lie one after the other, from position `a` to `b`;
* `Merged.Gathers` is what a merged section holds of a sequence of merges;
* `Registry.Collected` is the invariant of merging without a conflict, `Registry.collected_add` its
  step and `Registry.collected_addAll` its run.
-/

namespace BankedLinker

/-! ## Members one after the other -/

/-- The positions of its merged section that a member takes up. -/
def Member.Holds (x : Member) (k : ℕ) : Prop :=
  x.offset.toNat ≤ k ∧ k < x.offset.toNat + x.content.size.toNat

/-- The members lie one after the other, from position `a` to position `b`. -/
def Consecutive (a : ℕ) : (members : List Member) → (b : ℕ) → Prop
  | [], b => a = b
  | x :: rest, b => x.offset.toNat = a ∧ Consecutive (a + x.content.size.toNat) rest b

namespace Consecutive

variable {a b : ℕ} {xs : List Member} {x y : Member}

theorem concat (h : Consecutive a xs b) (hx : x.offset.toNat = b) :
    Consecutive a (xs ++ [x]) (b + x.content.size.toNat) := by
  induction xs generalizing a with
  | nil =>
    have hab : a = b := h
    exact ⟨hx.trans hab.symm, by rw [hab]; rfl⟩
  | cons y rest ih => exact ⟨h.1, ih h.2⟩

/-- Where the members end. -/
theorem eq_add_sum (h : Consecutive a xs b) :
    b = a + (xs.map fun x => x.content.size.toNat).sum := by
  induction xs generalizing a with
  | nil =>
    have hab : a = b := h
    rw [← hab]
    rfl
  | cons y rest ih =>
    rw [ih h.2, List.map_cons, List.sum_cons]
    omega

theorem bounds (h : Consecutive a xs b) (hx : x ∈ xs) :
    a ≤ x.offset.toNat ∧ x.offset.toNat + x.content.size.toNat ≤ b := by
  induction xs generalizing a with
  | nil => cases hx
  | cons y rest ih =>
    obtain ⟨hy, hrest⟩ := h
    rcases List.mem_cons.mp hx with rfl | hx
    · have hend := eq_add_sum hrest
      omega
    · have hbounds := ih hrest hx
      omega

/-- Every position belongs to a member. -/
theorem exists_holds (h : Consecutive a xs b) {k : ℕ} (ha : a ≤ k) (hb : k < b) :
    ∃ x ∈ xs, x.Holds k := by
  induction xs generalizing a with
  | nil =>
    have hab : a = b := h
    omega
  | cons y rest ih =>
    obtain ⟨hy, hrest⟩ := h
    by_cases hk : k < a + y.content.size.toNat
    · exact ⟨y, List.mem_cons_self .., by unfold Member.Holds; omega⟩
    · obtain ⟨x, hx, hholds⟩ := ih hrest (by omega)
      exact ⟨x, List.mem_cons_of_mem _ hx, hholds⟩

/-- No position belongs to two members. -/
theorem eq_of_holds (h : Consecutive a xs b) (hx : x ∈ xs) (hy : y ∈ xs) {k : ℕ}
    (hxk : x.Holds k) (hyk : y.Holds k) : x = y := by
  unfold Member.Holds at hxk hyk
  induction xs generalizing a with
  | nil => cases hx
  | cons z rest ih =>
    obtain ⟨hz, hrest⟩ := h
    -- the members after `z` begin where `z` ends
    rcases List.mem_cons.mp hx with rfl | hx' <;> rcases List.mem_cons.mp hy with rfl | hy'
    · rfl
    · have hlow := (hrest.bounds hy').1
      omega
    · have hlow := (hrest.bounds hx').1
      omega
    · exact ih hrest hx' hy'

/-- The bytes of a member among those of all members. -/
theorem getElem?_flatMap (h : Consecutive a xs b)
    (hlength : ∀ x ∈ xs, x.content.data.length = x.content.size.toNat) (hx : x ∈ xs) {i : ℕ}
    (hi : i < x.content.size.toNat) :
    (xs.flatMap fun x => x.content.data)[x.offset.toNat - a + i]? = x.content.data[i]? := by
  induction xs generalizing a with
  | nil => cases hx
  | cons y rest ih =>
    obtain ⟨hy, hrest⟩ := h
    have hlen := hlength y (List.mem_cons_self ..)
    rw [List.flatMap_cons]
    rcases List.mem_cons.mp hx with rfl | hx
    · rw [hy, Nat.sub_self, Nat.zero_add, List.getElem?_append_left (by omega)]
    · have hlow := (hrest.bounds hx).1
      rw [List.getElem?_append_right (by omega), hlen,
        show x.offset.toNat - a + i - y.content.size.toNat
          = x.offset.toNat - (a + y.content.size.toNat) + i by omega]
      exact ih hrest (fun z hz => hlength z (List.mem_cons_of_mem _ hz)) hx

/-- A change that leaves sizes and positions alone leaves the members where they are. -/
theorem map (h : Consecutive a xs b) {change : Member → Member}
    (hoffset : ∀ x, (change x).offset = x.offset)
    (hcontent : ∀ x, (change x).content = x.content) : Consecutive a (xs.map change) b := by
  induction xs generalizing a with
  | nil => exact h
  | cons y rest ih =>
    refine ⟨?_, ?_⟩
    · rw [hoffset]
      exact h.1
    · rw [hcontent]
      exact ih h.2

end Consecutive

/-! ## One merge -/

/-- The number of bytes of all sections of a sequence. -/
def totalSize (calls : List (ObjectFile × Section)) : ℕ :=
  (calls.map fun call => call.2.size.toNat).sum

theorem totalSize_le_of_sublist {calls calls' : List (ObjectFile × Section)}
    (h : calls.Sublist calls') : totalSize calls ≤ totalSize calls' :=
  (h.map _).sum_le_sum fun _ _ => Nat.zero_le _

/-- The section of a file that a member stands for. -/
def Member.call (x : Member) : ObjectFile × Section :=
  (x.file, x.content)

namespace Merged

variable {m : Merged} {calls : List (ObjectFile × Section)} {f : ObjectFile} {s : Section}

/-- The merged section holds the sections of its name, and in ROM they tile it. -/
structure Gathers (calls : List (ObjectFile × Section)) (m : Merged) : Prop where
  calls_eq : m.members.toList.map Member.call = calls.filter fun call => call.2.name = m.name
  kind_eq : ∀ x ∈ m.members, x.content.kind = m.kind
  consecutive : m.kind.hasData = true → Consecutive 0 m.members.toList m.size.toNat
  data_eq : m.kind.hasData = true →
    m.data.toList = m.members.toList.flatMap fun x => x.content.data

theorem Gathers.call_mem (hm : m.Gathers calls) {x : Member} (hx : x ∈ m.members) :
    x.call ∈ calls ∧ x.content.name = m.name := by
  have hmem : x.call ∈ m.members.toList.map Member.call :=
    List.mem_map_of_mem (Array.mem_toList_iff.mpr hx)
  rw [hm.calls_eq, List.mem_filter] at hmem
  exact ⟨hmem.1, of_decide_eq_true hmem.2⟩

theorem Gathers.exists_member (hm : m.Gathers calls) {call : ObjectFile × Section}
    (hcall : call ∈ calls) (hname : call.2.name = m.name) : ∃ x ∈ m.members, x.call = call := by
  have hmem : call ∈ calls.filter fun call => call.2.name = m.name :=
    List.mem_filter.mpr ⟨hcall, decide_eq_true hname⟩
  rw [← hm.calls_eq, List.mem_map] at hmem
  obtain ⟨x, hx, hcall⟩ := hmem
  exact ⟨x, Array.mem_toList_iff.mp hx, hcall⟩

theorem Gathers.size_le (hm : m.Gathers calls) (hdata : m.kind.hasData = true) :
    m.size.toNat ≤ totalSize calls := by
  have hsize := (hm.consecutive hdata).eq_add_sum
  have hsum : (m.members.toList.map fun x => x.content.size.toNat)
      = (calls.filter fun call => call.2.name = m.name).map fun call => call.2.size.toNat := by
    rw [← hm.calls_eq, List.map_map]
    rfl
  have hle := totalSize_le_of_sublist
    (List.filter_sublist (l := calls) (p := fun call => call.2.name = m.name))
  unfold totalSize at hle ⊢
  rw [hsum] at hsize
  omega

/-- A section whose key is new becomes a member as it is. -/
theorem newMember_of_new (h : ∀ x ∈ m.members, x.key ≠ callKey (f, s)) :
    m.newMember f s = ⟨f, s, m.nextOffset, s.declaredOrg, s.declaredBank, false⟩ :=
  m.newMember_of_first f s h

theorem members_joined_of_new (h : ∀ x ∈ m.members, x.key ≠ callKey (f, s)) :
    (m.joined f s).members = m.members.push (m.newMember f s) := by
  rw [members_joined, map_moved_of_first]
  rw [key_newMember]
  exact h

theorem data_joined_of_hasData (h : (m.newMember f s).content.kind.hasData = true) :
    (m.joined f s).data = m.data ++ (m.newMember f s).content.data := by
  unfold joined append
  simp only [h, if_true]
  rfl

/-- A section may join the merged section and is of the same sort. -/
structure Kindred (m : Merged) (s : Section) : Prop where
  name_eq : m.name = s.name
  kind_eq : m.kind = s.kind
  modifier_eq : m.modifier = s.modifier
  alone : s.modifier = .normal → m.members = #[]
  storable : ¬(s.modifier = .union ∧ s.kind.hasData = true)

section Join

variable (hm : m.Gathers calls) (hkin : m.Kindred s) (hs : s.WellFormed)

include hm hkin hs

/-- In ROM a new member starts where the present ones end. -/
theorem toNat_nextOffset (hdata : m.kind.hasData = true) :
    m.nextOffset.toNat = m.size.toNat := by
  unfold nextOffset
  -- a plain section is the only one of its name, and there is no union in ROM
  rcases hs.modifier_mem with hnormal | hunion | hfragment
  · have hsize : m.size.toNat = 0 := by
      have hconsecutive := hm.consecutive hdata
      rw [hkin.alone hnormal] at hconsecutive
      exact (show 0 = m.size.toNat from hconsecutive).symm
    rw [if_neg (by rw [hkin.modifier_eq, hnormal]; decide), hsize]
    rfl
  · rw [hkin.kind_eq] at hdata
    exact absurd ⟨hunion, hdata⟩ hkin.storable
  · rw [if_pos (by rw [hkin.modifier_eq, hfragment])]

theorem toNat_grownSize (hdata : m.kind.hasData = true)
    (hfits : m.size.toNat + s.size.toNat < 2 ^ 32) :
    (m.grownSize s.size).toNat = m.size.toNat + s.size.toNat := by
  have hunion : m.modifier ≠ .union := by
    intro h
    rw [hkin.modifier_eq] at h
    rw [hkin.kind_eq] at hdata
    exact hkin.storable ⟨h, hdata⟩
  unfold grownSize
  rw [if_neg hunion, UInt32.toNat_add, toNat_nextOffset hm hkin hs hdata, Nat.mod_eq_of_lt hfits]

/-- One merge: the section becomes the last member of the merged section of its name. -/
theorem Gathers.joined (hnew : ∀ call ∈ calls, callKey call ≠ callKey (f, s))
    (htotal : totalSize (calls ++ [(f, s)]) < 2 ^ 32) :
    (m.joined f s).Gathers (calls ++ [(f, s)]) := by
  have hkeys : ∀ x ∈ m.members, x.key ≠ callKey (f, s) := fun x hx => hnew _ (hm.call_mem hx).1
  have hmember := newMember_of_new hkeys
  have hmembers := members_joined_of_new hkeys
  constructor
  · have hone : [(f, s)].filter (fun call => call.2.name = m.name) = [(f, s)] := by
      simp [hkin.name_eq]
    rw [hmembers, Array.toList_push, List.map_append, hm.calls_eq, hmember, name_joined,
      List.filter_append, hone]
    rfl
  · intro x hx
    rw [hmembers, Array.mem_push] at hx
    rw [kind_joined]
    rcases hx with hx | rfl
    · exact hm.kind_eq x hx
    · rw [hmember]
      exact hkin.kind_eq.symm
  · intro hdata
    rw [kind_joined] at hdata
    have hsize := hm.size_le hdata
    have hsum : totalSize (calls ++ [(f, s)]) = totalSize calls + s.size.toNat := by
      simp [totalSize]
    rw [hmembers, Array.toList_push, size_joined]
    have hcontent : (m.newMember f s).content = s := by rw [hmember]
    have hoffset : (m.newMember f s).offset.toNat = m.size.toNat := by
      rw [hmember]
      exact toNat_nextOffset hm hkin hs hdata
    -- the sizes of all sections together fit into a word, so the size does not wrap
    have hgrown := toNat_grownSize hm hkin hs hdata (by omega)
    have hconcat := (hm.consecutive hdata).concat hoffset
    rw [hcontent] at hconcat ⊢
    rwa [hgrown]
  · intro hdata
    rw [kind_joined] at hdata
    have hcontent : (m.newMember f s).content = s := by rw [hmember]
    have hdata' : (m.newMember f s).content.kind.hasData = true := by
      rw [hcontent, ← hkin.kind_eq]
      exact hdata
    rw [data_joined_of_hasData hdata', hmembers, Array.toList_push, List.flatMap_append,
      ← hm.data_eq hdata]
    simp

end Join

end Merged

/-! ## Sequences of merges -/

namespace Registry

/-- What merges without a conflict make of the empty registry. -/
structure Collected (calls : List (ObjectFile × Section)) (r : Registry) : Prop where
  indexed : r.Indexed
  gathers : ∀ m ∈ r.sections, m.Gathers calls
  nonempty : ∀ m ∈ r.sections, m.members ≠ #[]
  present : ∀ call ∈ calls, ∃ m ∈ r.sections, m.name = call.2.name

theorem collected_empty : Collected [] {} where
  indexed := indexed_empty
  gathers m hm := by simp at hm
  nonempty m hm := by simp at hm
  present call hcall := by cases hcall

variable {calls : List (ObjectFile × Section)} {r r' : Registry} {f : ObjectFile} {s : Section}

/-- A section is of the same sort as the merged section that it joins. -/
theorem kindred_of_slot (hnonempty : ∀ m ∈ r.sections, m.members ≠ #[]) {i : ℕ} {m : Merged}
    (hslot : r.Slot s i m) (hadmits : Admits m s) : m.Kindred s := by
  have hkinship := hadmits.kinship
  cases hslot with
  | known position present _ =>
    have hm : m ∈ r.sections := Array.mem_of_getElem? present
    -- the merged section has a first member, which the section was compared with
    cases hfirst : m.members[0]? with
    | none =>
      have hempty : m.members = #[] := Array.eq_empty_of_size_eq_zero
        (Nat.le_zero.mp (Array.getElem?_eq_none_iff.mp hfirst))
      exact absurd hempty (hnonempty m hm)
    | some first =>
      simp only [checkKinship, hfirst] at hkinship
      split at hkinship
      · cases hkinship
      next hkind =>
      split at hkinship
      · cases hkinship
      next hmodifier =>
      split at hkinship
      · cases hkinship
      next hnormal =>
      exact ⟨hadmits.name_eq, not_not.mp hkind, not_not.mp hmodifier, fun h => absurd h hnormal,
        hadmits.storable⟩
  | fresh position last empty =>
    subst empty
    exact ⟨rfl, rfl, rfl, fun _ => rfl, hadmits.storable⟩

/-- Before a name gets its first merged section, no section of that name is merged. -/
theorem filter_eq_nil_of_fresh (hindexed : r.Indexed)
    (hpresent : ∀ call ∈ calls, ∃ m ∈ r.sections, m.name = call.2.name)
    (hfresh : r.positions[s.name]? = none) :
    (calls.filter fun call => call.2.name = s.name) = [] := by
  rw [List.filter_eq_nil_iff]
  intro call hcall hname
  obtain ⟨m, hm, hmname⟩ := hpresent call hcall
  obtain ⟨j, hj⟩ := Array.mem_iff_getElem?.mp hm
  have hposition := hindexed.position_eq hj
  rw [hmname, of_decide_eq_true hname, hfresh] at hposition
  cases hposition

/-- The merged section that a section joins holds the sections of its name. -/
theorem Collected.gathers_slot (hr : r.Collected calls) {i : ℕ} {m : Merged}
    (hslot : r.Slot s i m) : m.Gathers calls := by
  cases hslot with
  | known position present _ => exact hr.gathers m (Array.mem_of_getElem? present)
  | fresh position last empty =>
    subst empty
    refine ⟨?_, ?_, fun _ => rfl, fun _ => rfl⟩
    · exact (filter_eq_nil_of_fresh hr.indexed hr.present position).symm
    · intro x hx
      simp [emptyFor] at hx

/-- A merge of a section of another name does not matter to a merged section. -/
theorem gathers_concat_of_ne {m : Merged} (hm : m.Gathers calls) (hname : s.name ≠ m.name) :
    m.Gathers (calls ++ [(f, s)]) := by
  refine ⟨?_, hm.kind_eq, hm.consecutive, hm.data_eq⟩
  have hnone : [(f, s)].filter (fun call => call.2.name = m.name) = [] := by
    simp [hname]
  rw [List.filter_append, hnone, List.append_nil, hm.calls_eq]

/-- The step: one more section is merged. -/
theorem collected_add (hr : r.Collected calls) (hs : s.WellFormed)
    (hnew : ∀ call ∈ calls, callKey call ≠ callKey (f, s))
    (htotal : totalSize (calls ++ [(f, s)]) < 2 ^ 32) (hadd : (r.add f s).2 = none) :
    (r.add f s).1.Collected (calls ++ [(f, s)]) := by
  have hindexed := indexed_add hr.indexed f s
  obtain ⟨conflict, -, h⟩ | ⟨i, m, r', hslot, hadmits, ⟨wish, -, h, -⟩ | ⟨-, h, hputs⟩⟩ :=
    add_cases hr.indexed f s
  · rw [h] at hadd
    cases hadd
  · rw [h] at hadd
    cases hadd
  rw [h] at hindexed ⊢
  have hkin := kindred_of_slot hr.nonempty hslot hadmits
  have hjoined := (hr.gathers_slot hslot).joined hkin hs hnew htotal
  have hname := Merged.name_joined m f s
  refine ⟨hindexed, ?_, ?_, ?_⟩
  · intro n hn
    obtain rfl | ⟨hn, hne⟩ := hputs.mem_cases hindexed hn
    · exact hjoined
    · rw [hname, hkin.name_eq] at hne
      exact gathers_concat_of_ne (hr.gathers n hn) hne.symm
  · intro n hn
    obtain rfl | ⟨hn, -⟩ := hputs.mem_cases hindexed hn
    · rw [Merged.members_joined]
      exact Array.push_ne_empty
    · exact hr.nonempty n hn
  · intro call hcall
    rcases List.mem_append.mp hcall with hcall | hcall
    · obtain ⟨n, hn, heq⟩ := hr.present call hcall
      obtain hn' | rfl := hputs.mem_or_eq hslot hn
      · exact ⟨n, hn', heq⟩
      · exact ⟨n.joined f s, hputs.mem, hname.trans heq⟩
    · rw [List.mem_singleton.mp hcall]
      exact ⟨m.joined f s, hputs.mem, by rw [hname, hkin.name_eq]⟩

/-- The run: all sections of a sequence are merged. -/
theorem collected_addAll (hmerged : AllMerged {} calls)
    (hwell : ∀ call ∈ calls, call.2.WellFormed) (hkeys : (calls.map callKey).Nodup)
    (htotal : totalSize calls < 2 ^ 32) : (addAll {} calls).Collected calls := by
  refine addAll_induction (P := fun done r => r.Collected done) hmerged collected_empty ?_
  intro done call rest r heq hr hadd
  refine collected_add hr ?_ ?_ ?_ hadd
  · refine hwell call ?_
    rw [← heq]
    simp
  · intro other hother
    rw [← heq, List.map_append, List.map_cons] at hkeys
    exact (List.nodup_append.mp hkeys).2.2 _ (List.mem_map_of_mem hother) _
      (List.mem_cons_self ..)
  · have hle := totalSize_le_of_sublist (List.sublist_append_left (done ++ [call]) rest)
    rw [List.append_assoc, List.singleton_append, heq] at hle
    exact lt_of_le_of_lt hle htotal

end Registry

end BankedLinker
