import BankedLinker.Proofs.Representation

/-!
# What a refused section leaves behind

A section that cannot be merged should leave no trace, so that later sections are judged by the
members alone. That holds with one exception: the bank that a section asks for is settled before
its address and its alignment are looked at, and it stays settled if one of these is refused.

* `Constraints.takeBank`: what is known of the bank after a section asked for one;
* `Registry.add_of_conflict_cases`: a refused merge changes the constraints of one merged section,
  and those only as far as its bank goes;
* `Registry.LeavesBank` is the exception, and `Registry.add_of_conflict` says that it is the only
  one;
* `Registry.not_forall_unchanged`: the exception occurs.
-/

namespace BankedLinker

/-! ## The bank is settled first -/

namespace Constraints

variable {c c' : Constraints} {bank : Option UInt32}

/-- The constraints with the bank that is asked for, unless a bank is known already. -/
def takeBank (c : Constraints) (bank : Option UInt32) : Constraints :=
  match c.bankFixed, bank with
  | false, some bank => { c with bankFixed := true, bank }
  | _, _ => c

theorem takeBank_none (c : Constraints) : c.takeBank none = c := by
  unfold takeBank
  split
  · next h => cases h
  · rfl

theorem takeBank_of_bankFixed (h : c.bankFixed = true) : c.takeBank bank = c := by
  unfold takeBank
  rw [h]

theorem takeBank_some (h : c.bankFixed = false) (bank : UInt32) :
    c.takeBank (some bank) = { c with bankFixed := true, bank } := by
  unfold takeBank
  rw [h]

/-- The constraints change exactly if a bank is asked for and none is known. -/
theorem takeBank_eq_self_iff :
    c.takeBank bank = c ↔ ¬(c.bankFixed = false ∧ ∃ b, bank = some b) := by
  cases hfixed : c.bankFixed with
  | true => exact iff_of_true (takeBank_of_bankFixed hfixed) (by simp)
  | false =>
    cases bank with
    | none => exact iff_of_true c.takeBank_none (by simp)
    | some bank =>
      refine iff_of_false (fun h => ?_) (by simp)
      rw [takeBank_some hfixed] at h
      rw [← h] at hfixed
      cases hfixed

theorem eq_takeBank_of_absorbBank (h : c.absorbBank bank = .ok c') : c' = c.takeBank bank := by
  cases bank with
  | none =>
    cases h
    exact c.takeBank_none.symm
  | some bank =>
    unfold absorbBank at h
    dsimp only at h
    split at h
    · cases h
    · next hfits =>
      cases h
      cases hfixed : c.bankFixed with
      | false => exact (takeBank_some hfixed bank).symm
      | true =>
        -- the bank that is asked for is the known one
        obtain rfl : c.bank = bank := by
          by_contra hne
          exact hfits ⟨hfixed, hne⟩
        rw [takeBank_of_bankFixed hfixed, ← hfixed]

theorem takeBank_of_absorbBank_error {wish : UnmetWish} (h : c.absorbBank bank = .error wish) :
    c.takeBank bank = c := by
  cases bank with
  | none => cases h
  | some bank =>
    unfold absorbBank at h
    dsimp only at h
    split at h
    · next hdiffers => exact takeBank_of_bankFixed hdiffers.1
    · cases h

/-- Constraints that refuse a section keep nothing of it but the bank. -/
theorem absorb_of_unmet {s : Section} {offset : UInt32} {wish : UnmetWish}
    (h : (c.absorb s offset).2 = some wish) : (c.absorb s offset).1 = c.takeBank s.bank := by
  unfold absorb at h ⊢
  cases hbank : c.absorbBank s.bank with
  | error wish' => exact (takeBank_of_absorbBank_error hbank).symm
  | ok banked =>
    rw [hbank] at h
    dsimp only at h ⊢
    obtain rfl := eq_takeBank_of_absorbBank hbank
    cases hplace : (c.takeBank s.bank).absorbPlace s offset with
    | error wish' => rfl
    | ok placed =>
      rw [hplace] at h
      cases h

end Constraints

namespace Merged

/-- The bank that a section of a file asks for when it is merged. -/
def askedBank (m : Merged) (f : ObjectFile) (s : Section) : Option UInt32 :=
  (m.newMember f s).content.bank

/-- A member that comes again asks for a bank if it did before. -/
theorem askedBank_eq_none_iff {m : Merged} {f : ObjectFile} {s : Section} :
    m.askedBank f s = none ↔ s.bank = none := by
  unfold askedBank newMember
  split
  · exact Iff.rfl
  · exact Option.map_eq_none_iff

theorem refused_of_unmet {m : Merged} {f : ObjectFile} {s : Section} {wish : UnmetWish}
    (h : m.unmetWish? f s = some wish) :
    (m.refused f s).toConstraints = m.takeBank (m.askedBank f s) :=
  Constraints.absorb_of_unmet h

end Merged

namespace Registry

variable {r : Registry} {i : ℕ} {m : Merged} {f : ObjectFile} {s : Section} {conflict : Conflict}

/-! ## Other constraints for one merged section -/

/-- The registry with other constraints for the merged section at a position. -/
def constrain (r : Registry) (i : ℕ) (c : Constraints) : Registry :=
  { r with sections := r.sections.modify i fun m => { m with toConstraints := c } }

theorem getElem?_constrain {c : Constraints} {j : ℕ} :
    (r.constrain i c).sections[j]? = if i = j then
      r.sections[j]?.map fun m => { m with toConstraints := c } else r.sections[j]? :=
  Array.getElem?_modify

theorem constrain_eq_self_iff {c : Constraints} (hm : r.sections[i]? = some m) :
    r.constrain i c = r ↔ c = m.toConstraints := by
  constructor
  · intro h
    have hi : (r.constrain i c).sections[i]? = some m := by rw [h, hm]
    rw [getElem?_constrain, if_pos rfl, hm, Option.map_some] at hi
    exact congrArg Merged.toConstraints (Option.some.inj hi)
  · rintro rfl
    have hsections : (r.constrain i m.toConstraints).sections = r.sections := by
      refine Array.ext_getElem? fun j => ?_
      rw [getElem?_constrain]
      split
      · next hj =>
        rw [← hj, hm]
        rfl
      · rfl
    exact congrArg (fun sections => { r with sections }) hsections

/-- The merged section of a name is the same, constraints apart. -/
theorem find?_constrain (r : Registry) (i : ℕ) (c : Constraints) (name : Bytes) :
    (r.constrain i c).find? name = r.find? name
      ∨ ∃ m, r.find? name = some m
        ∧ (r.constrain i c).find? name = some { m with toConstraints := c } := by
  have hposition : (r.constrain i c).positions[name]? = r.positions[name]? := rfl
  unfold find?
  rw [hposition]
  cases r.positions[name]? with
  | none => exact Or.inl rfl
  | some j =>
    rw [Option.bind_some, Option.bind_some, getElem?_constrain]
    split
    · cases hm : r.sections[j]? with
      | none => exact Or.inl rfl
      | some m => exact Or.inr ⟨m, rfl, rfl⟩
    · exact Or.inl rfl

theorem member?_constrain {c : Constraints} {g : ObjectFile} {t : Section} :
    (r.constrain i c).member? g t = r.member? g t := by
  unfold member?
  obtain h | ⟨m, hm, h⟩ := r.find?_constrain i c t.name
  · rw [h]
  · rw [h, hm]
    rfl

theorem bytes_constrain {c : Constraints} {g : ObjectFile} {t : Section} :
    (r.constrain i c).bytes g t = r.bytes g t := by
  unfold bytes
  obtain h | ⟨m, hm, h⟩ := r.find?_constrain i c t.name
  · rw [h]
  · rw [h, hm]
    rfl

/-! ## A refused section -/

/-- A section that may join a known merged section goes there. -/
theorem add_of_known (hadmits : Admits m s) (hposition : r.positions[s.name]? = some i)
    (hm : r.sections[i]? = some m) : r.add f s = r.join i f s := by
  have hfind : r.find? s.name = some m := by
    unfold find?
    rw [hposition, Option.bind_some, hm]
  unfold add
  rw [if_neg hadmits.storable, hfind, Option.bind_some, hadmits.kinship, entry_of_some hposition]

theorem Refuses.ne_unmet (h : r.Refuses s conflict) (wish : UnmetWish) :
    conflict ≠ .unmet wish := by
  rintro rfl
  cases h with
  | unrelated _ _ hkinship =>
    unfold checkKinship at hkinship
    split at hkinship
    · cases hkinship
    · split_ifs at hkinship <;> cases hkinship

/-- The two ways in which a section is refused: at once, or by a merged section that is known and
may take over the bank. A new name is never refused by what the section asks for. -/
theorem add_of_conflict_cases (hr : r.Indexed) (h : (r.add f s).2 = some conflict) :
    ((∀ wish, conflict ≠ .unmet wish) ∧ (r.add f s).1 = r)
    ∨ ∃ i m wish, r.sections[i]? = some m ∧ m.name = s.name ∧ conflict = .unmet wish
      ∧ (r.add f s).1 = r.constrain i (m.takeBank (m.askedBank f s)) := by
  obtain ⟨conflict', hrefuses, hadd⟩ | ⟨i, m, r', hslot, hadmits, hjoin⟩ := add_cases hr f s
  · rw [hadd] at h ⊢
    obtain rfl := Option.some.inj h
    exact Or.inl ⟨hrefuses.ne_unmet, rfl⟩
  · obtain ⟨wish, hwish, hadd, -⟩ | ⟨-, hadd, -⟩ := hjoin
    · rw [hadd] at h
      obtain rfl := Option.some.inj h
      have hkeys := hslot.key_mem hr
      cases hslot with
      | known hposition hm _ =>
        refine Or.inr ⟨i, m, wish, hm, hadmits.name_eq, rfl, ?_⟩
        rw [add_of_known hadmits hposition hm, join_of_unmet hm hkeys hwish,
          Merged.refused_of_unmet hwish]
        rfl
      | fresh _ _ hempty =>
        rw [hempty, Merged.unmetWish?_emptyFor] at hwish
        cases hwish
    · rw [hadd] at h
      cases h

/-- A refused section leaves its bank behind: it asked for one, no bank was known of the merged
section of its name, and another of its wishes was not met. -/
structure LeavesBank (r : Registry) (s : Section) (conflict : Conflict) : Prop where
  exists_unmet : ∃ wish, conflict = .unmet wish
  bank_ne_none : s.bank ≠ none
  bankFixed_eq : ∀ m ∈ r.sections, m.name = s.name → m.bankFixed = false

/-- The merged section of the name decides whether a bank is left behind. -/
theorem leavesBank_unmet_iff (hr : r.Indexed) (hm : m ∈ r.sections) (hname : m.name = s.name)
    {wish : UnmetWish} : r.LeavesBank s (.unmet wish)
      ↔ m.bankFixed = false ∧ ∃ bank, m.askedBank f s = some bank := by
  rw [← Option.ne_none_iff_exists', Ne, Merged.askedBank_eq_none_iff]
  constructor
  · intro h
    exact ⟨h.bankFixed_eq m hm hname, h.bank_ne_none⟩
  · rintro ⟨hfloat, hbank⟩
    refine ⟨⟨wish, rfl⟩, hbank, fun n hn hn' => ?_⟩
    have hfind : r.find? s.name = some m := hr.find?_eq_some_iff.mpr ⟨hm, hname⟩
    rw [hr.find?_eq_some_iff.mpr ⟨hn, hn'⟩] at hfind
    rw [Option.some.inj hfind]
    exact hfloat

/-- **What a refused section changes.** Whatever was merged before, a section that is refused
leaves the registry as it was, exactly if it does not leave its bank behind; and a bank is all that
it leaves, in the merged section of its name. Members, their offsets and the bytes of all sections
are the same in any case. -/
theorem add_of_conflict {calls : List (ObjectFile × Section)} (hcalls : r = addAll {} calls)
    (h : (r.add f s).2 = some conflict) :
    ((r.add f s).1 = r ↔ ¬r.LeavesBank s conflict)
    ∧ (r.LeavesBank s conflict → ∃ i m bank, r.sections[i]? = some m ∧ m.name = s.name
      ∧ m.askedBank f s = some bank
      ∧ (r.add f s).1 = r.constrain i { m.toConstraints with bankFixed := true, bank })
    ∧ ∀ (g : ObjectFile) (t : Section),
      (r.add f s).1.member? g t = r.member? g t ∧ (r.add f s).1.bytes g t = r.bytes g t := by
  have hr : r.Indexed := hcalls ▸ indexed_addAll indexed_empty calls
  obtain ⟨hmet, hadd⟩ | ⟨i, m, wish, hm, hname, rfl, hadd⟩ := add_of_conflict_cases hr h
  · have hno : ¬r.LeavesBank s conflict := by
      intro hleaves
      obtain ⟨wish, hwish⟩ := hleaves.exists_unmet
      exact hmet wish hwish
    rw [hadd]
    exact ⟨iff_of_true rfl hno, fun hleaves => absurd hleaves hno, fun _ _ => ⟨rfl, rfl⟩⟩
  · rw [hadd, leavesBank_unmet_iff (f := f) hr (Array.mem_of_getElem? hm) hname]
    refine ⟨?_, ?_, fun g t => ⟨member?_constrain, bytes_constrain⟩⟩
    · rw [constrain_eq_self_iff hm, Constraints.takeBank_eq_self_iff]
    · rintro ⟨hfloat, bank, hbank⟩
      refine ⟨i, m, bank, hm, hname, hbank, ?_⟩
      rw [hbank, Constraints.takeBank_some hfloat]

/-! ## A bank that stays -/

/-- A section of WRAMX that overlays others of its name. -/
def bankedPart (id : UInt32) (org : Option UInt16) (bank : Option UInt32) : Section :=
  { id, name := [0x75], source := none, kind := .wramx, modifier := .union, size := 4, org, bank,
    align := 0, alignOffset := 0, data := [], patches := [] }

/-- The second section asks for another address than the first one, and for a bank. The third one
would go well with the first. -/
def bankedFile : ObjectFile :=
  { name := [0x66], index := 0,
    sections := [bankedPart 0 (some 0xD000) none, bankedPart 1 (some 0xD100) (some 2),
      bankedPart 2 none (some 3)] }

/-- What the first section is merged into. -/
def bankedMerged : Merged :=
  { orgFixed := true, org := 0xD000, id := 0, name := [0x75], kind := .wramx,
    modifier := .union, size := 4,
    members := #[⟨bankedFile, bankedPart 0 (some 0xD000) none, 0, 0xD000, 0, false⟩] }

/-- The first section is merged. -/
def bankedRegistry : Registry :=
  addAll {} [(bankedFile, bankedPart 0 (some 0xD000) none)]

theorem sections_bankedRegistry : bankedRegistry.sections = #[bankedMerged] := by
  cbv

theorem add_bankedPart :
    (bankedRegistry.add bankedFile (bankedPart 1 (some 0xD100) (some 2))).2
      = some (.unmet (.orgDiffers 0xD100 0xD000)) := by
  cbv

/-- The second section is refused for its address and leaves its bank behind. The third one is then
refused for this bank, although it goes well with the only member. -/
theorem add_of_conflict_bankedPart :
    (bankedRegistry.add bankedFile (bankedPart 1 (some 0xD100) (some 2))).1
        = bankedRegistry.constrain 0 { bankedMerged.toConstraints with bankFixed := true, bank := 2 }
      ∧ (bankedRegistry.add bankedFile (bankedPart 1 (some 0xD100) (some 2))).1 ≠ bankedRegistry
      ∧ ((bankedRegistry.add bankedFile (bankedPart 1 (some 0xD100) (some 2))).1.add bankedFile
        (bankedPart 2 none (some 3))).2 = some (.unmet (.bankDiffers 3 2))
      ∧ (bankedRegistry.add bankedFile (bankedPart 2 none (some 3))).2 = none := by
  have hleaves : bankedRegistry.LeavesBank (bankedPart 1 (some 0xD100) (some 2))
      (.unmet (.orgDiffers 0xD100 0xD000)) := by
    refine ⟨⟨_, rfl⟩, nofun, fun m hm _ => ?_⟩
    rw [sections_bankedRegistry, Array.mem_singleton] at hm
    rw [hm]
    rfl
  obtain ⟨hsame, hbank, -⟩ := add_of_conflict (r := bankedRegistry) rfl add_bankedPart
  obtain ⟨i, m, bank, hm, -, hasked, hadd⟩ := hbank hleaves
  -- there is only one merged section
  obtain ⟨rfl, rfl⟩ : i = 0 ∧ bankedMerged = m := by
    rw [sections_bankedRegistry, Array.getElem?_eq_some_iff] at hm
    obtain ⟨hi, hm⟩ := hm
    obtain rfl : i = 0 := Nat.lt_one_iff.mp hi
    exact ⟨rfl, hm⟩
  obtain rfl : 2 = bank := Option.some.inj hasked
  exact ⟨hadd, fun heq => hsame.mp heq hleaves, by cbv, by cbv⟩

/-- That a refused section leaves no trace is too much to ask: the second section leaves its
bank. -/
theorem not_forall_unchanged :
    ¬∀ (calls : List (ObjectFile × Section)) (f : ObjectFile) (s : Section) (conflict : Conflict),
      ((addAll {} calls).add f s).2 = some conflict →
      ((addAll {} calls).add f s).1.sections = (addAll {} calls).sections
        ∧ ∀ (g : ObjectFile) (t : Section),
          (((addAll {} calls).add f s).1.member? g t).map Member.offset
            = ((addAll {} calls).member? g t).map Member.offset
          ∧ ((addAll {} calls).add f s).1.bytes g t = (addAll {} calls).bytes g t := by
  intro h
  obtain ⟨hsame, -⟩ := h _ bankedFile (bankedPart 1 (some 0xD100) (some 2)) _ add_bankedPart
  have hbefore : bankedRegistry.sections.map (·.bankFixed) = #[false] := by cbv
  have hafter : (bankedRegistry.add bankedFile
      (bankedPart 1 (some 0xD100) (some 2))).1.sections.map (·.bankFixed) = #[true] := by cbv
  have hflags : #[true] = #[false] := by
    rw [← hafter, ← hbefore]
    exact congrArg (fun sections => sections.map (·.bankFixed)) hsame
  exact absurd hflags (by decide)

end Registry

end BankedLinker
