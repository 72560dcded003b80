import BankedLinker.Proofs.Image
import Mathlib.Data.List.Nodup

/-!
# From object files to the image

Puts the stages together: if a link run of decoded files succeeds, the image holds the bytes of
every ROM section at the section's place, with the section's own patches applied to them, and
padding elsewhere.

* `nodup_callKeys`: the sections of decoded files can be told apart;
* `Registry.houses_of_collected`: placing collected sections gives each of them a window;
* `Linker.Laid` is the state of the registry after a successful run, `Linker.laid_of_link` finds it
  there;
* `Linker.Covers` says where the bytes of a section are in the image, and `Linker.layout_of_link` is
  the result.
-/

namespace BankedLinker

/-! ## The sections of decoded files -/

/-- Sections of well-formed files with distinct numbers have distinct keys. -/
theorem nodup_callKeys {files : List ObjectFile} (hfiles : ∀ f ∈ files, f.WellFormed)
    (hindex : (files.map ObjectFile.index).Nodup) : ((callsOf files).map callKey).Nodup := by
  induction files with
  | nil => exact List.nodup_nil
  | cons f rest ih =>
    rw [List.map_cons, List.nodup_cons] at hindex
    have hrest := ih (fun g hg => hfiles g (List.mem_cons_of_mem _ hg)) hindex.2
    have hcalls : (callsOf (f :: rest)).map callKey
        = (f.sections.map fun s => callKey (f, s)) ++ (callsOf rest).map callKey := by
      simp [callsOf, Function.comp_def]
    rw [hcalls, List.nodup_append]
    refine ⟨?_, hrest, ?_⟩
    · -- within a file the numbers of sections are their positions
      rw [List.nodup_iff_getElem?_ne_getElem?]
      intro i j hij hj heq
      rw [List.getElem?_map, List.getElem?_map] at heq
      rw [List.length_map] at hj
      obtain ⟨t, ht⟩ : ∃ t, f.sections[j]? = some t := ⟨_, List.getElem?_eq_getElem hj⟩
      obtain ⟨s, hs⟩ : ∃ s, f.sections[i]? = some s :=
        ⟨_, List.getElem?_eq_getElem (hij.trans hj)⟩
      rw [hs, ht, Option.map_some, Option.map_some, Option.some.injEq] at heq
      have hwell := hfiles f (List.mem_cons_self ..)
      have hid : s.id = t.id := congrArg SectionKey.id heq
      have hsi := hwell.id_eq hs
      have htj := hwell.id_eq ht
      rw [hid, htj] at hsi
      omega
    · -- sections of different files differ by the number of their file
      intro key hkey key' hkey' heq
      obtain ⟨s, -, rfl⟩ := List.mem_map.mp hkey
      obtain ⟨⟨g, t⟩, hcall, rfl⟩ := List.mem_map.mp hkey'
      have hg := (mem_callsOf.mp hcall).1
      have hfg : f.index = g.index := congrArg SectionKey.file heq
      exact hindex.1 (hfg ▸ List.mem_map_of_mem hg)

theorem identified_of_nodup {calls : List (ObjectFile × Section)}
    (hkeys : (calls.map callKey).Nodup) : Identified calls :=
  fun _ hcall _ hother => List.inj_on_of_nodup_map hkeys hcall hother

/-! ## Windows after placing -/

/-- A member is found by its key. -/
theorem Merged.Gathers.member?_eq {m : Merged} {calls : List (ObjectFile × Section)}
    (hm : m.Gathers calls) (hkeys : (calls.map callKey).Nodup) {x : Member}
    (hx : x ∈ m.members) : m.member? x.key = some x := by
  -- two members of one key would stand for one section
  have hcalls : (m.members.toList.map Member.call).Nodup := by
    rw [hm.calls_eq]
    exact hkeys.of_map.filter _
  cases hfind : m.member? x.key with
  | none =>
    have hnone := Array.find?_eq_none.mp hfind x hx
    simp at hnone
  | some y =>
    have hy : y ∈ m.members := Array.mem_of_find?_eq_some hfind
    have hkey : y.key = x.key := by simpa using Array.find?_some hfind
    have hcall : y.call = x.call :=
      identified_of_nodup hkeys _ (hm.call_mem hy).1 _ (hm.call_mem hx).1 hkey
    exact congrArg some (List.inj_on_of_nodup_map hcalls (Array.mem_toList_iff.mpr hy)
      (Array.mem_toList_iff.mpr hx) hcall)

/-- The members of a ROM section supply as many bytes as they are large. -/
theorem Merged.Gathers.length_data {m : Merged} {calls : List (ObjectFile × Section)}
    (hm : m.Gathers calls) (hwell : ∀ call ∈ calls, call.2.WellFormed)
    (hdata : m.kind.hasData = true) :
    ∀ x ∈ m.members.toList, x.content.data.length = x.content.size.toNat := by
  intro x hx
  have hmem := Array.mem_toList_iff.mp hx
  have hwf : x.content.WellFormed := hwell _ (hm.call_mem hmem).1
  refine hwf.length_data ?_
  rw [hm.kind_eq x hmem]
  exact hdata

theorem Merged.member?_place (m : Merged) (org : UInt16) (bank : UInt32) (key : SectionKey) :
    (m.place org bank).member? key = (m.member? key).map (·.place org bank) := by
  unfold Merged.member? Merged.place
  rw [Array.find?_map]
  rfl

namespace Registry

variable {calls : List (ObjectFile × Section)} {r r' : Registry}

/-- The second registry is the first one with every merged section placed somewhere. -/
structure Places (r r' : Registry) : Prop where
  positions_eq : r'.positions = r.positions
  section_of : ∀ {i : ℕ} {m' : Merged}, r'.sections[i]? = some m' →
    ∃ m org bank, r.sections[i]? = some m ∧ m' = m.place org bank
  placed_of : ∀ {i : ℕ} {m : Merged}, r.sections[i]? = some m →
    ∃ org bank, r'.sections[i]? = some (m.place org bank)

section Placed

variable (hr : r.Collected calls) (hkeys : (calls.map callKey).Nodup) (hplaces : r.Places r')

include hr hkeys hplaces

/-- Members of collected sections have windows, wherever they are placed. -/
theorem window_of_collected {i : ℕ} {m : Merged} {org : UInt16} {bank : UInt32}
    (hm : r.sections[i]? = some m) (hm' : r'.sections[i]? = some (m.place org bank)) {x : Member}
    (hx : x ∈ m.members) :
    r'.Window x.file x.content i (m.place org bank) (x.place org bank) := by
  have hgathers := hr.gathers m (Array.mem_of_getElem? hm)
  constructor
  · rw [hplaces.positions_eq, (hgathers.call_mem hx).2]
    exact hr.indexed.position_eq hm
  · exact hm'
  · rw [Merged.member?_place, show callKey (x.file, x.content) = x.key from rfl,
      hgathers.member?_eq hkeys hx, Option.map_some]
  · rfl
  · exact (hgathers.kind_eq x hx).symm

/-- Placing collected sections gives each of them a window. -/
theorem houses_of_collected : r'.Houses calls := by
  refine ⟨identified_of_nodup hkeys, ?_, ?_, ?_⟩
  · intro m' hm' hdata
    obtain ⟨i, hi⟩ := Array.mem_iff_getElem?.mp hm'
    obtain ⟨m, org, bank, hm, rfl⟩ := hplaces.section_of hi
    have hconsecutive := (hr.gathers m (Array.mem_of_getElem? hm)).consecutive hdata
    show Consecutive 0 (m.members.map (·.place org bank)).toList m.size.toNat
    rw [Array.toList_map]
    exact hconsecutive.map (fun _ => rfl) fun _ => rfl
  · intro f s hcall
    obtain ⟨m, hm, hname⟩ := hr.present (f, s) hcall
    obtain ⟨i, hi⟩ := Array.mem_iff_getElem?.mp hm
    obtain ⟨x, hx, hxcall⟩ := (hr.gathers m hm).exists_member hcall hname.symm
    obtain ⟨org, bank, hi'⟩ := hplaces.placed_of hi
    have hw := window_of_collected hr hkeys hplaces hi hi' hx
    obtain ⟨rfl, rfl⟩ := Prod.mk.inj hxcall
    exact ⟨i, _, _, hw⟩
  · intro i m' hm' x' hx'
    obtain ⟨m, org, bank, hm, rfl⟩ := hplaces.section_of hm'
    obtain ⟨x, hx, rfl⟩ := Array.mem_map.mp hx'
    have hgathers := hr.gathers m (Array.mem_of_getElem? hm)
    exact ⟨(hgathers.call_mem hx).1, window_of_collected hr hkeys hplaces (x := x) hm hm' hx⟩

omit hkeys in
/-- The merged bytes of collected sections are as many as the merged sections are large. -/
theorem filled_of_collected (hwell : ∀ call ∈ calls, call.2.WellFormed) : r'.Filled := by
  intro m' hm' hdata
  obtain ⟨i, hi⟩ := Array.mem_iff_getElem?.mp hm'
  obtain ⟨m, org, bank, hm, rfl⟩ := hplaces.section_of hi
  have hgathers := hr.gathers m (Array.mem_of_getElem? hm)
  have hlengths : (m.members.toList.map fun x => x.content.data.length)
      = m.members.toList.map fun x => x.content.size.toNat :=
    List.map_congr_left (hgathers.length_data hwell hdata)
  have hsize := (hgathers.consecutive hdata).eq_add_sum
  show m.data.size = m.size.toNat
  rw [hsize, ← Array.length_toList, hgathers.data_eq hdata, List.length_flatMap, hlengths,
    Nat.zero_add]

/-- Before patches are applied a section holds the bytes that its file supplied. -/
theorem byteAt_of_collected (hwell : ∀ call ∈ calls, call.2.WellFormed) {f : ObjectFile}
    {s : Section} (hcall : (f, s) ∈ calls) (hdata : s.kind.hasData = true) {k : ℕ}
    (hk : k < s.size.toNat) : r'.byteAt f s k = s.data[k]? := by
  obtain ⟨m, hm, hname⟩ := hr.present (f, s) hcall
  obtain ⟨i, hi⟩ := Array.mem_iff_getElem?.mp hm
  have hgathers := hr.gathers m hm
  obtain ⟨x, hx, hxcall⟩ := hgathers.exists_member hcall hname.symm
  obtain ⟨org, bank, hi'⟩ := hplaces.placed_of hi
  have hw := window_of_collected hr hkeys hplaces hi hi' hx
  obtain ⟨rfl, rfl⟩ := Prod.mk.inj hxcall
  have hmdata : m.kind.hasData = true := by
    rw [← hgathers.kind_eq x hx]
    exact hdata
  have hbyte := (hgathers.consecutive hmdata).getElem?_flatMap
    (hgathers.length_data hwell hmdata) (Array.mem_toList_iff.mpr hx) hk
  rw [← hgathers.data_eq hmdata, Nat.sub_zero, Array.getElem?_toList] at hbyte
  rw [hw.byteAt_eq]
  exact hbyte

end Placed

end Registry

namespace Linker

variable {lk lk' : Linker} {files : List ObjectFile}

/-! ## The registry after a run -/

/-- The registry after a run: every section of the files has its window, merged sections lie in
their banks and do not overlap, and members lie where their merged sections put them. -/
structure Laid (files : List ObjectFile) (lk : Linker) : Prop where
  houses : lk.registry.Houses (callsOf files)
  seated : ∀ m ∈ lk.registry.sections, Rom.Seated lk.map m
  placed : ∀ m ∈ lk.registry.sections, m.placed = true
  moved : ∀ m ∈ lk.registry.sections, ∀ x ∈ m.members,
    x.org = m.org + x.offset.toUInt16 ∧ x.bank = m.bank
  apart : ∀ {i j : ℕ} {m n : Merged}, i ≠ j → lk.registry.sections[i]? = some m →
    lk.registry.sections[j]? = some n → m.size ≠ 0 → n.size ≠ 0 → m.kind = n.kind →
    m.bank = n.bank → Apart m n

/-- Placing without a problem places every merged section. -/
theorem places_of_clean (hlk : lk.Assignable) (hclean : lk.assign.Clean) :
    lk.registry.Places lk.assign.registry where
  positions_eq := (foldl_settle_frame _ lk).2.2.2
  section_of := by
    intro i m' hm'
    obtain ⟨m, hm⟩ := exists_section_of_assigned hm'
    obtain ⟨before, loc, hplaced, -⟩ := placed_of_clean hlk hclean hm
    exact ⟨m, loc.org, loc.bank, hm, Option.some.inj (hm'.symm.trans hplaced)⟩
  placed_of := by
    intro i m hm
    obtain ⟨before, loc, hplaced, -⟩ := placed_of_clean hlk hclean hm
    exact ⟨loc.org, loc.bank, hplaced⟩

section Laid

variable (hlk : lk.Assignable) (hclean : lk.assign.Clean)
  (houtline : lk'.registry.outline = lk.assign.registry.outline)

include hlk hclean houtline

/-- A merged section of the result was placed by the assignment, bytes apart. -/
theorem section_of_result {i : ℕ} {m' : Merged} (hm' : lk'.registry.sections[i]? = some m') :
    ∃ m before loc data tail, lk.registry.sections[i]? = some m
      ∧ lk.assign.registry.sections[i]? = some (m.place loc.org loc.bank)
      ∧ Placement.Settled lk.map before m loc
      ∧ m' = { m.place loc.org loc.bank with data, tail } := by
  obtain ⟨n, data, tail, hn, rfl⟩ := Registry.section_of_outline_eq houtline hm'
  obtain ⟨m, hm⟩ := exists_section_of_assigned hn
  obtain ⟨before, loc, hplaced, hsettled⟩ := placed_of_clean hlk hclean hm
  obtain rfl := Option.some.inj (hn.symm.trans hplaced)
  exact ⟨m, before, loc, data, tail, hm, hplaced, hsettled, rfl⟩

theorem laid_of_outline_eq (hcollected : lk.registry.Collected (callsOf files))
    (hkeys : ((callsOf files).map callKey).Nodup) (hmap : lk'.map = lk.map)
    (hfilled : lk'.registry.Filled) : lk'.Laid files := by
  have hplaces := places_of_clean hlk hclean
  refine ⟨(Registry.houses_of_collected hcollected hkeys hplaces).of_outline_eq houtline,
    ?_, ?_, ?_, ?_⟩
  · intro m' hm'
    obtain ⟨i, hi⟩ := Array.mem_iff_getElem?.mp hm'
    have hdata := hfilled m' hm'
    obtain ⟨m, before, loc, data, tail, -, -, hsettled, rfl⟩ :=
      section_of_result hlk hclean houtline hi
    rw [hmap]
    exact ⟨hsettled.hasBank, hsettled.start_le, hsettled.stop_le, hdata⟩
  · intro m' hm'
    obtain ⟨i, hi⟩ := Array.mem_iff_getElem?.mp hm'
    obtain ⟨m, before, loc, data, tail, -, -, -, rfl⟩ := section_of_result hlk hclean houtline hi
    rfl
  · intro m' hm' x' hx'
    obtain ⟨i, hi⟩ := Array.mem_iff_getElem?.mp hm'
    obtain ⟨m, before, loc, data, tail, -, -, -, rfl⟩ := section_of_result hlk hclean houtline hi
    obtain ⟨x, -, rfl⟩ := Array.mem_map.mp hx'
    exact ⟨rfl, rfl⟩
  · intro i j m' n' hij hm' hn'
    obtain ⟨m, before, loc, data, tail, -, hm, -, rfl⟩ := section_of_result hlk hclean houtline hm'
    obtain ⟨n, before', loc', data', tail', -, hn, -, rfl⟩ :=
      section_of_result hlk hclean houtline hn'
    exact apart_of_placed hlk (fun _ h => h) (m := m.place loc.org loc.bank)
      (n := n.place loc'.org loc'.bank) hij hm rfl hn rfl

end Laid

/-! ## Sections in the image -/

/-- The byte at index `i` of a ROM section of a file stands at position `k` of the image. -/
structure Covers (files : List ObjectFile) (lk : Linker) (f : ObjectFile) (s : Section)
    (i k : ℕ) : Prop where
  file_mem : f ∈ files
  section_mem : s ∈ f.sections
  hasData : s.kind.hasData = true
  lt_size : i < s.size.toNat
  position_eq : k
    = (lk.map.romOffset s.kind (lk.registry.bank f s) (lk.registry.org f s)).toNat + i

namespace Laid

variable {f g : ObjectFile} {s t : Section} {i j k : ℕ} {m n : Merged} {x : Member}

/-- A section of a file stands in the image where its merged section puts it. -/
theorem position_eq (h : lk.Laid files) (hw : lk.registry.Window f s j m x)
    (hdata : s.kind.hasData = true) (hi : i < s.size.toNat) :
    (lk.map.romOffset s.kind (lk.registry.bank f s) (lk.registry.org f s)).toNat
      = Rom.position lk.map m + x.offset.toNat := by
  have hseated := h.seated m hw.mem_sections
  have hmdata := hw.hasData_eq.trans hdata
  obtain ⟨hxorg, hxbank⟩ := h.moved m hw.mem_sections x (Array.mem_toList_iff.mp hw.mem_members)
  have horg : lk.registry.org f s = m.org + x.offset.toUInt16 := by
    unfold Registry.org
    rw [hw.member?_eq]
    exact hxorg
  have hbank : lk.registry.bank f s = m.bank := by
    unfold Registry.bank
    rw [hw.member?_eq]
    exact hxbank
  -- the address of the member is still inside of the address space
  have hstop := hw.stop_le h.houses hdata
  have hstart := hseated.start_le
  have hend := hseated.stop_le
  have hbounds := (lk.map.region_bounds m.kind).1
  have haddress : (m.org + x.offset.toUInt16).toNat = m.org.toNat + x.offset.toNat := by
    rw [UInt16.toNat_add, UInt32.toNat_toUInt16]
    omega
  rw [horg, hbank, ← hw.kind_eq, Rom.toNat_romOffset hmdata hseated.hasBank (by omega),
    hseated.position_eq hmdata, haddress]
  omega

/-- A position that a section of a file covers is occupied by its merged section. -/
theorem exists_window (h : lk.Laid files) (hcovers : lk.Covers files f s i k) :
    ∃ j m x, lk.registry.Window f s j m x
      ∧ k = Rom.position lk.map m + (x.offset.toNat + i) ∧ Rom.Occupies lk.map m k := by
  obtain ⟨j, m, x, hw⟩ :=
    h.houses.window f s (mem_callsOf.mpr ⟨hcovers.file_mem, hcovers.section_mem⟩)
  have hi := hcovers.lt_size
  have hmdata := hw.hasData_eq.trans hcovers.hasData
  have hk : k = Rom.position lk.map m + (x.offset.toNat + i) := by
    rw [hcovers.position_eq, h.position_eq hw hcovers.hasData hi, Nat.add_assoc]
  have hstop := hw.stop_le h.houses hcovers.hasData
  have hsize := (h.seated m hw.mem_sections).data_size hmdata
  have hstored : Rom.isStored m = true := by
    unfold Rom.isStored
    rw [hmdata, h.placed m hw.mem_sections]
    rfl
  exact ⟨j, m, x, hw, hk, hstored, by omega, by omega⟩

/-- Different merged sections occupy different positions. -/
theorem not_occupies_both (h : lk.Laid files) {i j : ℕ} (hij : i ≠ j)
    (hm : lk.registry.sections[i]? = some m) (hn : lk.registry.sections[j]? = some n) (k : ℕ) :
    ¬(Rom.Occupies lk.map m k ∧ Rom.Occupies lk.map n k) :=
  Rom.Seated.not_occupies_both (h.seated m (Array.mem_of_getElem? hm))
    (h.seated n (Array.mem_of_getElem? hn)) (h.apart hij hm hn) k

theorem pairwise_sections (h : lk.Laid files) :
    lk.registry.sections.toList.Pairwise
      fun m n => ∀ k, ¬(Rom.Occupies lk.map m k ∧ Rom.Occupies lk.map n k) := by
  rw [List.pairwise_iff_getElem]
  intro i j hi hj hij
  refine h.not_occupies_both (Nat.ne_of_lt hij) ?_ ?_
  · rw [← Array.getElem?_toList]
    exact List.getElem?_eq_getElem hi
  · rw [← Array.getElem?_toList]
    exact List.getElem?_eq_getElem hj

/-- No position is covered by two sections. -/
theorem eq_of_covers (h : lk.Laid files) (hs : lk.Covers files f s i k)
    (ht : lk.Covers files g t j k) : f = g ∧ s = t := by
  obtain ⟨a, m, x, hw, hk, hocc⟩ := h.exists_window hs
  obtain ⟨b, n, y, hw', hk', hocc'⟩ := h.exists_window ht
  by_cases hab : a = b
  · -- members of one merged section lie one after the other
    subst hab
    obtain rfl : m = n := Option.some.inj (hw.section_eq.symm.trans hw'.section_eq)
    exact Prod.mk.inj (hw.call_eq_of_offset_eq hw' h.houses hs.hasData hs.lt_size ht.lt_size
      (by omega))
  · exact absurd ⟨hocc, hocc'⟩ (h.not_occupies_both hab hw.section_eq hw'.section_eq k)

/-- An occupied position is covered by a section of a file. -/
theorem exists_covers (h : lk.Laid files) (hm : m ∈ lk.registry.sections)
    (hocc : Rom.Occupies lk.map m k) : ∃ f s i, lk.Covers files f s i k := by
  obtain ⟨hstored, hlow, hhigh⟩ := hocc
  have hdata := Rom.hasData_of_isStored hstored
  have hsize := (h.seated m hm).data_size hdata
  obtain ⟨a, ha⟩ := Array.mem_iff_getElem?.mp hm
  obtain ⟨x, hx, hholds⟩ := (h.houses.consecutive m hm hdata).exists_holds
    (k := k - Rom.position lk.map m) (Nat.zero_le _) (by omega)
  obtain ⟨hcall, hw⟩ := h.houses.resident ha x (Array.mem_toList_iff.mp hx)
  obtain ⟨hfile, hsection⟩ := mem_callsOf.mp hcall
  have hxdata : x.content.kind.hasData = true := hw.hasData_eq.symm.trans hdata
  unfold Member.Holds at hholds
  refine ⟨x.file, x.content, k - Rom.position lk.map m - x.offset.toNat, hfile, hsection, hxdata,
    by omega, ?_⟩
  rw [h.position_eq hw hxdata (i := k - Rom.position lk.map m - x.offset.toNat) (by omega)]
  omega

end Laid

/-! ## A successful run -/

section Link

variable {map : MemoryMap} {warnings : WarningOptions} {pad : UInt8}
  {cancellation : Cancellation} {looks : ℕ} {program : Program}
  (hlink : (start map warnings files).link pad cancellation looks = (lk, .ok program))

include hlink

/-- A successful run has merged all sections, placed them all and applied all patches. -/
theorem run_of_link : ∃ collected : Linker,
    collected.registry = Registry.addAll {} (callsOf files)
    ∧ Registry.AllMerged {} (callsOf files) ∧ collected.map = map ∧ collected.assign.Clean
    ∧ lk.outline = collected.assign.outline
    ∧ collected.assign.Patched collected.assign.registry (jobsOf (callsOf files)) lk.registry
    ∧ program.sections = lk.registry.sections.toList
    ∧ program.image = Rom.image map pad lk.registry.sections.toList := by
  obtain ⟨collected, placed, patched, checked, hclean, hnoted, hclean', hnoted', hpatch, hcheck,
    hclean'', hnoted'', hsections, himage⟩ := link_eq_ok hlink
  obtain ⟨-, hmerged, table, heq⟩ := merged_of_clean hclean
  obtain ⟨hregistry, hmap, hfiles⟩ : collected.registry = Registry.addAll {} (callsOf files)
      ∧ collected.map = map ∧ collected.files = files := by
    obtain ⟨⟨d, rfl⟩, -⟩ := hnoted
    rw [heq]
    exact ⟨rfl, rfl, rfl⟩
  obtain ⟨hmap', hfiles', -, -⟩ :=
    foldl_settle_frame (Placement.assign collected.map collected.sections) collected
  -- placing keeps the files, so the patches are those of the files that were given
  have hplaced : placed.files = files := by
    obtain ⟨⟨d, rfl⟩, -⟩ := hnoted'
    exact hfiles'.trans hfiles
  have hnotedc := noted_of_forFiles hcheck
  obtain ⟨-, houtline, hpatched⟩ := patched_of_forFiles hpatch (hnotedc.2 hclean'')
  rw [hplaced, hnoted'.registry_eq] at hpatched
  have hresult : lk.registry = patched.registry :=
    hnoted''.registry_eq.trans hnotedc.registry_eq
  have houtline' : lk.outline = patched.outline :=
    hnoted''.outline_eq.trans hnotedc.outline_eq
  refine ⟨collected, hregistry, hmerged, hmap, hclean', ?_, ?_, ?_, ?_⟩
  · rw [houtline', houtline, hnoted'.outline_eq]
  · rw [hresult]
    exact hpatched.of_outline_eq hnoted'.outline_eq.symm
  · rw [hsections, sections, hnoted''.registry_eq]
  · have hchecked : checked.outline.map = collected.assign.outline.map := by
      rw [hnotedc.outline_eq, houtline, hnoted'.outline_eq]
    have hmapc : checked.map = map := hchecked.trans (hmap'.trans hmap)
    rw [himage, hmapc, sections, hnoted''.registry_eq]

variable (hfiles : ∀ f ∈ files, f.WellFormed) (hindex : (files.map ObjectFile.index).Nodup)
  (htotal : totalSize (callsOf files) < 2 ^ 32)

include hfiles hindex htotal

/-- What a successful run leaves behind: the registry is laid out, and the bytes of each section
are those of its file with its own patches applied. -/
theorem laid_of_link :
    lk.Laid files ∧ lk.map = map
      ∧ ∀ f s, (f, s) ∈ callsOf files → s.kind.hasData = true → ∀ k < s.size.toNat,
        lk.ByteAfter f k s.data[k]? s.patches (lk.registry.byteAt f s k) := by
  have hwell : ∀ call ∈ callsOf files, call.2.WellFormed := by
    rintro ⟨f, s⟩ hcall
    obtain ⟨hf, hs⟩ := mem_callsOf.mp hcall
    exact (hfiles f hf).wellFormed s hs
  have hkeys := nodup_callKeys hfiles hindex
  obtain ⟨collected, hregistry, hmerged, hmap, hclean, houtline, hpatched, -, -⟩ :=
    run_of_link hlink
  have hcollected : collected.registry.Collected (callsOf files) := by
    rw [hregistry]
    exact Registry.collected_addAll hmerged hwell hkeys htotal
  have hassignable := assignable_of_addAll hregistry fun call hcall => (hwell call hcall).align_le
  have hplaces := places_of_clean hassignable hclean
  have hhouses := Registry.houses_of_collected hcollected hkeys hplaces
  have hfilled := Registry.filled_of_collected hcollected hplaces hwell
  have hjobs := jobsInside_jobsOf hwell
  have hmap' : lk.map = collected.map := by
    have hlk : lk.outline.map = collected.assign.outline.map := by rw [houtline]
    exact hlk.trans (foldl_settle_frame _ collected).1
  refine ⟨?_, hmap'.trans hmap, ?_⟩
  · exact laid_of_outline_eq hassignable hclean hpatched.outline_eq hcollected hkeys hmap'
      (hpatched.filled hhouses hfilled hjobs)
  · intro f s hcall hdata k hk
    have hbyte := hpatched.byteAt hhouses hfilled hjobs hcall hk
    rw [patchesFor_jobsOf hkeys hcall,
      Registry.byteAt_of_collected hcollected hkeys hplaces hwell hcall hdata hk] at hbyte
    exact hbyte.of_outline_eq houtline

end Link

/-- Where everything is in the image of a successful run: no position is covered by two sections, the
image consists of ROM0 and the ROMX banks up to the highest one in use, and it has the bytes that
patching left to the sections, with padding elsewhere. -/
theorem layout_of_link {map : MemoryMap} {warnings : WarningOptions} {pad : UInt8}
    {cancellation : Cancellation} {looks : ℕ} {program : Program}
    (hdecoded : ∀ f ∈ files, ∃ name input rest,
      Object.decode name f.index input = .ok (f, rest))
    (hindex : (files.map ObjectFile.index).Nodup)
    (htotal : totalSize (callsOf files) < 2 ^ 32)
    (hlink : (start map warnings files).link pad cancellation looks = (lk, .ok program)) :
    (∀ f s i g t j k, lk.Covers files f s i k → lk.Covers files g t j k → f = g ∧ s = t)
    ∧ (∃ total, Rom.IsBankTotal map program.sections total
      ∧ program.image.size
        = (map.region .rom0).size.toNat + total * (map.region .romx).size.toNat)
    ∧ (∀ f s i k, lk.Covers files f s i k →
      ∃ b, program.image[k]? = some b ∧ lk.ByteAfter f i s.data[i]? s.patches (some b))
    ∧ ∀ k < program.image.size, (∀ f s i, ¬lk.Covers files f s i k) →
      program.image[k]? = some pad := by
  have hfiles : ∀ f ∈ files, f.WellFormed := Object.wellFormed_of_decoded hdecoded
  obtain ⟨hlaid, hmap, hbytes⟩ := laid_of_link hlink hfiles hindex htotal
  obtain ⟨-, -, -, -, -, -, -, hsections, himage⟩ := run_of_link hlink
  have hseated : ∀ m ∈ lk.registry.sections.toList, Rom.Seated map m := by
    intro m hm
    rw [← hmap]
    exact hlaid.seated m (Array.mem_toList_iff.mp hm)
  have hbank : ∀ m ∈ lk.registry.sections.toList, m.kind = .romx → m.placed = true →
      (map.region .romx).HasBank m.bank := by
    intro m hm hkind _
    have hbank := (hseated m hm).hasBank
    rwa [hkind] at hbank
  have hapart := hlaid.pairwise_sections
  rw [hmap] at hapart
  rw [hsections, himage, Rom.size_image]
  refine ⟨fun f s i g t j k => hlaid.eq_of_covers, ?_, ?_, ?_⟩
  · exact ⟨_, Rom.isBankTotal_bankCount hbank, Rom.toNat_size hbank⟩
  · intro f s i k hcovers
    obtain ⟨j, m, x, hw, hk, hocc⟩ := hlaid.exists_window hcovers
    have hcall := mem_callsOf.mpr ⟨hcovers.file_mem, hcovers.section_mem⟩
    have hbyte := hbytes f s hcall hcovers.hasData i hcovers.lt_size
    rw [hmap] at hocc hk
    rw [Rom.getElem?_image_of_occupied hseated hapart (Array.mem_toList_iff.mpr hw.mem_sections)
      hocc]
    -- in the bytes of the merged section the byte stands at the offset of the member
    have hindex : k - Rom.position map m = x.offset.toNat + i := by omega
    have hlt : x.offset.toNat + i < m.data.size := by
      have hhigh := hocc.2.2
      omega
    rw [hw.byteAt_eq, Array.getElem?_eq_getElem hlt] at hbyte
    rw [hindex, Array.getElem?_eq_getElem hlt]
    exact ⟨_, rfl, hbyte⟩
  · intro k hk huncovered
    -- a merged section that occupied the position would have a member there
    refine Rom.getElem?_image_of_not_occupied hseated hk fun m hm hocc => ?_
    rw [← hmap] at hocc
    obtain ⟨f, s, i, hcovers⟩ := hlaid.exists_covers (Array.mem_toList_iff.mp hm) hocc
    exact huncovered f s i hcovers

end Linker

end BankedLinker
