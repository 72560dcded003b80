import BankedLinker.Object.Encode
import BankedLinker.Proofs.Decoding

/-!
# What a reader takes off the input

A reader succeeds on an input exactly when the input starts with the bytes that are written for the
result. This file says so for the fields of the object format, and says what that comes to for each
way of putting readers together. All statements are equivalences, so rewriting with them turns a
successful run of a composed reader into the fields that it took and the checks that they passed.

* `Word.ofBytes_toBytes` and `Word.toBytes_ofBytes`: words and their bytes;
* `Object.Scan.word_eq_some_iff` and its neighbours: one for each kind of field;
* `Object.Decoder.bind_eq_ok_iff` and its neighbours: one for each combinator;
* `Object.Decoder.many_eq_ok_iff`: a table of items, from what one item looks like.
-/

namespace BankedLinker

/-! ## Words -/

namespace Word

theorem ofBytes_toBytes (w : UInt32) :
    ofBytes w.toUInt8 (w >>> 8).toUInt8 (w >>> 16).toUInt8 (w >>> 24).toUInt8 = w := by
  unfold ofBytes
  apply UInt32.toBitVec_inj.mp
  ext i hi
  -- bit `i` comes from the byte that it lies in
  simp [-UInt32.toUInt32_toUInt8, -UInt8.toUInt32_shiftLeft]
  grind

theorem toBytes_ofBytes (b₀ b₁ b₂ b₃ : UInt8) :
    toBytes (ofBytes b₀ b₁ b₂ b₃) = [b₀, b₁, b₂, b₃] := by
  unfold toBytes ofBytes
  simp only [List.cons.injEq, and_true]
  refine ⟨?_, ?_, ?_, ?_⟩ <;> apply UInt8.toBitVec_inj.mp <;> ext i hi <;> simp <;> grind

/-- A word is determined by its bytes. -/
theorem toBytes_injective {v w : UInt32} (h : toBytes v = toBytes w) : v = w := by
  obtain ⟨h₀, h₁, h₂, h₃, -⟩ : v.toUInt8 = w.toUInt8 ∧ (v >>> 8).toUInt8 = (w >>> 8).toUInt8
      ∧ (v >>> 16).toUInt8 = (w >>> 16).toUInt8 ∧ (v >>> 24).toUInt8 = (w >>> 24).toUInt8
      ∧ True := by
    simpa [toBytes] using h
  rw [← ofBytes_toBytes v, ← ofBytes_toBytes w, h₀, h₁, h₂, h₃]

end Word

namespace Object

/-! ## Fields -/

namespace Scan

variable {α β : Type} {input rest : Bytes}

theorem pure_eq_some_iff {a b : α} :
    (pure a : Scan α) input = some (b, rest) ↔ b = a ∧ input = rest := by
  show some (a, input) = some (b, rest) ↔ b = a ∧ input = rest
  rw [Option.some.injEq, Prod.mk.injEq, eq_comm (a := a)]

theorem bind_eq_some_iff {d : Scan α} {k : α → Scan β} {b : β} :
    (d >>= k) input = some (b, rest)
      ↔ ∃ a mid, d input = some (a, mid) ∧ k a mid = some (b, rest) := by
  show (d input).bind (fun r => k r.1 r.2) = some (b, rest) ↔ _
  rw [Option.bind_eq_some_iff, Prod.exists]

theorem byte_eq_some_iff {b : UInt8} : byte input = some (b, rest) ↔ input = b :: rest := by
  cases input with
  | nil => simp [byte]
  | cons c input => simp [byte]

theorem word_eq_some_iff {w : UInt32} :
    word input = some (w, rest) ↔ input = Word.toBytes w ++ rest := by
  constructor
  · intro h
    unfold word at h
    split at h
    · cases h
      rw [Word.toBytes_ofBytes]
      rfl
    · cases h
  · rintro rfl
    show some (Word.ofBytes _ _ _ _, rest) = some (w, rest)
    rw [Word.ofBytes_toBytes]

theorem bytes_eq_some_iff {count : ℕ} {taken : Bytes} :
    bytes count input = some (taken, rest) ↔ taken.length = count ∧ input = taken ++ rest := by
  constructor
  · intro h
    refine ⟨length_bytes h, ?_⟩
    induction count generalizing input taken with
    | zero =>
      cases h
      rfl
    | succ count ih =>
      cases input with
      | nil => cases h
      | cons b input =>
        obtain ⟨⟨tail, rest'⟩, htail, heq⟩ := Option.map_eq_some_iff.mp h
        cases heq
        rw [ih htail, List.cons_append]
  · rintro ⟨rfl, rfl⟩
    induction taken with
    | nil => rfl
    | cons b taken ih => rw [List.length_cons, List.cons_append, bytes, ih, Option.map_some]

/-- A string is read up to the first zero byte, so it contains none. -/
theorem string_eq_some_iff {s : Bytes} :
    string input = some (s, rest) ↔ 0 ∉ s ∧ input = Encoder.string s ++ rest := by
  constructor
  · intro h
    induction input generalizing s with
    | nil => cases h
    | cons b input ih =>
      unfold string at h
      split at h
      · next hb =>
        cases h
        exact ⟨List.not_mem_nil, by rw [hb]; rfl⟩
      · next hb =>
        obtain ⟨⟨tail, rest'⟩, htail, heq⟩ := Option.map_eq_some_iff.mp h
        cases heq
        obtain ⟨htext, hinput⟩ := ih htail
        refine ⟨?_, by rw [hinput]; rfl⟩
        rw [List.mem_cons, not_or]
        exact ⟨Ne.symm hb, htext⟩
  · rintro ⟨htext, rfl⟩
    induction s with
    | nil => rfl
    | cons b s ih =>
      rw [List.mem_cons, not_or] at htext
      obtain ⟨hb, htext⟩ := htext
      show (if b = 0 then _ else (string (Encoder.string s ++ rest)).map _) = _
      rw [if_neg (Ne.symm hb), ih htext, Option.map_some]

theorem words_eq_some_iff {count : ℕ} {ws : List UInt32} :
    words count input = some (ws, rest)
      ↔ ws.length = count ∧ input = ws.flatMap Word.toBytes ++ rest := by
  induction count generalizing input rest ws with
  | zero =>
    rw [words, pure_eq_some_iff, List.length_eq_zero_iff]
    constructor <;>
    · rintro ⟨rfl, rfl⟩
      exact ⟨rfl, rfl⟩
  | succ count ih =>
    simp only [words, bind_eq_some_iff, word_eq_some_iff, ih, pure_eq_some_iff]
    constructor
    · rintro ⟨w, _, rfl, tail, _, ⟨hlength, rfl⟩, rfl, rfl⟩
      refine ⟨by rw [List.length_cons, hlength], ?_⟩
      rw [List.flatMap_cons, List.append_assoc]
    · rintro ⟨hlength, rfl⟩
      cases ws with
      | nil => cases hlength
      | cons w tail =>
        refine ⟨w, _, ?_, tail, rest, ⟨Nat.succ.inj hlength, rfl⟩, rfl, rfl⟩
        rw [List.flatMap_cons, List.append_assoc]

end Scan

/-! ## Combinators -/

namespace Decoder

variable {α β : Type} {input rest : Bytes}

theorem pure_eq_ok_iff {a b : α} :
    (pure a : Decoder α) input = .ok (b, rest) ↔ b = a ∧ input = rest := by
  show Except.ok (a, input) = Except.ok (b, rest) ↔ b = a ∧ input = rest
  rw [Except.ok.injEq, Prod.mk.injEq, eq_comm (a := a)]

theorem bind_eq_ok_iff {d : Decoder α} {k : α → Decoder β} {b : β} :
    (d >>= k) input = .ok (b, rest)
      ↔ ∃ a mid, d input = .ok (a, mid) ∧ k a mid = .ok (b, rest) := by
  show (d input).bind (fun r => k r.1 r.2) = .ok (b, rest) ↔ _
  cases d input with
  | error e =>
    constructor
    · intro h
      cases h
    · rintro ⟨a, mid, h, -⟩
      cases h
  | ok r =>
    constructor
    · intro h
      exact ⟨r.1, r.2, rfl, h⟩
    · rintro ⟨a, mid, h, hk⟩
      cases h
      exact hk

theorem not_fail_eq_ok {defect : Defect} {a : α} :
    ¬(fail defect : Decoder α) input = .ok (a, rest) := by
  intro h
  cases h

theorem ite_eq_ok_iff {c : Prop} [Decidable c] {d e : Decoder α} {a : α} :
    (if c then d else e) input = .ok (a, rest)
      ↔ c ∧ d input = .ok (a, rest) ∨ ¬c ∧ e input = .ok (a, rest) := by
  by_cases h : c
  · simp [h]
  · simp [h]

theorem part_eq_ok_iff {p : Part} {fields : Scan α} {a : α} :
    part p fields input = .ok (a, rest) ↔ fields input = some (a, rest) := by
  unfold part
  split
  · next result h => rw [h, Except.ok.injEq, Option.some.injEq]
  · next h => simp [h]

theorem inside_eq_ok_iff {place : Place} {d : Decoder α} {a : α} :
    inside place d input = .ok (a, rest) ↔ d input = .ok (a, rest) := by
  unfold inside
  split
  · next result h => rw [h]
  · next e h => simp [h]

/-! ## Tables -/

/-- A table of items. If the item at an index is read exactly from what is written for an item with
the property of that index, then a table is read exactly from what is written for its items. -/
theorem many_eq_ok_iff {item : ℕ → Decoder α} {P : ℕ → α → Prop}
    {encode : α → Except EncodeError Bytes} {count index : ℕ} {items : List α}
    (hitem : ∀ i, index ≤ i → i < index + count → ∀ (input rest : Bytes) (a : α),
      item i input = .ok (a, rest) ↔ P i a ∧ ∃ used, encode a = .ok used ∧ input = used ++ rest) :
    many item count index input = .ok (items, rest)
      ↔ items.length = count ∧ (∀ i a, items[i]? = some a → P (index + i) a)
        ∧ ∃ chunks, items.mapM encode = .ok chunks ∧ input = chunks.flatten ++ rest := by
  induction count generalizing index items input rest with
  | zero =>
    rw [many, pure_eq_ok_iff, List.length_eq_zero_iff]
    constructor
    · rintro ⟨rfl, rfl⟩
      refine ⟨rfl, ?_, [], rfl, rfl⟩
      intro i a hi
      simp at hi
    · rintro ⟨rfl, -, chunks, hchunks, rfl⟩
      cases hchunks
      exact ⟨rfl, rfl⟩
  | succ count ih =>
    have hfirst : ∀ (input rest : Bytes) (a : α), item index input = .ok (a, rest)
        ↔ P index a ∧ ∃ used, encode a = .ok used ∧ input = used ++ rest :=
      hitem index (Nat.le_refl _) (by omega)
    have hlater : ∀ i, index + 1 ≤ i → i < index + 1 + count → ∀ (input rest : Bytes) (a : α),
        item i input = .ok (a, rest)
          ↔ P i a ∧ ∃ used, encode a = .ok used ∧ input = used ++ rest :=
      fun i hlow hhigh => hitem i (by omega) (by omega)
    simp only [many, bind_eq_ok_iff, pure_eq_ok_iff, hfirst, ih hlater]
    constructor
    · rintro ⟨a, _, ⟨ha, used, hused, rfl⟩, tail, _, ⟨hlength, htail, chunks, hchunks, rfl⟩, rfl,
        rfl⟩
      refine ⟨by rw [List.length_cons, hlength], ?_, used :: chunks, ?_, ?_⟩
      · intro i b hb
        cases i with
        | zero =>
          cases hb
          exact ha
        | succ i =>
          rw [List.getElem?_cons_succ] at hb
          have hP := htail i b hb
          rwa [Nat.add_assoc, Nat.add_comm 1] at hP
      · rw [List.mapM_cons, hused, hchunks]
        rfl
      · rw [List.flatten_cons, List.append_assoc]
    · rintro ⟨hlength, hP, chunks, hchunks, rfl⟩
      cases items with
      | nil => cases hlength
      | cons a tail =>
        -- what is written for the items is what is written for the first one, and the rest
        rw [List.mapM_cons] at hchunks
        cases hused : encode a with
        | error e =>
          rw [hused] at hchunks
          cases hchunks
        | ok used =>
          cases htail : tail.mapM encode with
          | error e =>
            rw [hused, htail] at hchunks
            cases hchunks
          | ok later =>
            rw [hused, htail] at hchunks
            cases hchunks
            refine ⟨a, later.flatten ++ rest, ⟨hP 0 a rfl, used, hused, ?_⟩, tail, rest,
              ⟨Nat.succ.inj hlength, ?_, later, htail, rfl⟩, rfl, rfl⟩
            · rw [List.flatten_cons, List.append_assoc]
            · intro i b hb
              have hnext := hP (i + 1) b (by rw [List.getElem?_cons_succ, hb])
              rwa [Nat.add_comm i, ← Nat.add_assoc] at hnext

/-- The same where writing an item never fails and its property does not depend on the index. -/
theorem many_eq_ok_iff_of_total {item : ℕ → Decoder α} {P : α → Prop} {encode : α → Bytes}
    {count index : ℕ} {items : List α}
    (hitem : ∀ (i : ℕ) (input rest : Bytes) (a : α),
      item i input = .ok (a, rest) ↔ P a ∧ input = encode a ++ rest) :
    many item count index input = .ok (items, rest)
      ↔ items.length = count ∧ (∀ a ∈ items, P a) ∧ input = items.flatMap encode ++ rest := by
  have hitem' : ∀ i, index ≤ i → i < index + count → ∀ (input rest : Bytes) (a : α),
      item i input = .ok (a, rest)
        ↔ P a ∧ ∃ used, (.ok (encode a) : Except EncodeError Bytes) = .ok used
          ∧ input = used ++ rest := by
    intro i _ _ input rest a
    rw [hitem i]
    constructor
    · rintro ⟨ha, rfl⟩
      exact ⟨ha, _, rfl, rfl⟩
    · rintro ⟨ha, used, hused, rfl⟩
      cases hused
      exact ⟨ha, rfl⟩
  have hmapM : items.mapM (fun a => (.ok (encode a) : Except EncodeError Bytes))
      = .ok (items.map encode) := List.mapM_pure
  rw [many_eq_ok_iff (P := fun _ a => P a) hitem', hmapM]
  constructor
  · rintro ⟨hlength, hP, chunks, hchunks, rfl⟩
    cases hchunks
    refine ⟨hlength, ?_, by rw [List.flatMap_def]⟩
    intro a ha
    obtain ⟨i, hi⟩ := List.mem_iff_getElem?.mp ha
    exact hP i a hi
  · rintro ⟨hlength, hP, rfl⟩
    refine ⟨hlength, ?_, _, rfl, by rw [List.flatMap_def]⟩
    intro i a hi
    exact hP a (List.mem_of_getElem? hi)

end Decoder

end Object

end BankedLinker
