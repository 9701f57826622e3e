import AddressMap.Proofs.Fingerprint.Refinement
import AddressMap.Proofs.Value.Distinct

set_option autoImplicit false

namespace AddressMap

/-- A table with distinct keys sorts to another exactly if all its entries are there and no more. -/
theorem Entries.sortByKey_eq_iff_get? {α : Type} {es fs : Entries α} (he : es.keys.Nodup) :
    es.sortByKey = fs.sortByKey ↔ es.length = fs.length ∧ ∀ e ∈ es, fs.get? e.1 = some e.2 := by
  constructor
  · intro h
    refine ⟨?_, fun e hin => ?_⟩
    · rw [← (sortByKey_perm es).length_eq, h, (sortByKey_perm fs).length_eq]
    · rw [← get?_congr h, get?_of_mem he hin]
  · rintro ⟨length, found⟩
    have inside : es ⊆ fs := fun e hin => mem_of_get? (found e hin)
    have once : es.Nodup := List.Nodup.of_map _ he
    have perm : es.Perm fs := (once.subperm inside).perm_of_length_le length.ge
    exact sortByKey_eq_of_perm perm he

namespace Fingerprint

open Value (told told_object told_array distinct same)

theorem told_shape (v : Value) : (∃ s, plain v = .string s ∧ told v = .string s) ∨
    (∃ xs, v = .array xs) ∨ ∃ es, v = .object es := by
  cases v with
  | null | bool | number | string => exact .inl ⟨_, rfl, rfl⟩
  | array xs => exact .inr (.inl ⟨xs, rfl⟩)
  | object es => exact .inr (.inr ⟨es, rfl⟩)

theorem same_string {v w : Value} {s : String} (hplain : plain v = .string s) (htold : told v = .string s) :
    (plain v).same (plain w) ↔ told v = told w := by
  rw [hplain, htold]
  rcases told_shape w with ⟨t, hwplain, hwtold⟩ | ⟨ys, rfl⟩ | ⟨fs, rfl⟩
  · rw [hwplain, hwtold, same, beq_iff_eq, Value.string.injEq]
  · simp [plain, same, told_array]
  · simp [plain, same, told_object]

mutual

/-- With scalars as texts, values are the same data exactly if they are equal with sorted keys. -/
theorem same_plain : (v w : Value) → v.distinct → ((plain v).same (plain w) ↔ told v = told w)
  | .null, _, _ | .bool _, _, _ | .number _, _, _ | .string _, _, _ => same_string rfl rfl
  | .array xs, w, h => by
    rcases told_shape w with ⟨t, hwplain, hwtold⟩ | ⟨ys, rfl⟩ | ⟨fs, rfl⟩
    · simp [hwplain, hwtold, plain, same, told_array]
    · rw [plain, plain, same, samePlainItems xs ys (Value.distinctItems_iff.mp h), told_array, told_array,
        Value.array.injEq]
    · simp [plain, same, told_array, told_object]
  | .object es, w, h => by
    rcases told_shape w with ⟨t, hwplain, hwtold⟩ | ⟨ys, rfl⟩ | ⟨fs, rfl⟩
    · simp [hwplain, hwtold, plain, same, told_object]
    · simp [plain, same, told_array, told_object]
    · obtain ⟨hes, inner⟩ := Value.distinct_object.mp h
      have keys : (Entries.mapValues es told).keys.Nodup := by
        rw [Entries.keys, Entries.mapValues, List.map_map]
        exact hes
      have entries := samePlainEntries es fs (Value.distinctEntries_iff.mp inner)
      rw [plainEntries_eq es] at entries
      rw [plain, plain, same, Bool.and_eq_true, beq_iff_eq, plainEntries_eq, plainEntries_eq, entries, told_object,
        told_object, Value.object.injEq, Entries.sortByKey_eq_iff_get? keys, Entries.length_mapValues,
        Entries.length_mapValues, Entries.length_mapValues, Entries.length_mapValues]
      simp only [Entries.mapValues, List.forall_mem_map]

theorem samePlainItems : (xs ys : List Value) → (∀ x ∈ xs, x.distinct) →
    (Value.sameItems (plainItems xs) (plainItems ys) ↔ xs.map told = ys.map told)
  | [], [], _ => by simp [plainItems, Value.sameItems]
  | [], _ :: _, _ => by simp [plainItems, Value.sameItems]
  | _ :: _, [], _ => by simp [plainItems, Value.sameItems]
  | x :: xs, y :: ys, h => by
    rw [List.forall_mem_cons] at h
    rw [plainItems, plainItems, Value.sameItems, Bool.and_eq_true, same_plain x y h.1, samePlainItems xs ys h.2,
      List.map_cons, List.map_cons, List.cons.injEq]

theorem samePlainEntries : (es : List (String × Value)) → (fs : Entries Value) → (∀ e ∈ es, e.2.distinct) →
    (Value.sameEntries (plainEntries es) (fs.mapValues plain) ↔
      ∀ e ∈ es, (fs.mapValues told).get? e.1 = some (told e.2))
  | [], _, _ => by simp [plainEntries, Value.sameEntries]
  | (k, x) :: es, fs, h => by
    rw [List.forall_mem_cons] at h
    rw [plainEntries, Value.sameEntries, Bool.and_eq_true, samePlainEntries es fs h.2, List.forall_mem_cons,
      Entries.get?_mapValues, Entries.get?_mapValues]
    refine and_congr_left fun _ => ?_
    cases fs.get? k with
    | none => simp
    | some y =>
      rw [Option.map_some, Option.map_some, Option.some.injEq, eq_comm (a := told y)]
      exact same_plain x y h.1

end

mutual

/-- It does not matter whether keys are sorted before scalars are taken as texts, or after it. -/
theorem told_eq_sorted : (v : Value) → told v = (plain v).sortKeys
  | .null | .bool _ | .number _ | .string _ => rfl
  | .array xs => by
    have items : xs.map told = xs.map (Value.sortKeys ∘ plain) := List.map_congr_left (told_eq_sorted_items xs)
    rw [told_array, plain, Value.sortKeys_array, plainItems_eq, List.map_map, items]
  | .object es => by
    have entries : Entries.mapValues es told = Entries.mapValues es (Value.sortKeys ∘ plain) :=
      List.map_congr_left fun e he => congrArg (e.1, ·) (told_eq_sorted_entries es e he)
    rw [told_object, plain, Value.sortKeys_object, plainEntries_eq, entries]
    simp only [Entries.mapValues, List.map_map]
    rfl

theorem told_eq_sorted_items : (xs : List Value) → ∀ x ∈ xs, told x = (plain x).sortKeys
  | [], _, h => by cases h
  | x :: xs, y, h => by
    rcases List.mem_cons.mp h with heq | hin
    · rw [heq]
      exact told_eq_sorted x
    · exact told_eq_sorted_items xs y hin

theorem told_eq_sorted_entries : (es : List (String × Value)) → ∀ e ∈ es, told e.2 = (plain e.2).sortKeys
  | [], _, h => by cases h
  | (k, x) :: es, f, h => by
    rcases List.mem_cons.mp h with heq | hin
    · rw [heq]
      exact told_eq_sorted x
    · exact told_eq_sorted_entries es f hin

end

/-- No text goes on as another one. -/
theorem text_cancel {v w : Value} {rest rest' : List Char}
    (h : (text v).toList ++ rest = (text w).toList ++ rest') : text v = text w ∧ rest = rest' := by
  rw [toList_text, toList_text] at h
  obtain ⟨same, hrest⟩ := render_cancel _ _ rest rest' h
  exact ⟨text_eq_iff.mpr same, hrest⟩

/-- The canonical text tells a value up to the order of keys and the type of scalars, and where it ends. -/
theorem text_exact (v w : Value) :
    (text v = text w ↔ plain v.sortKeys = plain w.sortKeys) ∧
    text v.sortKeys = text v ∧
    (v.distinct → (text v = text w ↔ (plain v).same (plain w))) ∧
    (plain v = v → plain w = w → (text v = text w ↔ v.sortKeys = w.sortKeys)) ∧
    ∀ rest rest', (text v).toList ++ rest = (text w).toList ++ rest' → text v = text w ∧ rest = rest' := by
  refine ⟨text_eq_iff, ?_, fun h => ?_, fun hv hw => ?_, fun _ _ => text_cancel⟩
  · rw [text_eq_iff, Value.sortKeys_sortKeys]
  · exact text_eq_iff.trans (same_plain v w h).symm
  · have sorted : told v = told w ↔ v.sortKeys = w.sortKeys := by
      rw [told_eq_sorted, told_eq_sorted, hv, hw]
    exact text_eq_iff.trans sorted

/-- A text with quotes, brackets and separators in it is not taken for the entries that it spells. -/
theorem text_exact_spelled :
    let spelled : Value := .object [("a", .string "b', 'c': ['d"), ("e", .string "\\'")]
    let entries : Value := .object [("e", .string "\\'"), ("c", .array [.string "d"]), ("a", .string "b")]
    spelled.distinct ∧ plain spelled = spelled ∧ plain entries = entries ∧ text spelled ≠ text entries ∧
      spelled.sortKeys ≠ entries.sortKeys := by
  intro spelled entries
  have hspelled : plain spelled = spelled := rfl
  have hentries : plain entries = entries := rfl
  obtain ⟨_, _, same, sorted, _⟩ := text_exact spelled entries
  have apart : text spelled ≠ text entries := fun h => absurd ((same rfl).mp h) (by decide)
  exact ⟨rfl, hspelled, hentries, apart, (sorted hspelled hentries).not.mp apart⟩

end Fingerprint

end AddressMap
