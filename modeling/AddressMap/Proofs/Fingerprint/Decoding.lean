import AddressMap.Fingerprint
import AddressMap.Proofs.Text.Listing
import AddressMap.Proofs.Value.KeyOrder
import AddressMap.Proofs.Value.Number
import Mathlib.Data.List.Forall2

set_option autoImplicit false

namespace AddressMap.Fingerprint

def escape (c : Char) : List Char := if c == '\'' || c == '\\' then ['\\', c] else [c]

def quote (s : String) : List Char := '\'' :: (s.toList.flatMap escape ++ ['\''])

theorem toList_quoted (s : String) : (quoted s).toList = quote s := by
  simp only [quoted, String.toList_append, String.toList_ofList]
  rfl

theorem escape_special {c : Char} (h : c = '\'' ∨ c = '\\') : escape c = ['\\', c] := by
  rw [escape, if_pos (by simpa using h)]

theorem escape_plain {c : Char} (h : ¬ (c = '\'' ∨ c = '\\')) : escape c = [c] := by
  rw [escape, if_neg (by simpa using h)]

/-- A character that stands for itself is told from an escaped one by what stands first. -/
theorem escape_cancel {c d : Char} {r r' : List Char} (h : escape c ++ r = escape d ++ r') :
    c = d ∧ r = r' := by
  by_cases hc : c = '\'' ∨ c = '\\'
  · by_cases hd : d = '\'' ∨ d = '\\'
    · rw [escape_special hc, escape_special hd] at h
      simpa using h
    · rw [escape_special hc, escape_plain hd] at h
      simp only [List.cons_append, List.nil_append, List.cons.injEq] at h
      exact absurd (.inr h.1.symm) hd
  · by_cases hd : d = '\'' ∨ d = '\\'
    · rw [escape_plain hc, escape_special hd] at h
      simp only [List.cons_append, List.nil_append, List.cons.injEq] at h
      exact absurd (.inr h.1) hc
    · rw [escape_plain hc, escape_plain hd] at h
      simpa using h

theorem escape_ne_quote {c : Char} {r r' : List Char} : '\'' :: r ≠ escape c ++ r' := by
  intro h
  by_cases hc : c = '\'' ∨ c = '\\'
  · rw [escape_special hc] at h
    simp at h
  · rw [escape_plain hc] at h
    simp only [List.cons_append, List.nil_append, List.cons.injEq] at h
    exact hc (.inl h.1.symm)

theorem quote_cancel {s t : String} {r r' : List Char} (h : quote s ++ r = quote t ++ r') :
    s = t ∧ r = r' := by
  simp only [quote, List.cons_append, List.append_assoc, List.cons.injEq, true_and,
    List.nil_append] at h
  obtain ⟨hs, hr⟩ := Text.flatMap_cancel escape_cancel escape_ne_quote h
  exact ⟨String.toList_inj.mp hs, hr⟩

mutual

def plain : Value → Value
  | .null => .string "None"
  | .bool b => .string (if b then "True" else "False")
  | .number n => .string n.text
  | .string s => .string s
  | .array xs => .array (plainItems xs)
  | .object es => .object (plainEntries es)

def plainItems : List Value → List Value
  | [] => []
  | x :: xs => plain x :: plainItems xs

def plainEntries : List (String × Value) → List (String × Value)
  | [] => []
  | (k, x) :: es => (k, plain x) :: plainEntries es

end

mutual

def render : Value → List Char
  | .null => quote "None"
  | .bool b => quote (if b then "True" else "False")
  | .number n => quote n.text
  | .string s => quote s
  | .array xs => '[' :: renderItems [] xs
  | .object es => '\x7b' :: renderEntries [] es

def renderItems (gap : List Char) : List Value → List Char
  | [] => [']']
  | x :: xs => gap ++ (render x ++ renderItems [',', ' '] xs)

def renderEntries (gap : List Char) : List (String × Value) → List Char
  | [] => ['\x7d']
  | (k, x) :: es => gap ++ (quote k ++ (':' :: ' ' :: (render x ++ renderEntries [',', ' '] es)))

end

theorem render_shape (v : Value) :
    (∃ s, plain v = .string s ∧ render v = quote s) ∨ (∃ xs, v = .array xs) ∨ ∃ es, v = .object es := by
  cases v with
  | null => exact .inl ⟨_, rfl, rfl⟩
  | bool b => exact .inl ⟨_, rfl, rfl⟩
  | number n => exact .inl ⟨_, rfl, rfl⟩
  | string s => exact .inl ⟨_, rfl, rfl⟩
  | array xs => exact .inr (.inl ⟨xs, rfl⟩)
  | object es => exact .inr (.inr ⟨es, rfl⟩)

theorem render_ne_close {gap : List Char} (hgap : gap = [] ∨ gap = [',', ' ']) {v : Value}
    {r r' : List Char} : ']' :: r ≠ gap ++ (render v ++ r') := by
  intro h
  rcases hgap with rfl | rfl
  · rcases render_shape v with ⟨s, _, hs⟩ | ⟨xs, rfl⟩ | ⟨es, rfl⟩
    · rw [hs] at h
      simp [quote] at h
    · simp [render] at h
    · simp [render] at h
  · simp at h

theorem render_ne_brace {gap : List Char} (hgap : gap = [] ∨ gap = [',', ' ']) {k : String}
    {r r' : List Char} : '\x7d' :: r ≠ gap ++ (quote k ++ r') := by
  intro h
  rcases hgap with rfl | rfl
  · simp [quote] at h
  · simp at h

theorem quote_cancel_render {s : String} {w : Value} {r r' : List Char}
    (h : quote s ++ r = render w ++ r') : Value.string s = plain w ∧ r = r' := by
  rcases render_shape w with ⟨t, hplain, ht⟩ | ⟨ys, rfl⟩ | ⟨fs, rfl⟩
  · rw [ht] at h
    obtain ⟨rfl, hr⟩ := quote_cancel h
    exact ⟨hplain.symm, hr⟩
  · simp [quote, render] at h
  · simp [quote, render] at h

mutual

/-- The text of a value ends where it ends, whatever follows. -/
theorem render_cancel : (v w : Value) → (r r' : List Char) → render v ++ r = render w ++ r' →
    plain v = plain w ∧ r = r'
  | .null, _, _, _, h => quote_cancel_render h
  | .bool _, _, _, _, h => quote_cancel_render h
  | .number _, _, _, _, h => quote_cancel_render h
  | .string _, _, _, _, h => quote_cancel_render h
  | .array xs, w, r, r', h => by
    rcases render_shape w with ⟨t, _, ht⟩ | ⟨ys, rfl⟩ | ⟨fs, rfl⟩
    · rw [ht] at h
      simp [quote, render] at h
    · simp only [render, List.cons_append, List.cons.injEq, true_and] at h
      obtain ⟨hitems, hr⟩ := renderItems_cancel xs ys [] (.inl rfl) r r' h
      exact ⟨congrArg Value.array hitems, hr⟩
    · simp [render] at h
  | .object es, w, r, r', h => by
    rcases render_shape w with ⟨t, _, ht⟩ | ⟨ys, rfl⟩ | ⟨fs, rfl⟩
    · rw [ht] at h
      simp [quote, render] at h
    · simp [render] at h
    · simp only [render, List.cons_append, List.cons.injEq, true_and] at h
      obtain ⟨hentries, hr⟩ := renderEntries_cancel es fs [] (.inl rfl) r r' h
      exact ⟨congrArg Value.object hentries, hr⟩

theorem renderItems_cancel : (xs ys : List Value) → (gap : List Char) → gap = [] ∨ gap = [',', ' '] →
    (r r' : List Char) → renderItems gap xs ++ r = renderItems gap ys ++ r' →
    plainItems xs = plainItems ys ∧ r = r'
  | [], [], _, _, r, r', h => ⟨rfl, by simpa [renderItems] using h⟩
  | [], y :: ys, gap, hgap, r, r', h => by
    simp only [renderItems, List.cons_append, List.nil_append, List.append_assoc] at h
    exact absurd h (render_ne_close hgap)
  | x :: xs, [], gap, hgap, r, r', h => by
    simp only [renderItems, List.cons_append, List.nil_append, List.append_assoc] at h
    exact absurd h.symm (render_ne_close hgap)
  | x :: xs, y :: ys, gap, _, r, r', h => by
    simp only [renderItems, List.append_assoc, List.append_cancel_left_eq] at h
    obtain ⟨hx, htail⟩ := render_cancel x y _ _ h
    obtain ⟨hxs, hr⟩ := renderItems_cancel xs ys _ (.inr rfl) r r' htail
    exact ⟨by rw [plainItems, plainItems, hx, hxs], hr⟩

theorem renderEntries_cancel : (es fs : List (String × Value)) → (gap : List Char) →
    gap = [] ∨ gap = [',', ' '] → (r r' : List Char) →
    renderEntries gap es ++ r = renderEntries gap fs ++ r' → plainEntries es = plainEntries fs ∧ r = r'
  | [], [], _, _, r, r', h => ⟨rfl, by simpa [renderEntries] using h⟩
  | [], (l, y) :: fs, gap, hgap, r, r', h => by
    simp only [renderEntries, List.cons_append, List.nil_append, List.append_assoc] at h
    exact absurd h (render_ne_brace hgap)
  | (k, x) :: es, [], gap, hgap, r, r', h => by
    simp only [renderEntries, List.cons_append, List.nil_append, List.append_assoc] at h
    exact absurd h.symm (render_ne_brace hgap)
  | (k, x) :: es, (l, y) :: fs, gap, _, r, r', h => by
    simp only [renderEntries, List.append_assoc, List.append_cancel_left_eq] at h
    obtain ⟨rfl, hfield⟩ := quote_cancel h
    simp only [List.cons_append, List.append_assoc, List.cons.injEq, true_and] at hfield
    obtain ⟨hx, htail⟩ := render_cancel x y _ _ hfield
    obtain ⟨hes, hr⟩ := renderEntries_cancel es fs _ (.inr rfl) r r' htail
    exact ⟨by rw [plainEntries, plainEntries, hx, hes], hr⟩

end

mutual

theorem render_plain : (v : Value) → render (plain v) = render v
  | .null => rfl
  | .bool _ => rfl
  | .number _ => rfl
  | .string _ => rfl
  | .array xs => by simp only [plain, render, renderItems_plain xs]
  | .object es => by simp only [plain, render, renderEntries_plain es]

theorem renderItems_plain : (xs : List Value) → (gap : List Char) →
    renderItems gap (plainItems xs) = renderItems gap xs
  | [], _ => rfl
  | x :: xs, gap => by simp only [plainItems, renderItems, render_plain x, renderItems_plain xs]

theorem renderEntries_plain : (es : List (String × Value)) → (gap : List Char) →
    renderEntries gap (plainEntries es) = renderEntries gap es
  | [], _ => rfl
  | (k, x) :: es, gap => by
    simp only [plainEntries, renderEntries, render_plain x, renderEntries_plain es]

end

theorem itemTexts_eq (xs : List Value) : itemTexts xs = xs.map text := by
  induction xs with
  | nil => rfl
  | cons x xs ih => rw [itemTexts, ih, List.map_cons]

theorem entryTexts_eq (es : Entries Value) : entryTexts es = es.mapValues text := by
  induction es with
  | nil => rfl
  | cons e es ih => rw [entryTexts, ih, Entries.mapValues, Entries.mapValues, List.map_cons]

theorem renderItems_listed (gap : List Char) (xs : List Value) :
    renderItems gap xs = Text.listed render ']' gap xs := by
  induction xs generalizing gap with
  | nil => rfl
  | cons x xs ih => rw [renderItems, ih, Text.listed]

theorem renderItems_eq (xs : List Value) :
    renderItems [] xs = [',', ' '].intercalate (xs.map render) ++ [']'] := by
  rw [renderItems_listed, Text.listed_eq]

def renderEntry (e : String × Value) : List Char := quote e.1 ++ (':' :: ' ' :: render e.2)

theorem renderEntries_listed (gap : List Char) (es : List (String × Value)) :
    renderEntries gap es = Text.listed renderEntry '\x7d' gap es := by
  induction es generalizing gap with
  | nil => rfl
  | cons e es ih =>
    rw [renderEntries, ih, Text.listed, renderEntry, List.append_assoc]
    rfl

theorem renderEntries_eq (es : List (String × Value)) :
    renderEntries [] es = [',', ' '].intercalate (es.map renderEntry) ++ ['\x7d'] := by
  rw [renderEntries_listed, Text.listed_eq]

mutual

theorem toList_text : (v : Value) → (text v).toList = render v.sortKeys
  | .null => toList_quoted _
  | .bool _ => toList_quoted _
  | .number _ => toList_quoted _
  | .string _ => toList_quoted _
  | .array xs => by
    have items : xs.map (String.toList ∘ text) = xs.map (render ∘ Value.sortKeys) :=
      List.map_congr_left (toList_itemTexts xs)
    rw [text, Value.sortKeys, render, Value.sortItems_eq, renderItems_eq, itemTexts_eq]
    simp only [String.toList_append, String.toList_intercalate, List.map_map, items]
    rfl
  | .object es => by
    have entries : (Entries.sortByKey es).map
          (String.toList ∘ (fun f => quoted f.1 ++ ": " ++ f.2) ∘ fun e => (e.1, text e.2)) =
        (Entries.sortByKey es).map (renderEntry ∘ fun e => (e.1, e.2.sortKeys)) := by
      apply List.map_congr_left
      intro e he
      have value := toList_entryTexts es e ((Entries.sortByKey_perm _).mem_iff.mp he)
      simp only [Function.comp_apply, String.toList_append, toList_quoted, value, renderEntry,
        List.append_assoc]
      rfl
    rw [text, Value.sortKeys, render, Value.sortEntries_eq, entryTexts_eq, Entries.sortByKey_mapValues,
      Entries.sortByKey_mapValues, renderEntries_eq]
    simp only [String.toList_append, String.toList_intercalate, Entries.mapValues, List.map_map,
      entries]
    rfl

theorem toList_itemTexts : (xs : List Value) → ∀ x ∈ xs, (text x).toList = render x.sortKeys
  | [], _, h => by cases h
  | x :: xs, y, h => by
    rcases List.mem_cons.mp h with heq | hin
    · rw [heq]
      exact toList_text x
    · exact toList_itemTexts xs y hin

theorem toList_entryTexts : (es : List (String × Value)) →
    ∀ e ∈ es, (text e.2).toList = render e.2.sortKeys
  | [], _, h => by cases h
  | (k, x) :: es, f, h => by
    rcases List.mem_cons.mp h with heq | hin
    · rw [heq]
      exact toList_text x
    · exact toList_entryTexts es f hin

end

/-- Values share their text exactly if they are equal up to the order of keys and the type of scalars. -/
theorem text_eq_iff {v w : Value} : text v = text w ↔ plain v.sortKeys = plain w.sortKeys := by
  rw [← String.toList_inj, toList_text, toList_text]
  constructor
  · intro h
    exact (render_cancel _ _ [] [] (by rw [h])).1
  · intro h
    rw [← render_plain v.sortKeys, h, render_plain]

theorem plainItems_eq (xs : List Value) : plainItems xs = xs.map plain := by
  induction xs with
  | nil => rfl
  | cons x xs ih => rw [plainItems, ih, List.map_cons]

theorem plainEntries_eq (es : Entries Value) : plainEntries es = es.mapValues plain := by
  induction es with
  | nil => rfl
  | cons e es ih => rw [plainEntries, ih, Entries.mapValues, Entries.mapValues, List.map_cons]

theorem string_eq_of_text {s t : String} (h : text (.string s) = text (.string t)) : s = t := by
  have heq := text_eq_iff.mp h
  simpa only [Value.sortKeys, plain, Value.string.injEq] using heq

theorem nat_eq_of_text {m n : Nat} (h : text (.ofNat m) = text (.ofNat n)) : m = n := by
  have heq := text_eq_iff.mp h
  simp only [Value.ofNat, Value.sortKeys, plain, Value.string.injEq, Number.text] at heq
  exact Int.ofNat_inj.mp (toString_int_injective heq)

theorem texts_eq_of_array {xs ys : List Value} (h : text (.array xs) = text (.array ys)) :
    List.Forall₂ (fun x y => text x = text y) xs ys := by
  have heq := text_eq_iff.mp h
  simp only [Value.sortKeys, Value.sortItems_eq, plain, plainItems_eq, Value.array.injEq, List.map_map] at heq
  rw [← List.forall₂_eq_eq_eq, List.forall₂_map_left_iff, List.forall₂_map_right_iff] at heq
  exact heq.imp fun x y hxy => text_eq_iff.mpr hxy

theorem texts_eq_of_object {es fs : Entries Value} (h : text (.object es) = text (.object fs))
    (key : String) : (es.get? key).map text = (fs.get? key).map text := by
  have heq := text_eq_iff.mp h
  simp only [Value.sortKeys, Value.sortEntries_eq, plain, plainEntries_eq, Value.object.injEq] at heq
  have hget := congrArg (Entries.get? · key) heq
  simp only [Entries.get?_mapValues, Entries.get?_sortByKey] at hget
  cases he : es.get? key with
  | none =>
    cases hf : fs.get? key with
    | none => rfl
    | some y => simp [he, hf] at hget
  | some x =>
    cases hf : fs.get? key with
    | none => simp [he, hf] at hget
    | some y =>
      simp only [he, hf, Option.map_some, Option.some.injEq] at hget ⊢
      exact text_eq_iff.mpr hget

end AddressMap.Fingerprint
