import AddressMap.Proofs.Text.Listing
import AddressMap.Proofs.Value.Number
import AddressMap.Sheet

set_option autoImplicit false

/-!
The text of a value inside a list or a mapping says which value it was written for. Its first character tells what
kind of value it is, and its end is found whatever follows: a word ends before a comma or a bracket, a quoted text
at the quote it started with, and a list or a mapping at its bracket. Only two doubles of one text cannot be told
apart.
-/

namespace AddressMap

namespace Value

mutual

def doubles : Value → List Float
  | .number (.float x) => [x]
  | .array xs => doublesItems xs
  | .object es => doublesEntries es
  | .null | .bool _ | .number (.int _) | .string _ => []

def doublesItems : List Value → List Float
  | [] => []
  | x :: xs => x.doubles ++ doublesItems xs

def doublesEntries : List (String × Value) → List Float
  | [] => []
  | (_, x) :: es => x.doubles ++ doublesEntries es

end

theorem doublesItems_eq (xs : List Value) : doublesItems xs = xs.flatMap doubles := by
  induction xs with
  | nil => rfl
  | cons x xs ih => rw [doublesItems, ih, List.flatMap_cons]

theorem doublesEntries_eq (es : List (String × Value)) : doublesEntries es = doublesItems (es.map (·.2)) := by
  induction es with
  | nil => rfl
  | cons e es ih => rw [doublesEntries, ih, List.map_cons, doublesItems]

theorem doubles_item {xs : List Value} {x : Value} (h : x ∈ xs) : x.doubles ⊆ (Value.array xs).doubles := by
  rw [doubles, doublesItems_eq]
  exact fun _ hd => List.mem_flatMap_of_mem h hd

theorem doubles_entry {es : List (String × Value)} {e : String × Value} (h : e ∈ es) :
    e.2.doubles ⊆ (Value.object es).doubles := by
  rw [doubles, doublesEntries_eq]
  exact doubles_item (List.mem_map_of_mem h)

/-- Doubles of the one value and doubles of the other have different texts when they are different. -/
def DoublesApart (v w : Value) : Prop :=
  ∀ x ∈ v.doubles, ∀ y ∈ w.doubles, (Number.float x).text = (Number.float y).text → x = y

end Value

namespace Sheet

open Text (Cancels listed listed_eq word_cancel flatMap_cancel listed_cancel)

section Quoted

variable {q c d : Char} {r r' : List Char}

def letterMeaning (c : Char) : Char :=
  if c = 'n' then '\n' else if c = 'r' then '\r' else if c = 't' then '\t' else c

theorem quoteOf_cases (s : String) : quoteOf s = '"' ∨ quoteOf s = '\'' := by
  unfold quoteOf
  exact ite_eq_or_eq _ _ _

theorem escapedChar_cases (hq : q = '"' ∨ q = '\'') (c : Char) :
    (∃ m, escapedChar q c = ['\\', m] ∧ letterMeaning m = c) ∨
      escapedChar q c = [c] ∧ c ≠ '\\' ∧ c ≠ q := by
  unfold escapedChar
  simp only [beq_iff_eq]
  split_ifs with hbackslash hline hreturn htab hquote
  · exact .inl ⟨'\\', rfl, hbackslash.symm⟩
  · exact .inl ⟨'n', rfl, hline.symm⟩
  · exact .inl ⟨'r', rfl, hreturn.symm⟩
  · exact .inl ⟨'t', rfl, htab.symm⟩
  · refine .inl ⟨c, rfl, ?_⟩
    rw [hquote]
    rcases hq with rfl | rfl <;> rfl
  · exact .inr ⟨rfl, hbackslash, hquote⟩

theorem escapedChar_cancel (hq : q = '"' ∨ q = '\'') (h : escapedChar q c ++ r = escapedChar q d ++ r') :
    c = d ∧ r = r' := by
  rcases escapedChar_cases hq c with ⟨m, hc, rfl⟩ | ⟨hc, hbackslash, -⟩
  · rcases escapedChar_cases hq d with ⟨n, hd, rfl⟩ | ⟨hd, hbackslash, -⟩
    · rw [hc, hd] at h
      simp only [List.cons_append, List.nil_append, List.cons.injEq, true_and] at h
      exact ⟨congrArg letterMeaning h.1, h.2⟩
    · rw [hc, hd] at h
      exact absurd (List.cons.inj h).1.symm hbackslash
  · rcases escapedChar_cases hq d with ⟨n, hd, rfl⟩ | ⟨hd, -, -⟩
    · rw [hc, hd] at h
      exact absurd (List.cons.inj h).1 hbackslash
    · rw [hc, hd] at h
      simpa using h

theorem quote_ne_escapedChar (hq : q = '"' ∨ q = '\'') : q :: r ≠ escapedChar q c ++ r' := by
  intro h
  rcases escapedChar_cases hq c with ⟨m, hc, -⟩ | ⟨hc, -, hne⟩
  · rw [hc] at h
    rcases hq with rfl | rfl
    · exact absurd (List.cons.inj h).1 (by decide)
    · exact absurd (List.cons.inj h).1 (by decide)
  · rw [hc] at h
    exact hne (List.cons.inj h).1.symm

theorem toList_quotedText (s : String) :
    (quotedText s).toList = quoteOf s :: (s.toList.flatMap (escapedChar (quoteOf s)) ++ [quoteOf s]) := by
  rw [quotedText, String.toList_ofList, List.cons_append]

/-- The quotes around a text are read off its first character. -/
theorem quotedText_cancel {s t : String} (h : (quotedText s).toList ++ r = (quotedText t).toList ++ r') :
    s = t ∧ r = r' := by
  rw [toList_quotedText, toList_quotedText] at h
  simp only [List.cons_append, List.append_assoc, List.nil_append, List.cons.injEq] at h
  obtain ⟨hquote, hrest⟩ := h
  rw [← hquote] at hrest
  have hq := quoteOf_cases s
  obtain ⟨hs, hr⟩ := flatMap_cancel (escapedChar_cancel hq) (quote_ne_escapedChar hq) hrest
  exact ⟨String.toList_inj.mp hs, hr⟩

end Quoted

inductive Shape where
  | word
  | text
  | list
  | mapping
  deriving DecidableEq

def shape : Value → Shape
  | .null | .bool _ | .number _ => .word
  | .string _ => .text
  | .array _ => .list
  | .object _ => .mapping

def valueText (v : Value) : List Char := (nested v).toList

def isWordChar (c : Char) : Bool := c.isAlphanum || c == '+' || c == '-' || c == '.'

theorem isWordChar_of_isFigure {c : Char} (h : isFigure c = true) : isWordChar c = true := by
  rw [isFigure, Bool.or_eq_true] at h
  rcases h with hdigit | hmark
  · simp [isWordChar, Char.isAlphanum, hdigit]
  · rw [List.contains_iff_mem] at hmark
    exact (List.all_eq_true (p := isWordChar)).mp rfl c hmark

theorem isWordChar_valueText {v : Value} (h : shape v = .word) {c : Char} (hc : c ∈ valueText v) :
    isWordChar c = true := by
  cases v with
  | null => exact (List.all_eq_true (p := isWordChar)).mp rfl c hc
  | bool b =>
    cases b with
    | true => exact (List.all_eq_true (p := isWordChar)).mp rfl c hc
    | false => exact (List.all_eq_true (p := isWordChar)).mp rfl c hc
  | number n => exact isWordChar_of_isFigure (Number.isFigure_text hc)
  | string | array | object => cases h

theorem valueText_ne_nil {v : Value} (h : shape v = .word) : valueText v ≠ [] := by
  cases v with
  | null => exact List.cons_ne_nil _ _
  | bool b =>
    cases b with
    | true => exact List.cons_ne_nil _ _
    | false => exact List.cons_ne_nil _ _
  | number n => exact Number.text_ne_nil n
  | string | array | object => cases h

/-- No number is spelled with such a letter, so none is taken for null or a truth value. -/
theorem text_ne_of_mem {n : Number} {s : String} {c : Char} (hc : c ∈ s.toList) (h : isFigure c = false) :
    n.text ≠ s := by
  rintro rfl
  rw [Number.isFigure_text hc] at h
  cases h

theorem text_ne_none (n : Number) : n.text ≠ "None" := text_ne_of_mem (c := 'o') (by decide) rfl

theorem text_ne_bool (n : Number) (b : Bool) : n.text ≠ if b then "True" else "False" := by
  cases b with
  | true => exact text_ne_of_mem (c := 'T') (by decide) rfl
  | false => exact text_ne_of_mem (c := 'F') (by decide) rfl

theorem word_inj {v w : Value} (hv : shape v = .word) (hw : shape w = .word) (apart : v.DoublesApart w)
    (h : nested v = nested w) : v = w := by
  cases v with
  | null =>
    cases w with
    | null => rfl
    | bool b => cases b <;> exact absurd h (by decide)
    | number n => exact absurd h.symm (text_ne_none n)
    | string | array | object => cases hw
  | bool a =>
    cases w with
    | null => cases a <;> exact absurd h (by decide)
    | bool b => cases a <;> cases b <;> first | rfl | exact absurd h (by decide)
    | number n => exact absurd h.symm (text_ne_bool n a)
    | string | array | object => cases hw
  | number m =>
    cases w with
    | null => exact absurd h (text_ne_none m)
    | bool b => exact absurd h (text_ne_bool m b)
    | number n =>
      refine congrArg Value.number (Number.eq_of_text h ?_)
      rintro x y rfl rfl
      exact apart x List.mem_cons_self y List.mem_cons_self h
    | string | array | object => cases hw
  | string | array | object => cases hv

/-- What a first character tells; the closing brackets stand before no text. -/
def shapeOf? (c : Char) : Option Shape :=
  if c = '[' then some .list
  else if c = '\x7b' then some .mapping
  else if c = '"' ∨ c = '\'' then some .text
  else if isWordChar c then some .word
  else none

theorem shapeOf?_wordChar {c : Char} (h : isWordChar c = true) : shapeOf? c = some .word := by
  have special : ∀ d, isWordChar d = false → c ≠ d := by
    rintro d hd rfl
    rw [h] at hd
    cases hd
  rw [shapeOf?, if_neg (special _ (by decide)), if_neg (special _ (by decide)),
    if_neg (not_or.mpr ⟨special _ (by decide), special _ (by decide)⟩), if_pos h]

theorem shapeOf?_quote {q : Char} (hq : q = '"' ∨ q = '\'') : shapeOf? q = some .text := by
  rcases hq with rfl | rfl <;> rfl

theorem word_starts {v : Value} (h : shape v = .word) : ∃ c cs, valueText v = c :: cs ∧ shapeOf? c = some .word := by
  obtain ⟨c, cs, heq⟩ := List.exists_cons_of_ne_nil (valueText_ne_nil h)
  exact ⟨c, cs, heq, shapeOf?_wordChar (isWordChar_valueText h (heq ▸ List.mem_cons_self))⟩

def entryText (e : String × Value) : List Char := (quotedText e.1).toList ++ (':' :: ' ' :: valueText e.2)

theorem nestedItems_eq (xs : List Value) : nestedItems xs = xs.map nested := by
  induction xs with
  | nil => rfl
  | cons x xs ih => rw [nestedItems, ih, List.map_cons]

theorem toList_nestedEntries (es : List (String × Value)) :
    (nestedEntries es).map String.toList = es.map entryText := by
  induction es with
  | nil => rfl
  | cons e es ih =>
    obtain ⟨k, x⟩ := e
    rw [nestedEntries, List.map_cons, ih, List.map_cons, entryText, String.toList_append, String.toList_append,
      List.append_assoc]
    rfl

theorem toList_nested_array (xs : List Value) :
    (nested (.array xs)).toList = '[' :: listed valueText ']' [] xs := by
  rw [nested, listed_eq, nestedItems_eq]
  simp only [String.toList_append, String.toList_intercalate, List.map_map]
  rfl

theorem toList_nested_object (es : List (String × Value)) :
    (nested (.object es)).toList = '\x7b' :: listed entryText '\x7d' [] es := by
  rw [nested, listed_eq]
  simp only [String.toList_append, String.toList_intercalate, toList_nestedEntries]
  rfl

theorem valueText_starts (v : Value) : ∃ c cs, valueText v = c :: cs ∧ shapeOf? c = some (shape v) := by
  cases v with
  | null | bool | number => exact word_starts rfl
  | string s => exact ⟨_, _, toList_quotedText s, shapeOf?_quote (quoteOf_cases s)⟩
  | array xs => exact ⟨_, _, toList_nested_array xs, rfl⟩
  | object es => exact ⟨_, _, toList_nested_object es, rfl⟩

theorem shape_eq {v w : Value} {r r' : List Char} (h : valueText v ++ r = valueText w ++ r') :
    shape v = shape w := by
  obtain ⟨c, cs, hv, hc⟩ := valueText_starts v
  obtain ⟨d, ds, hw, hd⟩ := valueText_starts w
  rw [hv, hw] at h
  rw [(List.cons.inj h).1, hd] at hc
  exact (Option.some.inj hc).symm

theorem bracket_ne_valueText (x : Value) (r r' : List Char) : ']' :: r ≠ valueText x ++ r' := by
  intro h
  obtain ⟨c, cs, hx, hc⟩ := valueText_starts x
  rw [hx] at h
  have closing : shapeOf? ']' = none := rfl
  rw [← (List.cons.inj h).1, closing] at hc
  cases hc

theorem brace_ne_entryText (e : String × Value) (r r' : List Char) : '\x7d' :: r ≠ entryText e ++ r' := by
  intro h
  rw [entryText, toList_quotedText] at h
  rcases quoteOf_cases e.1 with hq | hq
  · rw [hq] at h
    exact absurd (List.cons.inj h).1 (by decide)
  · rw [hq] at h
    exact absurd (List.cons.inj h).1 (by decide)

theorem word_cancels {v w : Value} (hv : shape v = .word) (apart : v.DoublesApart w) :
    Cancels isWordChar valueText v w := by
  intro r r' hr hr' h
  have hw : shape w = .word := (shape_eq h).symm.trans hv
  obtain ⟨htext, hrest⟩ := word_cancel (fun _ => isWordChar_valueText hv) (fun _ => isWordChar_valueText hw) hr hr' h
  exact ⟨word_inj hv hw apart (String.toList_inj.mp htext), hrest⟩

theorem entryText_cancels {k : String} {x : Value} {f : String × Value} (h : Cancels isWordChar valueText x f.2) :
    Cancels isWordChar entryText (k, x) f := by
  intro r r' hr hr' heq
  rw [entryText, entryText, List.append_assoc, List.append_assoc] at heq
  obtain ⟨hkey, hvalue⟩ := quotedText_cancel heq
  simp only [List.cons_append, List.cons.injEq, true_and] at hvalue
  obtain ⟨hx, hrest⟩ := h r r' hr hr' hvalue
  exact ⟨Prod.ext hkey hx, hrest⟩

mutual

/-- The text of a value ends where it ends, in front of a comma or a bracket. The induction is on the first
    value; the shape of the second one is known from the first character. -/
theorem nested_cancels : (v w : Value) → v.DoublesApart w → Cancels isWordChar valueText v w
  | .null, _, apart => word_cancels rfl apart
  | .bool _, _, apart => word_cancels rfl apart
  | .number _, _, apart => word_cancels rfl apart
  | .string s, w, _ => by
    intro r r' hr hr' h
    have hshape := shape_eq h
    cases w with
    | string t =>
      obtain ⟨rfl, hrest⟩ := quotedText_cancel h
      exact ⟨rfl, hrest⟩
    | null | bool | number | array | object => cases hshape
  | .array xs, w, apart => by
    intro r r' hr hr' h
    have hshape := shape_eq h
    cases w with
    | array ys =>
      rw [valueText, valueText, toList_nested_array, toList_nested_array] at h
      have items : ∀ x ∈ xs, ∀ y ∈ ys, Cancels isWordChar valueText x y := fun x hx y hy =>
        items_cancel xs x hx y fun a ha b hb => apart a (Value.doubles_item hx ha) b (Value.doubles_item hy hb)
      obtain ⟨rfl, hrest⟩ := listed_cancel rfl rfl (by decide) items bracket_ne_valueText (List.cons.inj h).2
      exact ⟨rfl, hrest⟩
    | null | bool | number | string | object => cases hshape
  | .object es, w, apart => by
    intro r r' hr hr' h
    have hshape := shape_eq h
    cases w with
    | object fs =>
      rw [valueText, valueText, toList_nested_object, toList_nested_object] at h
      have entries : ∀ e ∈ es, ∀ f ∈ fs, Cancels isWordChar entryText e f := fun e he f hf =>
        entries_cancel es e he f fun a ha b hb => apart a (Value.doubles_entry he ha) b (Value.doubles_entry hf hb)
      obtain ⟨rfl, hrest⟩ := listed_cancel rfl rfl (by decide) entries brace_ne_entryText (List.cons.inj h).2
      exact ⟨rfl, hrest⟩
    | null | bool | number | string | array => cases hshape

theorem items_cancel : (xs : List Value) → ∀ x ∈ xs, ∀ y : Value, x.DoublesApart y →
    Cancels isWordChar valueText x y
  | [], _, hx => by cases hx
  | x :: xs, z, hz => by
    rcases List.mem_cons.mp hz with heq | hin
    · rw [heq]
      exact nested_cancels x
    · exact items_cancel xs z hin

theorem entries_cancel : (es : List (String × Value)) → ∀ e ∈ es, ∀ f : String × Value, e.2.DoublesApart f.2 →
    Cancels isWordChar entryText e f
  | [], _, he => by cases he
  | (k, x) :: es, e, he => by
    rcases List.mem_cons.mp he with heq | hin
    · rw [heq]
      exact fun f apart => entryText_cancels (nested_cancels x f.2 apart)
    · exact entries_cancel es e hin

end

/-- Two values are written the same way inside a list or a mapping only if they are the same value, order of keys
    included, given that doubles of different values have different texts. -/
theorem nested_unambiguous {v w : Value} (apart : v.DoublesApart w) : nested v = nested w ↔ v = w := by
  constructor
  · intro h
    exact (nested_cancels v w apart [] [] (Text.stops_nil _) (Text.stops_nil _) (by rw [valueText, h, valueText])).1
  · rintro rfl
    rfl

def joined : Value := .array [.string "a', 'b", .object [("\\n", .number (.float 0.5))]]

def parted : Value := .array [.string "a", .string "b", .object [("\n", .number (.float 0.5))]]

theorem nested_joined_ne_parted : joined.DoublesApart parted ∧ nested joined ≠ nested parted := by
  have apart : joined.DoublesApart parted := by
    intro x hx y hy _
    simp only [joined, parted, Value.doubles, Value.doublesItems, Value.doublesEntries, List.nil_append,
      List.append_nil, List.mem_singleton] at hx hy
    rw [hx, hy]
  have different : joined ≠ parted := by simp [joined, parted]
  exact ⟨apart, fun h => different ((nested_unambiguous apart).mp h)⟩

end Sheet

end AddressMap
