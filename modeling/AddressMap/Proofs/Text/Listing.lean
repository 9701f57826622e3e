import Mathlib.Data.List.Basic

set_option autoImplicit false

/-!
When a text is known to end at a certain place, whatever follows it, it can be taken off the front of two equal
texts. That holds of a word in front of a character that no word has, of an escaped text in front of its closing
quote, and of a list in brackets as soon as it holds of the items.
-/

namespace AddressMap.Text

variable {α : Type} {r r' : List Char}

/-- A word of such characters does not go on here. -/
def Stops (p : Char → Bool) (rest : List Char) : Prop := ∀ c ∈ rest.head?, p c = false

theorem stops_nil (p : Char → Bool) : Stops p [] := fun _ hc => by cases hc

theorem stops_cons {p : Char → Bool} {c : Char} (h : p c = false) (rest : List Char) : Stops p (c :: rest) := by
  rintro d hd
  cases hd
  exact h

theorem takeWhile_word {p : Char → Bool} {word : List Char} (hword : ∀ c ∈ word, p c = true) (hr : Stops p r) :
    (word ++ r).takeWhile p = word := by
  rw [List.takeWhile_append_of_pos hword]
  cases r with
  | nil => exact List.append_nil word
  | cons c r => rw [List.takeWhile_cons_of_neg (by rw [hr c rfl]; exact Bool.false_ne_true), List.append_nil]

theorem word_cancel {p : Char → Bool} {word word' : List Char} (hword : ∀ c ∈ word, p c = true)
    (hword' : ∀ c ∈ word', p c = true) (hr : Stops p r) (hr' : Stops p r') (h : word ++ r = word' ++ r') :
    word = word' ∧ r = r' := by
  have same : word = word' := by rw [← takeWhile_word hword hr, h, takeWhile_word hword' hr']
  exact ⟨same, List.append_cancel_left (same ▸ h)⟩

/-- In front of what stops a word, the texts of `x` and `y` are told apart and end where they end. -/
def Cancels (p : Char → Bool) (f : α → List Char) (x y : α) : Prop :=
  ∀ r r', Stops p r → Stops p r' → f x ++ r = f y ++ r' → x = y ∧ r = r'

theorem flatMap_cancel {f : α → List Char} {close : Char}
    (hf : ∀ {x y : α} {r r' : List Char}, f x ++ r = f y ++ r' → x = y ∧ r = r')
    (hclose : ∀ {x : α} {r r' : List Char}, close :: r ≠ f x ++ r') {xs ys : List α}
    (h : xs.flatMap f ++ close :: r = ys.flatMap f ++ close :: r') : xs = ys ∧ r = r' := by
  induction xs generalizing ys with
  | nil =>
    cases ys with
    | nil => simpa using h
    | cons y ys =>
      rw [List.flatMap_nil, List.nil_append, List.flatMap_cons, List.append_assoc] at h
      exact absurd h hclose
  | cons x xs ih =>
    cases ys with
    | nil =>
      rw [List.flatMap_nil, List.nil_append, List.flatMap_cons, List.append_assoc] at h
      exact absurd h.symm hclose
    | cons y ys =>
      rw [List.flatMap_cons, List.append_assoc, List.flatMap_cons, List.append_assoc] at h
      obtain ⟨rfl, htail⟩ := hf h
      obtain ⟨rfl, hr⟩ := ih htail
      exact ⟨rfl, hr⟩

def listed (f : α → List Char) (close : Char) (gap : List Char) : List α → List Char
  | [] => [close]
  | x :: xs => gap ++ (f x ++ listed f close [',', ' '] xs)

theorem listed_cons (f : α → List Char) (close : Char) (gap : List Char) (x : α) (xs : List α) :
    listed f close gap (x :: xs) = gap ++ ([',', ' '].intercalate ((x :: xs).map f) ++ [close]) := by
  induction xs generalizing gap x with
  | nil => simp [listed]
  | cons y ys ih =>
    rw [listed, ih]
    simp [List.append_assoc]

theorem listed_eq (f : α → List Char) (close : Char) (xs : List α) :
    listed f close [] xs = [',', ' '].intercalate (xs.map f) ++ [close] := by
  cases xs with
  | nil => rfl
  | cons x xs => exact listed_cons f close [] x xs

section Listed

variable {p : Char → Bool} {f : α → List Char} {close : Char}

theorem stops_listed (hcomma : p ',' = false) (hclose : p close = false) (xs : List α) (r : List Char) :
    Stops p (listed f close [',', ' '] xs ++ r) := by
  cases xs with
  | nil => exact stops_cons hclose r
  | cons x xs => exact stops_cons hcomma _

/-- The induction goes through the gaps: behind the first item there is always a comma before the next. -/
theorem listed_cancel_behind (hcomma : p ',' = false) (hclose : p close = false) (hne : close ≠ ',')
    {xs ys : List α} (hitem : ∀ x ∈ xs, ∀ y ∈ ys, Cancels p f x y) {gap : List Char}
    (hgap : ∀ x r r', close :: r ≠ gap ++ (f x ++ r'))
    (h : listed f close gap xs ++ r = listed f close gap ys ++ r') : xs = ys ∧ r = r' := by
  induction xs generalizing ys gap with
  | nil =>
    cases ys with
    | nil => exact ⟨rfl, by simpa [listed] using h⟩
    | cons y ys =>
      simp only [listed, List.cons_append, List.nil_append, List.append_assoc] at h
      exact absurd h (hgap y _ _)
  | cons x xs ih =>
    cases ys with
    | nil =>
      simp only [listed, List.cons_append, List.nil_append, List.append_assoc] at h
      exact absurd h.symm (hgap x _ _)
    | cons y ys =>
      simp only [listed, List.append_assoc, List.append_cancel_left_eq] at h
      obtain ⟨rfl, htail⟩ := hitem x List.mem_cons_self y List.mem_cons_self _ _
        (stops_listed hcomma hclose xs r) (stops_listed hcomma hclose ys r') h
      have behind : ∀ x r r', close :: r ≠ [',', ' '] ++ (f x ++ r') := fun _ _ _ heq => hne (List.cons.inj heq).1
      obtain ⟨rfl, hr⟩ := ih (fun a ha b hb => hitem a (List.mem_cons_of_mem _ ha) b (List.mem_cons_of_mem _ hb))
        behind htail
      exact ⟨rfl, hr⟩

/-- A list ends at its closing character if no item starts with it and the items end where they end. -/
theorem listed_cancel (hcomma : p ',' = false) (hclose : p close = false) (hne : close ≠ ',')
    {xs ys : List α} (hitem : ∀ x ∈ xs, ∀ y ∈ ys, Cancels p f x y) (hstart : ∀ x r r', close :: r ≠ f x ++ r')
    (h : listed f close [] xs ++ r = listed f close [] ys ++ r') : xs = ys ∧ r = r' := by
  have first : ∀ x r r', close :: r ≠ [] ++ (f x ++ r') := hstart
  exact listed_cancel_behind hcomma hclose hne hitem first h

end Listed

end AddressMap.Text
