import AddressMap.Expr
import Mathlib.Algebra.Order.Ring.Nat

set_option autoImplicit false

namespace AddressMap.Expr

theorem isDigit_range {c : Char} (h : c.isDigit = true) : 48 ≤ c.toNat ∧ c.toNat ≤ 57 := by
  simp only [Char.isDigit, Bool.and_eq_true, decide_eq_true_eq] at h
  exact ⟨h.1, h.2⟩

theorem not_isBlank_of_isDigit {c : Char} (h : c.isDigit = true) : Text.isBlank c = false := by
  have hrange := isDigit_range h
  simp [Text.isBlank]
  omega

theorem ne_of_isDigit {c d : Char} (hc : c.isDigit = true) (hd : d.isDigit = false) : c ≠ d := by
  rintro rfl
  rw [hc] at hd
  cases hd

theorem numberText_digits {ds rest : List Char} (hds : ∀ d ∈ ds, d.isDigit = true)
    (hrest : ∀ c ∈ rest.head?, isNumberChar c = false) : numberText false (ds ++ rest) = ds := by
  induction ds with
  | nil =>
    cases rest with
    | nil => rfl
    | cons c rest =>
      have hc := hrest c rfl
      cases rest with
      | nil => simp [numberText, hc]
      | cons s more => simp [numberText, hc]
  | cons d ds ih =>
    have hd := hds d List.mem_cons_self
    have hchar : isNumberChar d = true := by simp [isNumberChar, Char.isAlphanum, hd]
    have hexponent : (d == 'e' || d == 'E') = false := by
      simp [ne_of_isDigit hd (d := 'e') (by decide), ne_of_isDigit hd (d := 'E') (by decide)]
    have hradix : isRadixMark d = false := by
      simp [isRadixMark, ne_of_isDigit hd (d := 'x') (by decide), ne_of_isDigit hd (d := 'X') (by decide),
        ne_of_isDigit hd (d := 'b') (by decide), ne_of_isDigit hd (d := 'B') (by decide),
        ne_of_isDigit hd (d := 'o') (by decide), ne_of_isDigit hd (d := 'O') (by decide)]
    have tail := ih fun c hc => hds c (List.mem_cons_of_mem _ hc)
    rw [List.cons_append]
    cases hmore : ds ++ rest with
    | nil =>
      rw [(List.append_eq_nil_iff.mp hmore).1]
      simp [numberText, hchar]
    | cons s more =>
      rw [hmore] at tail
      simp [numberText, hchar, hexponent, hradix, tail]

theorem digitValue_lt {c : Char} (h : c.isDigit = true) : digitValue c < 10 := by
  have hrange := isDigit_range h
  have hzero : '0'.toNat = 48 := rfl
  rw [digitValue, if_pos h]
  omega

theorem foldl_digits {ds : List Char} (hds : ∀ d ∈ ds, d.isDigit = true) (n : Nat) :
    ds.foldl (fun (m : Int) c => (10 : Nat) * m + digitValue c) n = Nat.ofDigitChars 10 ds n := by
  induction ds generalizing n with
  | nil => rfl
  | cons d ds ih =>
    have hd : digitValue d = d.toNat - '0'.toNat := if_pos (hds d List.mem_cons_self)
    rw [List.foldl_cons, Nat.ofDigitChars_cons, ← ih fun c hc => hds c (List.mem_cons_of_mem _ hc), hd,
      Int.natCast_add, Int.natCast_mul]

theorem isDigit_of_mem_toDigits {n : Nat} : ∀ d ∈ Nat.toDigits 10 n, d.isDigit = true := fun _ hd =>
  Nat.isDigit_of_mem_toDigits (by decide) (by decide) hd

theorem integer?_toDigits (n : Nat) :
    integer? 10 (Nat.toDigits 10 n) = if Scalar.fits n then some (n : Int) else none := by
  have hvalue := foldl_digits (isDigit_of_mem_toDigits (n := n)) 0
  rw [Nat.ofDigitChars_ten_toDigits] at hvalue
  have hall : (Nat.toDigits 10 n).all (fun c => (c.isDigit || c.isLower) && digitValue c < 10) = true := by
    rw [List.all_eq_true]
    intro d hd
    have hdigit := isDigit_of_mem_toDigits d hd
    simp [hdigit, digitValue_lt hdigit]
  have hempty : (Nat.toDigits 10 n).isEmpty = false := by simp [Nat.toDigits_ne_nil]
  unfold integer?
  rw [hempty, hall]
  change (if Scalar.fits (List.foldl _ ((0 : Nat) : Int) _) = true
    then some (List.foldl _ ((0 : Nat) : Int) _) else none) = _
  rw [hvalue]

theorem toLower_of_isDigit {c : Char} (h : c.isDigit = true) : c.toLower = c := by
  have hrange := isDigit_range h
  refine dif_neg fun hupper => ?_
  have hlow : 'A'.toNat ≤ c.toNat := hupper.1
  have hA : 'A'.toNat = 65 := rfl
  omega

theorem number?_toDigits (n : Nat) :
    number? (Nat.toDigits 10 n) = if Scalar.fits n then some (.int n) else none := by
  have hlower : (Nat.toDigits 10 n).map Char.toLower = Nat.toDigits 10 n := by
    refine (List.map_congr_left fun c hc => ?_).trans (List.map_id _)
    exact toLower_of_isDigit (isDigit_of_mem_toDigits c hc)
  have absent : ∀ c, c.isDigit = false → c ∉ Nat.toDigits 10 n := fun c hc hmem =>
    ne_of_isDigit (isDigit_of_mem_toDigits c hmem) hc rfl
  unfold number?
  rw [hlower]
  split
  · rename_i ds heq
    exact absurd (heq ▸ by simp) (absent 'x' (by decide))
  · rename_i ds heq
    exact absurd (heq ▸ by simp) (absent 'o' (by decide))
  · rename_i ds heq
    exact absurd (heq ▸ by simp) (absent 'b' (by decide))
  · have hpoint := absent '.' (by decide)
    have hexponent := absent 'e' (by decide)
    simp only [List.contains_iff_mem, hpoint, hexponent, Bool.or_eq_true, or_self, if_false, integer?_toDigits]
    split <;> rfl

theorem lexeme_toDigits {n : Nat} {d : Char} {ds rest : List Char} (hd : Nat.toDigits 10 n = d :: ds)
    (hrest : ∀ c ∈ rest.head?, isNumberChar c = false) : lexeme d (ds ++ rest) =
      if Scalar.fits n then .ok (.int n, ⟨rest, by simp⟩) else .error (.invalidNumber (toString n)) := by
  have hdigits : ∀ c ∈ d :: ds, c.isDigit = true := hd ▸ isDigit_of_mem_toDigits
  have more := numberText_digits (fun c hc => hdigits c (List.mem_cons_of_mem _ hc)) hrest
  have plain : (d :: ds).filter (· != '_') = d :: ds := by
    refine List.filter_eq_self.mpr fun c hc => ?_
    simpa using ne_of_isDigit (hdigits c hc) (d := '_') (by decide)
  have read := number?_toDigits n
  have text : String.ofList (d :: ds) = toString n := by rw [Nat.toString_eq_ofList_toDigits, hd]
  rw [hd] at read
  simp only [lexeme, startsNumber, hdigits d List.mem_cons_self, Bool.true_or, if_true, more, plain, read, text,
    List.drop_left]
  split
  · rename_i t heq
    split at heq
    · rename_i hfits
      cases heq
      rw [if_pos hfits]
    · cases heq
  · rename_i heq
    split at heq
    · cases heq
    · rename_i hfits
      rw [if_neg hfits]

theorem tokens_digits (n : Nat) {rest : List Char} (hrest : ∀ c ∈ rest.head?, isNumberChar c = false) :
    tokens (Nat.toDigits 10 n ++ rest) =
      if Scalar.fits n then (tokens rest).map (.int n :: ·) else .error (.invalidNumber (toString n)) := by
  obtain ⟨d, ds, hd⟩ := List.exists_cons_of_ne_nil (Nat.toDigits_ne_nil (b := 10) (n := n))
  have hfirst : d.isDigit = true := isDigit_of_mem_toDigits d (hd ▸ List.mem_cons_self)
  rw [hd, List.cons_append, tokens, not_isBlank_of_isDigit hfirst, if_neg Bool.false_ne_true, lexeme_toDigits hd hrest]
  cases Scalar.fits n with
  | true => rfl
  | false => rfl

theorem tokens_natural (n : Nat) : tokens (Nat.toDigits 10 n) =
    if Scalar.fits n then .ok [.int n] else .error (.invalidNumber (toString n)) := by
  have last : ∀ c ∈ ([] : List Char).head?, isNumberChar c = false := fun _ hc => by cases hc
  have cut := tokens_digits n last
  rw [List.append_nil] at cut
  rw [cut, tokens]
  rfl

theorem tokens_toDigits {n : Nat} (h : Scalar.fits n = true) {rest : List Char}
    (hrest : ∀ c ∈ rest.head?, isNumberChar c = false) :
    tokens (Nat.toDigits 10 n ++ rest) = (tokens rest).map (.int n :: ·) := by
  rw [tokens_digits n hrest, if_pos h]

theorem isLower_range {c : Char} (h : c.isLower = true) : 97 ≤ c.toNat ∧ c.toNat ≤ 122 := by
  obtain ⟨low, high⟩ := Bool.and_eq_true_iff.mp h
  exact ⟨of_decide_eq_true low, of_decide_eq_true high⟩

theorem not_isBlank_of_isLower {c : Char} (h : c.isLower = true) : Text.isBlank c = false := by
  have hrange := isLower_range h
  simp [Text.isBlank]
  omega

theorem startsNumber_of_isLower {c : Char} (h : c.isLower = true) (rest : List Char) :
    startsNumber c rest = false := by
  have hrange := isLower_range h
  have hdigit : c.isDigit = false := by
    cases hd : c.isDigit with
    | false => rfl
    | true =>
      have hrange' := isDigit_range hd
      omega
  have hpoint : c ≠ '.' := by
    rintro rfl
    exact absurd h (by decide)
  simp [startsNumber, hdigit, hpoint]

theorem tokens_variable {c : Char} {ds : List Char} (hc : c.isLower = true)
    (hds : ∀ d ∈ ds, d.isDigit = true) {rest : List Char}
    (hrest : ∀ d ∈ rest.head?, isNameChar d = false) :
    tokens (c :: ds ++ rest) = (tokens rest).map (.name (String.ofList (c :: ds)) :: ·) := by
  have halpha : Text.isAlphabetic c = true :=
    Text.isAlphabetic_of_isAlpha (Bool.or_eq_true_iff.mpr (.inr hc))
  have hname : ∀ d ∈ ds, isNameChar d = true := by
    intro d hd
    simp [isNameChar, Text.isAlphanumeric, Char.isAlphanum, hds d hd]
  have hstop : rest.takeWhile isNameChar = [] := by
    cases rest with
    | nil => rfl
    | cons d rest => simp [hrest d rfl]
  have more : (ds ++ rest).takeWhile isNameChar = ds := by
    rw [List.takeWhile_append_of_pos hname, hstop, List.append_nil]
  have lexed : lexeme c (ds ++ rest) = .ok (.name (String.ofList (c :: ds)), ⟨rest, by simp⟩) := by
    simp only [lexeme, startsNumber_of_isLower hc, halpha, Bool.false_eq_true, if_false, Bool.true_or,
      if_true, more, List.drop_left]
  rw [List.cons_append, tokens, not_isBlank_of_isLower hc, lexed]
  rfl

theorem tokens_plus (rest : List Char) : tokens ('+' :: rest) = (tokens rest).map (.op .add :: ·) := by
  rw [tokens]
  rfl

theorem tokens_minus (rest : List Char) : tokens ('-' :: rest) = (tokens rest).map (.op .sub :: ·) := by
  rw [tokens]
  rfl

theorem tokens_star {c : Char} (h : c ≠ '*') (rest : List Char) :
    tokens ('*' :: c :: rest) = (tokens (c :: rest)).map (.op .mul :: ·) := by
  have operator : operator? ('*' :: c :: rest) = some (.op .mul, 1) := by
    unfold operator?
    split <;> simp_all
  have lexed : lexeme '*' (c :: rest) = .ok (.op .mul, ⟨c :: rest, by simp⟩) := by
    unfold lexeme
    rw [if_neg (by simp [startsNumber]), if_neg (by decide), if_neg (by decide), if_neg (by decide),
      if_neg (by decide)]
    rw [operator]
    rfl
  rw [tokens, lexed]
  rfl

end AddressMap.Expr
