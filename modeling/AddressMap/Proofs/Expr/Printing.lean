import AddressMap.Proofs.Expr.Phrase

set_option autoImplicit false

namespace AddressMap.Expr

def prefixToken : UnaryOp → Token
  | .plus => .op .add
  | .minus => .op .sub
  | .invert => .tilde

/-- The place left of an operator. Only `**` does not take a tree of its own strength there. -/
def leftPlace (o : BinaryOp) : Nat :=
  match level? o with
  | some level => level
  | none => levels + 2

def rightPlace (o : BinaryOp) : Nat :=
  match level? o with
  | some level => level + 1
  | none => levels

def enclose (ts : List Token) : List Token := .opening :: ts ++ [.closing]

/-- The tokens of a tree at a place, in parentheses if the tree is looser than the place. -/
def print (place : Nat) : Expr → List Token
  | .int i => [.int i]
  | .float x => [.float x]
  | .text s => [.text s]
  | .name s => [.name s]
  | .unary o e =>
    let ts := prefixToken o :: print levels e
    if levels < place then enclose ts else ts
  | .binary o l r =>
    let ts := print (leftPlace o) l ++ .op o :: print (rightPlace o) r
    if strength o < place then enclose ts else ts

theorem prefixOp?_prefixToken (o : UnaryOp) : prefixOp? (prefixToken o) = some o := by
  cases o <;> rfl

theorem strength_of_level?_eq_none {o : BinaryOp} (h : level? o = none) : o = .pow := by
  cases o <;> simp [level?] at h ⊢

theorem phrase_enclose {level place : Nat} {e : Expr} {ts : List Token} (h : Phrase level e ts)
    (hplace : place ≤ levels + 2) :
    Phrase place e (if level < place then enclose ts else ts) := by
  split
  · exact (Phrase.parens (h.mono (Nat.zero_le _))).mono hplace
  · rename_i hle
    exact h.mono (Nat.not_lt.mp hle)

theorem phrase_binary {o : BinaryOp} {l r : Expr} {ts us : List Token} (hl : Phrase (leftPlace o) l ts)
    (hr : Phrase (rightPlace o) r us) : Phrase (strength o) (.binary o l r) (ts ++ .op o :: us) := by
  cases ho : level? o with
  | none =>
    obtain rfl := strength_of_level?_eq_none ho
    exact .power hl hr
  | some level =>
    simp only [leftPlace, ho] at hl
    simp only [rightPlace, ho] at hr
    rw [strength_of_level? ho]
    exact .binary ho hl hr

theorem places_le (o : BinaryOp) : leftPlace o ≤ levels + 2 ∧ rightPlace o ≤ levels + 2 := by
  cases o <;> decide

theorem phrase_print (e : Expr) {place : Nat} (h : place ≤ levels + 2) :
    Phrase place e (print place e) := by
  induction e generalizing place with
  | int i => exact (Phrase.int i).mono h
  | float x => exact (Phrase.float x).mono h
  | text s => exact (Phrase.text s).mono h
  | name s => exact (Phrase.name s).mono h
  | unary o e ih =>
    exact phrase_enclose (.unary (prefixOp?_prefixToken o) (ih (by decide))) h
  | binary o l r ihl ihr =>
    exact phrase_enclose (phrase_binary (ihl (places_le o).1) (ihr (places_le o).2)) h

def Parted (rest : List Char) : Prop := ∀ c ∈ rest.head?, Text.isBlank c = true

theorem ne_of_isBlank {c d : Char} (hc : Text.isBlank c = true) (hd : Text.isBlank d = false) : c ≠ d := by
  rintro rfl
  rw [hc] at hd
  cases hd

theorem not_isNumberChar_of_isBlank {c : Char} (h : Text.isBlank c = true) : isNumberChar c = false := by
  have alnum := Text.isAlphanumeric_of_isBlank h
  rw [Text.isAlphanumeric, Bool.or_eq_false_iff] at alnum
  simp [isNumberChar, alnum.1, ne_of_isBlank h (d := '_') (by decide), ne_of_isBlank h (d := '.') (by decide)]

theorem not_isNameChar_of_isBlank {c : Char} (h : Text.isBlank c = true) : isNameChar c = false := by
  simp [isNameChar, Text.isAlphanumeric_of_isBlank h, ne_of_isBlank h (d := '_') (by decide)]

variable {cs rest : List Char}

theorem Parted.numberText (h : Parted rest) (radix : Bool) : numberText radix rest = [] := by
  cases rest with
  | nil => rfl
  | cons b more =>
    have hb := not_isNumberChar_of_isBlank (h b rfl)
    cases more with
    | nil => simp [Expr.numberText, hb]
    | cons s more => simp [Expr.numberText, hb]

theorem numberText_append (h : Parted rest) (radix : Bool) (cs : List Char) :
    numberText radix (cs ++ rest) = numberText radix cs := by
  fun_induction numberText radix cs with
  | case1 radix => exact h.numberText radix
  | case2 radix c hc =>
    cases rest with
    | nil => simp [numberText, hc]
    | cons b more =>
      have hb := h b rfl
      have tail := h.numberText (radix || isRadixMark c)
      simp [numberText, hc, tail, ne_of_isBlank hb (d := '+') (by decide),
        ne_of_isBlank hb (d := '-') (by decide)]
  | case3 radix c hc =>
    cases rest with
    | nil => simp [numberText, hc]
    | cons b more => simp [numberText, hc]
  | case4 radix c s more hc radix' hsign ih =>
    simp only [List.cons_append, numberText, hc, if_true]
    rw [if_pos hsign, ih]
  | case5 radix c s more hc radix' hsign ih =>
    simp only [List.cons_append, numberText, hc, if_true]
    rw [if_neg hsign]
    exact congrArg (c :: ·) ih
  | case6 radix c s more hc => simp [numberText, hc]

theorem length_numberText_le (radix : Bool) (cs : List Char) : (numberText radix cs).length ≤ cs.length := by
  fun_induction numberText radix cs <;> simp_all

theorem takeWhile_append_parted {p : Char → Bool} (hp : ∀ c, Text.isBlank c = true → p c = false)
    (h : Parted rest) : (cs ++ rest).takeWhile p = cs.takeWhile p := by
  rw [List.takeWhile_append]
  split
  · rename_i hall
    have stop : rest.takeWhile p = [] := by
      cases rest with
      | nil => rfl
      | cons b more => simp [hp b (h b rfl)]
    rw [stop, List.append_nil]
    exact ((List.takeWhile_prefix p).eq_of_length hall).symm
  · rfl

theorem operator?_star (h : ∀ tail, cs ≠ '*' :: tail) : operator? ('*' :: cs) = some (.op .mul, 1) := by
  unfold operator?
  split <;> simp_all

theorem operator?_slash (h : ∀ tail, cs ≠ '/' :: tail) : operator? ('/' :: cs) = some (.op .div, 1) := by
  unfold operator?
  split <;> simp_all

theorem Parted.append_ne (h : Parted rest) {d : Char} (hd : Text.isBlank d = false)
    (hcs : ∀ tail, cs ≠ d :: tail) (tail : List Char) : cs ++ rest ≠ d :: tail := by
  cases cs with
  | nil =>
    rintro rfl
    exact ne_of_isBlank (h d rfl) hd rfl
  | cons c cs =>
    intro heq
    cases heq
    exact hcs cs rfl

theorem operator?_append (h : Parted rest) {c : Char} {t : Token} {n : Nat}
    (ht : operator? (c :: cs) = some (t, n)) :
    operator? (c :: (cs ++ rest)) = some (t, n) ∧ n - 1 ≤ cs.length := by
  unfold operator? at ht
  split at ht
  case h_7 hne heq =>
    cases heq
    cases ht
    exact ⟨operator?_star (h.append_ne (by decide) hne), Nat.zero_le _⟩
  case h_8 hne heq =>
    cases heq
    cases ht
    exact ⟨operator?_slash (h.append_ne (by decide) hne), Nat.zero_le _⟩
  case h_14 => cases ht
  all_goals
    rename_i heq
    cases heq
    cases ht
    exact ⟨rfl, by simp⟩

theorem startsNumber_append (h : Parted rest) (c : Char) : startsNumber c (cs ++ rest) = startsNumber c cs := by
  cases cs with
  | cons d cs => rfl
  | nil =>
    cases rest with
    | nil => rfl
    | cons b more =>
      have alnum := Text.isAlphanumeric_of_isBlank (h b rfl)
      simp only [Text.isAlphanumeric, Char.isAlphanum, Bool.or_eq_false_iff] at alnum
      simp [startsNumber, alnum.1.2]

theorem lexeme_append (h : Parted rest) {c : Char} {t : Token}
    {after : { after : List Char // after.length ≤ cs.length }} (ht : lexeme c cs = .ok (t, after)) :
    ∃ hlt, lexeme c (cs ++ rest) = .ok (t, ⟨after.1 ++ rest, hlt⟩) := by
  have hlt : (after.1 ++ rest).length ≤ (cs ++ rest).length := by
    simp [after.2]
  refine ⟨hlt, ?_⟩
  have dropped : ∀ {n}, n ≤ cs.length → (cs ++ rest).drop n = cs.drop n ++ rest :=
    fun hn => List.drop_append_of_le_length hn
  have named : (cs ++ rest).takeWhile isNameChar = cs.takeWhile isNameChar :=
    takeWhile_append_parted (fun _ => not_isNameChar_of_isBlank) h
  unfold lexeme at ht ⊢
  rw [startsNumber_append h]
  dsimp only at ht ⊢
  by_cases hnumber : startsNumber c cs = true
  · rw [if_pos hnumber] at ht ⊢
    split at ht
    · rename_i t' htext
      cases ht
      simp only [numberText_append h, htext, dropped (length_numberText_le _ _)]
    · cases ht
  rw [if_neg hnumber] at ht ⊢
  by_cases hname : (Text.isAlphabetic c || c == '_') = true
  · rw [if_pos hname] at ht ⊢
    cases ht
    simp only [named, dropped (List.takeWhile_prefix isNameChar).length_le]
  rw [if_neg hname] at ht ⊢
  by_cases hquote : (c == '"' || c == '\'') = true
  · rw [if_pos hquote] at ht ⊢
    split at ht
    · rename_i hclosed
      have quoted : (cs ++ rest).takeWhile (· != c) = cs.takeWhile (· != c) := by
        rw [List.takeWhile_append, if_neg (Nat.ne_of_lt hclosed)]
      cases ht
      simp only [quoted, dropped hclosed]
      rw [if_pos (by rw [List.length_append]; omega)]
    · cases ht
  rw [if_neg hquote] at ht ⊢
  by_cases hopen : (c == '(') = true
  · rw [if_pos hopen] at ht ⊢
    cases ht
    rfl
  rw [if_neg hopen] at ht ⊢
  by_cases hclose : (c == ')') = true
  · rw [if_pos hclose] at ht ⊢
    cases ht
    rfl
  rw [if_neg hclose] at ht ⊢
  split at ht
  · rename_i t' n hop
    obtain ⟨hop', hn⟩ := operator?_append h hop
    cases ht
    simp only [hop', dropped hn]
  · cases ht

theorem tokens_parted (h : Parted rest) {ts : List Token} (ht : tokens cs = .ok ts) :
    tokens (cs ++ rest) = (tokens rest).map (ts ++ ·) := by
  fun_induction tokens cs generalizing ts with
  | case1 =>
    cases ht
    cases hrest : tokens rest <;> simp [hrest, Except.map]
  | case2 c cs hc ih =>
    rw [List.cons_append, tokens, if_pos hc]
    exact ih ht
  | case3 c cs hc fault hlex => cases ht
  | case4 c cs hc t after hlex ih =>
    obtain ⟨us, hus, rfl⟩ := map_eq_ok.mp ht
    obtain ⟨_, hlex'⟩ := lexeme_append h hlex
    rw [List.cons_append, tokens, if_neg hc, hlex']
    dsimp only
    rw [ih hus]
    cases tokens rest <;> rfl

theorem tokens_blanks {gap : List Char} (h : ∀ c ∈ gap, Text.isBlank c = true) (rest : List Char) :
    tokens (gap ++ rest) = tokens rest := by
  induction gap with
  | nil => rfl
  | cons c gap ih =>
    rw [List.cons_append, tokens, if_pos (h c List.mem_cons_self)]
    exact ih fun d hd => h d (List.mem_cons_of_mem _ hd)

/-- A text that spells the tokens one by one, with white space between them. -/
inductive Spelled : List Token → List Char → Prop
  | last {t : Token} {cs : List Char} (h : tokens cs = .ok [t]) : Spelled [t] cs
  | more {t : Token} {ts : List Token} {cs gap rest : List Char} (h : tokens cs = .ok [t])
      (hne : gap ≠ []) (hgap : ∀ c ∈ gap, Text.isBlank c = true) (hrest : Spelled ts rest) :
      Spelled (t :: ts) (cs ++ (gap ++ rest))

theorem Spelled.tokens_eq {ts : List Token} (h : Spelled ts cs) : tokens cs = .ok ts := by
  induction h with
  | last h => exact h
  | @more t ts cs gap rest h hne hgap _ ih =>
    have parted : Parted (gap ++ rest) := by
      intro c hc
      obtain ⟨d, gap, rfl⟩ := List.exists_cons_of_ne_nil hne
      cases hc
      exact hgap _ List.mem_cons_self
    rw [tokens_parted parted h, tokens_blanks hgap, ih]
    rfl

theorem value_ofTree (source : String) (env : Env) (e : Expr) :
    (value source env).ofTree e = e.eval env := by
  induction e with
  | int i => rfl
  | float x => rfl
  | text s => rfl
  | name s => rfl
  | unary o e ih =>
    rw [Meaning.ofTree, ih]
    rfl
  | binary o l r ihl ihr =>
    rw [Meaning.ofTree, ihl, ihr]
    rfl

theorem evaluate_of_phrase {source : String} {ts : List Token} {e : Expr}
    (ht : tokens source.toList = .ok ts) (he : Phrase 0 e ts) (env : Env) :
    evaluate source env = e.eval env := by
  rw [evaluate, readText, ht]
  exact (readAll_of_phrase he).trans (value_ofTree source env e)

theorem evaluate_eq_ok {source : String} {env : Env} {x : Scalar} : evaluate source env = .ok x ↔
    ∃ ts e, tokens source.toList = .ok ts ∧ Phrase 0 e ts ∧ e.eval env = .ok x := by
  constructor
  · intro h
    rw [evaluate, readText] at h
    split at h
    · cases h
    · rename_i ts ht
      obtain ⟨e, he, hx⟩ := readAll_eq_ok.mp h
      exact ⟨ts, e, ht, he, (value_ofTree source env e).symm.trans hx⟩
  · rintro ⟨ts, e, ht, he, hx⟩
    rw [evaluate_of_phrase ht he, hx]

/-- The values of a text are those of the trees that its tokens spell. The text of a printed tree, in
    whichever spelling, evaluates to what the tree evaluates to, be it a value or an error. -/
theorem evaluate_spells_trees (source : String) (env : Env) :
    (∀ x, evaluate source env = .ok x ↔
      ∃ ts e, tokens source.toList = .ok ts ∧ Phrase 0 e ts ∧ e.eval env = .ok x) ∧
    ∀ e, Spelled (print 0 e) source.toList → evaluate source env = e.eval env := by
  refine ⟨fun _ => evaluate_eq_ok, fun e hspelled => ?_⟩
  exact evaluate_of_phrase hspelled.tokens_eq (phrase_print e (Nat.zero_le _)) env

theorem tokens_lexeme {c : Char} {t : Token} (hc : Text.isBlank c = false)
    (h : lexeme c cs = .ok (t, ⟨[], Nat.zero_le _⟩)) : tokens (c :: cs) = .ok [t] := by
  rw [tokens, hc, if_neg Bool.false_ne_true, h]
  dsimp only
  rw [tokens]
  rfl

/-- The sign stands outside the power, and the sum needs its parentheses. -/
def negatedPower : Expr :=
  .unary .minus (.binary .pow (.int 2) (.binary .add (.name "True") (.int 1)))

theorem evaluate_negatedPower : Spelled (print 0 negatedPower) "- 2 ** ( True +  0x1 )".toList ∧
    evaluate "- 2 ** ( True +  0x1 )" [] = .ok (.int (-4)) := by
  have space : ∀ c ∈ [' '], Text.isBlank c = true := List.forall_mem_singleton.mpr rfl
  have spaces : ∀ c ∈ [' ', ' '], Text.isBlank c = true := List.forall_mem_cons.mpr ⟨rfl, space⟩
  have minus : tokens ['-'] = .ok [.op .sub] := tokens_lexeme rfl rfl
  have two : tokens ['2'] = .ok [.int 2] := tokens_lexeme rfl rfl
  have pow : tokens ['*', '*'] = .ok [.op .pow] := tokens_lexeme rfl rfl
  have opening : tokens ['('] = .ok [.opening] := tokens_lexeme rfl rfl
  have true : tokens ['T', 'r', 'u', 'e'] = .ok [.name "True"] := tokens_lexeme rfl rfl
  have plus : tokens ['+'] = .ok [.op .add] := tokens_lexeme rfl rfl
  have one : tokens ['0', 'x', '1'] = .ok [.int 1] := tokens_lexeme rfl rfl
  have closing : tokens [')'] = .ok [.closing] := tokens_lexeme rfl rfl
  have gap : ∀ {c : Char} {cs : List Char}, c :: cs ≠ [] := List.cons_ne_nil _ _
  have spelled : Spelled (print 0 negatedPower) "- 2 ** ( True +  0x1 )".toList :=
    .more minus gap space <| .more two gap space <| .more pow gap space <| .more opening gap space <|
    .more true gap space <| .more plus gap spaces <| .more one gap space <| .last closing
  exact ⟨spelled, ((evaluate_spells_trees _ _).2 _ spelled).trans rfl⟩

end AddressMap.Expr
