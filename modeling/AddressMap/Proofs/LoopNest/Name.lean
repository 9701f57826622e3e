import AddressMap.Record.LoopNest

set_option autoImplicit false

namespace AddressMap.LoopNest

theorem variableName_of_le {level : Nat} (h : level ≤ 13) :
    (variableName level).toList = [Char.ofNat ('n'.toNat - level)] := by
  rw [variableName, if_pos h, String.toList_ofList]

theorem variableName_of_lt {level : Nat} (h : 13 < level) :
    (variableName level).toList = 'i' :: Nat.toDigits 10 level := by
  rw [variableName, if_neg (Nat.not_le.mpr h)]
  simp only [String.toList_append, Nat.toString_eq_ofList_toDigits, String.toList_ofList]
  rfl

theorem variableName_toList (level : Nat) : ∃ c ds, (variableName level).toList = c :: ds ∧
    c.isLower = true ∧ ∀ d ∈ ds, d.isDigit = true := by
  by_cases h : level ≤ 13
  · have letters : ∀ k ≤ 13, (Char.ofNat ('n'.toNat - k)).isLower = true := by decide
    exact ⟨_, [], variableName_of_le h, letters level h, by simp⟩
  · refine ⟨'i', _, variableName_of_lt (Nat.not_le.mp h), by decide, ?_⟩
    intro d hd
    exact Nat.isDigit_of_mem_toDigits (by decide) (by decide) hd

theorem plain_variableName (level : Nat) :
    '[' ∉ (variableName level).toList ∧ ']' ∉ (variableName level).toList := by
  obtain ⟨c, ds, heq, hc, hds⟩ := variableName_toList level
  rw [heq]
  constructor
  · intro hmem
    rcases List.mem_cons.mp hmem with rfl | hmem
    · exact absurd hc (by decide)
    · exact absurd (hds _ hmem) (by decide)
  · intro hmem
    rcases List.mem_cons.mp hmem with rfl | hmem
    · exact absurd hc (by decide)
    · exact absurd (hds _ hmem) (by decide)

theorem variableName_injective {i j : Nat} (h : variableName i = variableName j) : i = j := by
  have hlist := congrArg String.toList h
  by_cases hi : i ≤ 13
  · by_cases hj : j ≤ 13
    · rw [variableName_of_le hi, variableName_of_le hj] at hlist
      have letters : ∀ a ≤ 13, ∀ b ≤ 13,
          Char.ofNat ('n'.toNat - a) = Char.ofNat ('n'.toNat - b) → a = b := by decide
      exact letters i hi j hj (List.singleton_inj.mp hlist)
    · rw [variableName_of_le hi, variableName_of_lt (Nat.not_le.mp hj)] at hlist
      exact absurd (List.cons.inj hlist).2.symm Nat.toDigits_ne_nil
  · by_cases hj : j ≤ 13
    · rw [variableName_of_lt (Nat.not_le.mp hi), variableName_of_le hj] at hlist
      exact absurd (List.cons.inj hlist).2 Nat.toDigits_ne_nil
    · rw [variableName_of_lt (Nat.not_le.mp hi), variableName_of_lt (Nat.not_le.mp hj)] at hlist
      have hnumber := congrArg (fun ds => Nat.ofDigitChars 10 ds 0) (List.cons.inj hlist).2
      simpa only [Nat.ofDigitChars_ten_toDigits] using hnumber

/-- Pieces of text that are each followed by an index, and the text behind them. -/
structure Template where
  pieces : List (List Char)
  last : List Char

namespace Template

def fillFrom (last : List Char) : List (List Char) → List (List Char) → List Char
  | piece :: pieces, index :: indices =>
    piece ++ ('[' :: index ++ ']' :: fillFrom last pieces indices)
  | _, _ => last

def fill (p : Template) (indices : List (List Char)) : List Char := fillFrom p.last p.pieces indices

def Plain (p : Template) : Prop := (∀ piece ∈ p.pieces, '[' ∉ piece) ∧ '[' ∉ p.last

def extend (p : Template) (text : List Char) : Template := { p with last := p.last ++ text }

def indexed (p : Template) : Template := ⟨p.pieces ++ [p.last], []⟩

theorem plain_nil {last : List Char} (h : '[' ∉ last) : (⟨[], last⟩ : Template).Plain :=
  ⟨fun _ hmem => absurd hmem List.not_mem_nil, h⟩

theorem fill_nil (last : List Char) (indices : List (List Char)) :
    (⟨[], last⟩ : Template).fill indices = last :=
  rfl

theorem fill_extend (p : Template) (text : List Char) (indices : List (List Char)) :
    (p.extend text).fill indices = p.fill indices ++ text := by
  obtain ⟨pieces, last⟩ := p
  simp only [fill, extend]
  induction pieces generalizing indices with
  | nil => rfl
  | cons piece pieces ih =>
    cases indices with
    | nil => rfl
    | cons index indices => simp only [fillFrom, ih, List.append_assoc, List.cons_append]

theorem fill_indexed {p : Template} {indices : List (List Char)}
    (h : p.pieces.length = indices.length) (index : List Char) :
    p.indexed.fill (indices ++ [index]) = p.fill indices ++ '[' :: index ++ [']'] := by
  obtain ⟨pieces, last⟩ := p
  simp only [fill, indexed]
  induction pieces generalizing indices with
  | nil =>
    rw [List.eq_nil_of_length_eq_zero h.symm]
    simp [fillFrom]
  | cons piece pieces ih =>
    cases indices with
    | nil => cases h
    | cons i indices =>
      have tail := ih (Nat.succ.inj h)
      simp only [List.cons_append, fillFrom, tail, List.append_assoc]

end Template

/-- A text that the replacement of indices passes over. -/
def Passed (text : List Char) : Prop :=
  ∀ name rest, replaceIndex name (text ++ rest) = text ++ replaceIndex name rest

theorem passed_of_plain {text : List Char} (h : '[' ∉ text) : Passed text := by
  induction text with
  | nil => exact fun _ _ => rfl
  | cons c text ih =>
    intro name rest
    have htail := ih (fun hmem => h (List.mem_cons_of_mem _ hmem)) name rest
    rw [List.cons_append, replaceIndex, htail, List.cons_append]
    rintro _ rfl
    exact absurd List.mem_cons_self h

theorem passed_append {text more : List Char} (h : Passed text) (h' : Passed more) :
    Passed (text ++ more) := by
  intro name rest
  rw [List.append_assoc, h, h', List.append_assoc]

theorem passed_variable (level : Nat) : Passed ('[' :: (variableName level).toList ++ [']']) := by
  obtain ⟨c, ds, heq, hc, hds⟩ := variableName_toList level
  have plain : '[' ∉ c :: ds ++ [']'] := by
    intro hmem
    simp only [List.cons_append, List.mem_cons, List.mem_append, List.not_mem_nil, or_false] at hmem
    rcases hmem with rfl | hmem | hmem
    · exact absurd hc (by decide)
    · exact absurd (hds _ hmem) (by decide)
    · exact absurd hmem (by decide)
  intro name rest
  have tail := passed_of_plain plain name rest
  rw [heq, List.cons_append, List.cons_append, replaceIndex, tail]
  · rfl
  · rintro more - hrest
    rw [List.cons_append, List.cons_append] at hrest
    rw [(List.cons.inj hrest).1] at hc
    exact absurd hc (by decide)

theorem foldl_replaceIndex {last : List Char} {pieces : List (List Char)} {loops : List LoopLevel}
    (hpieces : ∀ piece ∈ pieces, '[' ∉ piece) (hlen : pieces.length = loops.length)
    (hvar : ∀ l ∈ loops, ∃ level, l.variableName = variableName level) {done : List Char}
    (hdone : Passed done) :
    loops.foldl (fun cs l => replaceIndex l.variableName cs)
        (done ++ Template.fillFrom last pieces (loops.map fun _ => ['0'])) =
      done ++ Template.fillFrom last pieces (loops.map fun l => l.variableName.toList) := by
  induction loops generalizing pieces done with
  | nil =>
    rw [List.eq_nil_of_length_eq_zero hlen]
    rfl
  | cons l loops ih =>
    cases pieces with
    | nil => cases hlen
    | cons piece pieces =>
      obtain ⟨level, hlevel⟩ := hvar l List.mem_cons_self
      have before := passed_append hdone (passed_of_plain (hpieces piece List.mem_cons_self))
      have tail := ih (fun q hq => hpieces q (List.mem_cons_of_mem _ hq)) (Nat.succ.inj hlen)
        (fun k hk => hvar k (List.mem_cons_of_mem _ hk))
        (passed_append before (hlevel ▸ passed_variable level))
      have here : replaceIndex l.variableName (done ++ piece ++
            ('[' :: '0' :: ']' :: Template.fillFrom last pieces (loops.map fun _ => ['0']))) =
          done ++ piece ++ ('[' :: l.variableName.toList ++ [']']) ++
            Template.fillFrom last pieces (loops.map fun _ => ['0']) := by
        rw [before, replaceIndex]
        simp only [List.append_assoc, List.cons_append, List.nil_append]
      rw [List.map_cons, Template.fillFrom, List.foldl_cons, ← List.append_assoc]
      refine (congrArg (loops.foldl _) here).trans (tail.trans ?_)
      simp only [List.map_cons, Template.fillFrom, List.append_assoc, List.cons_append, List.nil_append]

/-- Folding the name at the first items puts the variables in place of the indices. -/
theorem loopName_fill {p : Template} (hp : p.Plain) {loops : List LoopLevel}
    (hlen : p.pieces.length = loops.length)
    (hvar : ∀ l ∈ loops, ∃ level, l.variableName = variableName level) :
    loopName (String.ofList (p.fill (loops.map fun _ => ['0']))) loops =
      String.ofList (p.fill (loops.map fun l => l.variableName.toList)) := by
  rw [loopName, String.toList_ofList]
  exact congrArg String.ofList (foldl_replaceIndex hp.1 hlen hvar (passed_of_plain List.not_mem_nil))

abbrev Indices := List (String × Nat)

def indexText (indices : Indices) (text : List Char) : List Char :=
  match Entries.get? indices (String.ofList text) with
  | some i => (toString i).toList
  | none => text

/-- Replaces every variable in brackets by its index. Within brackets, the text since the last opening
    one is held back. -/
def substitute (indices : Indices) : Option (List Char) → List Char → List Char
  | none, [] => []
  | none, c :: cs => if c = '[' then substitute indices (some []) cs else c :: substitute indices none cs
  | some text, [] => '[' :: text
  | some text, c :: cs =>
    if c = '[' then '[' :: text ++ substitute indices (some []) cs
    else if c = ']' then '[' :: indexText indices text ++ ']' :: substitute indices none cs
    else substitute indices (some (text ++ [c])) cs

theorem substitute_plain {text : List Char} (h : '[' ∉ text) (indices : Indices) (rest : List Char) :
    substitute indices none (text ++ rest) = text ++ substitute indices none rest := by
  induction text with
  | nil => rfl
  | cons c text ih =>
    have hc : c ≠ '[' := fun heq => h (heq ▸ List.mem_cons_self)
    simp only [List.cons_append, substitute, hc, if_false,
      ih (fun hmem => h (List.mem_cons_of_mem _ hmem))]

theorem substitute_bracket {text : List Char} (h : '[' ∉ text ∧ ']' ∉ text) (indices : Indices)
    (held rest : List Char) :
    substitute indices (some held) (text ++ ']' :: rest) =
      '[' :: indexText indices (held ++ text) ++ ']' :: substitute indices none rest := by
  induction text generalizing held with
  | nil => simp [substitute]
  | cons c text ih =>
    have hopen : c ≠ '[' := fun heq => h.1 (heq ▸ List.mem_cons_self)
    have hclose : c ≠ ']' := fun heq => h.2 (heq ▸ List.mem_cons_self)
    have htext : '[' ∉ text ∧ ']' ∉ text :=
      ⟨fun hmem => h.1 (List.mem_cons_of_mem _ hmem), fun hmem => h.2 (List.mem_cons_of_mem _ hmem)⟩
    simp only [List.cons_append, substitute, hopen, hclose, if_false, ih htext, List.append_assoc,
      List.nil_append]

theorem substitute_fill {p : Template} (hp : p.Plain) {vars : List (List Char)}
    (hvars : ∀ v ∈ vars, '[' ∉ v ∧ ']' ∉ v) (indices : Indices) :
    substitute indices none (p.fill vars) = p.fill (vars.map (indexText indices)) := by
  obtain ⟨pieces, last⟩ := p
  obtain ⟨hpieces, hlast⟩ := hp
  dsimp only at hpieces hlast
  have atLast : substitute indices none last = last := by
    have h := substitute_plain hlast indices []
    rwa [List.append_nil, substitute, List.append_nil] at h
  simp only [Template.fill]
  induction pieces generalizing vars with
  | nil => exact atLast
  | cons piece pieces ih =>
    cases vars with
    | nil => exact atLast
    | cons v vars =>
      have tail := ih (fun w hw => hvars w (List.mem_cons_of_mem _ hw))
        fun q hq => hpieces q (List.mem_cons_of_mem _ hq)
      have bracket := substitute_bracket (hvars v List.mem_cons_self) indices []
        (Template.fillFrom last pieces vars)
      rw [List.map_cons, Template.fillFrom, Template.fillFrom,
        substitute_plain (hpieces piece List.mem_cons_self), List.cons_append, substitute, if_pos rfl,
        bracket, tail, List.nil_append]

end AddressMap.LoopNest
