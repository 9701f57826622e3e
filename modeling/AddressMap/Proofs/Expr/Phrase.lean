import AddressMap.Proofs.Expr.Grammar
import AddressMap.Proofs.Outcome
import Mathlib.Tactic.Common

set_option autoImplicit false

/-!
The grammar of expressions as a relation between trees and lists of tokens. Reading accepts exactly the
phrases, and gives each of them the meaning of its tree. In particular the errors of a meaning come in
the order of the tree, since in a phrase there is no other fault to be found first.
-/

namespace AddressMap.Expr

/-- How tightly an operator holds its operands. The prefix operators stand at `levels`, only `**` is
    tighter than they are. -/
def strength (o : BinaryOp) : Nat := (level? o).getD (levels + 1)

/-- The tokens that spell a tree where an operand of this level is expected. Atoms and parentheses fit
    everywhere, the binary levels hold to the left, and the right side of `**` may start with a prefix
    operator. -/
inductive Phrase : Nat → Expr → List Token → Prop
  | int (i : Int) : Phrase (levels + 2) (.int i) [.int i]
  | float (x : Float) : Phrase (levels + 2) (.float x) [.float x]
  | text (s : String) : Phrase (levels + 2) (.text s) [.text s]
  | name (s : String) : Phrase (levels + 2) (.name s) [.name s]
  | parens {e : Expr} {ts : List Token} (he : Phrase 0 e ts) :
      Phrase (levels + 2) e (.opening :: ts ++ [.closing])
  | power {b e : Expr} {ts us : List Token} (hb : Phrase (levels + 2) b ts) (he : Phrase levels e us) :
      Phrase (levels + 1) (.binary .pow b e) (ts ++ .op .pow :: us)
  | unary {o : UnaryOp} {t : Token} {e : Expr} {ts : List Token} (ht : prefixOp? t = some o)
      (he : Phrase levels e ts) : Phrase levels (.unary o e) (t :: ts)
  | binary {level : Nat} {o : BinaryOp} {l r : Expr} {ts us : List Token}
      (ho : level? o = some level) (hl : Phrase level l ts) (hr : Phrase (level + 1) r us) :
      Phrase level (.binary o l r) (ts ++ .op o :: us)
  | looser {level : Nat} {e : Expr} {ts : List Token} (he : Phrase (level + 1) e ts) : Phrase level e ts

theorem Phrase.mono {level level' : Nat} {e : Expr} {ts : List Token} (h : Phrase level e ts)
    (hle : level' ≤ level) : Phrase level' e ts := by
  obtain ⟨steps, rfl⟩ := Nat.exists_eq_add_of_le hle
  induction steps with
  | zero => exact h
  | succ steps ih => exact ih (.looser h) (Nat.le_add_right _ _)

variable {ε α : Type} {m : Meaning ε α}

/-- `True` and `False` are numbers in every meaning. -/
def Meaning.ofName (m : Meaning ε α) (s : String) : Except ε α :=
  if s = "True" then .ok (m.int 1) else if s = "False" then .ok (m.int 0) else m.name s

/-- The meaning of a tree: operands from left to right, then the operator. -/
def Meaning.ofTree (m : Meaning ε α) : Expr → Except ε α
  | .int i => .ok (m.int i)
  | .float x => .ok (m.float x)
  | .text s => .ok (m.text s)
  | .name s => m.ofName s
  | .unary o e => m.ofTree e >>= m.unary o
  | .binary o l r => m.ofTree l >>= fun x => m.ofTree r >>= fun y => m.binary o x y

/-- A phrase of the level was cut off the front of `ts`, and `x` is what it means. -/
def Cut (m : Meaning ε α) (level : Nat) (ts : List Token) (x : α) (rest : List Token) : Prop :=
  ∃ e us, ts = us ++ rest ∧ Phrase level e us ∧ m.ofTree e = .ok x

theorem Cut.looser {level : Nat} {ts rest : List Token} {x : α} (h : Cut m (level + 1) ts x rest) :
    Cut m level ts x rest := by
  obtain ⟨e, us, hts, he, hx⟩ := h
  exact ⟨e, us, hts, .looser he, hx⟩

structure Cuts (m : Meaning ε α) (depth : Nat) : Prop where
  level : ∀ {level ts x rest}, level ≤ levels → readLevel m depth level ts = .ok (x, rest) →
    Cut m level ts x rest
  chain : ∀ {level lhs x ts rest e us}, level < levels → Phrase level e us → m.ofTree e = .ok lhs →
    readChain m depth level lhs ts = .ok (x, rest) → Cut m level (us ++ ts) x rest
  factor : ∀ {ts x rest}, readFactor m depth ts = .ok (x, rest) → Cut m levels ts x rest
  power : ∀ {ts x rest}, readPower m depth ts = .ok (x, rest) → Cut m (levels + 1) ts x rest
  atom : ∀ {ts x rest}, readAtom m depth ts = .ok (x, rest) → Cut m (levels + 2) ts x rest

section Step

variable {depth : Nat} {ts rest : List Token} {x : α}

theorem cut_level (ih : Cuts m depth) {level : Nat} (hle : level ≤ levels)
    (h : readLevel m (depth + 1) level ts = .ok (x, rest)) : Cut m level ts x rest := by
  rw [readLevel] at h
  split at h
  · rename_i hlt
    split at h
    · cases h
    · rename_i y more hread
      obtain ⟨e, us, rfl, he, hy⟩ := ih.level hlt hread
      exact ih.chain hlt (.looser he) hy h
  · rename_i hge
    obtain rfl : level = levels := by omega
    exact ih.factor h

theorem cut_chain (ih : Cuts m depth) {level : Nat} (hlt : level < levels) {lhs : α} {e : Expr}
    {us : List Token} (he : Phrase level e us) (hlhs : m.ofTree e = .ok lhs)
    (h : readChain m (depth + 1) level lhs ts = .ok (x, rest)) : Cut m level (us ++ ts) x rest := by
  have ended : ∀ {ts}, (Except.ok (lhs, ts) : Except ε _) = .ok (x, rest) → Cut m level (us ++ ts) x rest := by
    intro ts heq
    cases heq
    exact ⟨e, us, rfl, he, hlhs⟩
  rw [readChain.eq_def] at h
  dsimp only at h
  split at h
  · rename_i o more
    split at h
    · rename_i ho
      split at h
      · cases h
      · rename_i y tail hread
        obtain ⟨r, vs, rfl, hr, hy⟩ := ih.level hlt hread
        split at h
        · cases h
        · rename_i z hz
          have tree : m.ofTree (.binary o e r) = .ok z := by
            simp only [Meaning.ofTree, hlhs, hy]
            exact hz
          have joined := ih.chain hlt (.binary ho he hr) tree h
          simpa only [List.append_assoc, List.cons_append] using joined
    · exact ended h
  · exact ended h

theorem cut_factor (ih : Cuts m depth) (h : readFactor m (depth + 1) ts = .ok (x, rest)) :
    Cut m levels ts x rest := by
  rw [readFactor.eq_def] at h
  dsimp only at h
  split at h
  · rename_i t more
    split at h
    · rename_i o ho
      split at h
      · cases h
      · rename_i y tail hread
        obtain ⟨e, us, rfl, he, hy⟩ := ih.factor hread
        obtain ⟨z, hz, heq⟩ := map_eq_ok.mp h
        cases heq
        refine ⟨.unary o e, t :: us, rfl, .unary ho he, ?_⟩
        simp only [Meaning.ofTree, hy]
        exact hz
    · exact (ih.power h).looser
  · cases h

theorem cut_power (ih : Cuts m depth) (h : readPower m (depth + 1) ts = .ok (x, rest)) :
    Cut m (levels + 1) ts x rest := by
  rw [readPower] at h
  split at h
  · cases h
  · rename_i y more hread
    obtain ⟨b, us, rfl, hb, hy⟩ := ih.atom hread
    split at h
    · cases h
    · rename_i z tail hexponent
      obtain ⟨e, vs, rfl, he, hz⟩ := ih.factor hexponent
      obtain ⟨w, hw, heq⟩ := map_eq_ok.mp h
      cases heq
      refine ⟨.binary .pow b e, us ++ .op .pow :: vs, ?_, .power hb he, ?_⟩
      · rw [List.append_assoc, List.cons_append]
      · simp only [Meaning.ofTree, hy, hz]
        exact hw
  · rename_i hread
    cases h
    exact (ih.atom hread).looser

theorem cut_atom (ih : Cuts m depth) (h : readAtom m (depth + 1) ts = .ok (x, rest)) :
    Cut m (levels + 2) ts x rest := by
  have named : ∀ {s more}, m.ofName s = .ok x → more = rest →
      Cut m (levels + 2) (.name s :: more) x rest := by
    rintro s more hs rfl
    exact ⟨.name s, [.name s], rfl, .name s, hs⟩
  rw [readAtom.eq_def] at h
  dsimp only at h
  split at h
  · cases h
  · rename_i i more
    cases h
    exact ⟨.int i, [.int i], rfl, .int i, rfl⟩
  · rename_i f more
    cases h
    exact ⟨.float f, [.float f], rfl, .float f, rfl⟩
  · rename_i s more
    cases h
    exact ⟨.text s, [.text s], rfl, .text s, rfl⟩
  · rename_i s more
    split at h
    · rename_i htrue
      cases h
      exact named (if_pos htrue) rfl
    · rename_i htrue
      split at h
      · rename_i hfalse
        cases h
        exact named ((if_neg htrue).trans (if_pos hfalse)) rfl
      · rename_i hfalse
        obtain ⟨y, hy, heq⟩ := map_eq_ok.mp h
        cases heq
        exact named ((if_neg htrue).trans ((if_neg hfalse).trans hy)) rfl
  · rename_i more
    split at h
    · cases h
    · rename_i y tail hread
      cases h
      obtain ⟨e, us, rfl, he, hy⟩ := ih.level (Nat.zero_le _) hread
      exact ⟨e, .opening :: us ++ [.closing], by simp, .parens he, hy⟩
    · cases h
  · cases h
  · cases h
  · cases h

end Step

theorem cuts (m : Meaning ε α) (depth : Nat) : Cuts m depth := by
  induction depth with
  | zero =>
    -- Without depth every reader gives up.
    constructor
    · intro _ _ _ _ _ h
      rw [readLevel] at h
      cases h
    · intro _ _ _ _ _ _ _ _ _ _ h
      rw [readChain] at h
      cases h
    · intro _ _ _ h
      rw [readFactor] at h
      cases h
    · intro _ _ _ h
      rw [readPower] at h
      cases h
    · intro _ _ _ h
      rw [readAtom] at h
      cases h
  | succ depth ih =>
    exact ⟨cut_level ih, fun hlt he hlhs h => cut_chain ih hlt he hlhs h, cut_factor ih, cut_power ih,
      cut_atom ih⟩

/-- Nothing in front of which a phrase of this level could go on. -/
def Ends (level : Nat) (rest : List Token) : Prop :=
  ∀ o more, rest = .op o :: more → strength o < level

theorem Ends.mono {level level' : Nat} {rest : List Token} (h : Ends level rest) (hle : level ≤ level') :
    Ends level' rest :=
  fun o more hrest => Nat.lt_of_lt_of_le (h o more hrest) hle

theorem strength_of_level? {o : BinaryOp} {level : Nat} (h : level? o = some level) :
    strength o = level := by
  rw [strength, h, Option.getD_some]

theorem lt_levels_of_level? {o : BinaryOp} {level : Nat} (h : level? o = some level) : level < levels := by
  cases o <;> cases h <;> decide

theorem Ends.levels {rest : List Token} (h : Ends (levels + 1) rest) : Ends levels rest := by
  intro o more hrest
  have hlt := h o more hrest
  revert hlt
  cases o <;> decide

theorem Ends.chain {level depth : Nat} {rest : List Token} (h : Ends level rest) (x : α) :
    readChain (m) (depth + 1) level x rest = .ok (x, rest) := by
  apply readChain_stops
  rintro t ht o rfl hlevel
  obtain ⟨more, rfl⟩ := List.head?_eq_some_iff.mp ht
  exact absurd (h o more rfl) (by rw [strength_of_level? hlevel]; exact Nat.lt_irrefl _)

theorem Phrase.level_le {level : Nat} {e : Expr} {ts : List Token} (h : Phrase level e ts) :
    level ≤ levels + 2 := by
  induction h with
  | int | float | text | name | parens | power | unary => decide
  | binary ho => exact Nat.le_trans (Nat.le_of_lt (lt_levels_of_level? ho)) (by decide)
  | looser _ ih => exact Nat.le_of_succ_le ih

theorem Phrase.head {level : Nat} {e : Expr} {ts : List Token} (h : Phrase level e ts)
    (hlt : levels < level) : ∃ t more, ts = t :: more ∧ prefixOp? t = none := by
  induction h with
  | int | float | text | name => exact ⟨_, _, rfl, rfl⟩
  | parens => exact ⟨_, _, rfl, rfl⟩
  | power _ _ ih =>
    obtain ⟨t, more, rfl, ht⟩ := ih (by decide)
    exact ⟨t, _, rfl, ht⟩
  | unary => exact absurd hlt (Nat.lt_irrefl _)
  | binary ho => exact absurd (lt_levels_of_level? ho) (Nat.lt_asymm hlt)
  | looser _ ih => exact ih (Nat.lt_succ_of_lt hlt)

def readAt (m : Meaning ε α) (depth level : Nat) (ts : List Token) : Except ε (α × List Token) :=
  if level ≤ levels then readLevel m depth level ts
  else if level = levels + 1 then readPower m depth ts
  else readAtom m depth ts

/-- The depth in which a reader gets through these tokens. Between two parentheses it goes through all
    levels, the prefix operators, `**` and the atoms. -/
def room (level : Nat) (ts : List Token) : Nat :=
  10 * ts.length + if level ≤ levels then 10 - level else 9 - level

/-- The reader takes the phrase, the whole phrase and nothing else. -/
def Whole (m : Meaning ε α) (level : Nat) (e : Expr) (ts : List Token) : Prop :=
  ∀ rest depth, Ends level rest → room level (ts ++ rest) ≤ depth →
    readAt m depth level (ts ++ rest) = (m.ofTree e).map fun x => (x, rest)

/-- On a binary level the reader takes the phrase and then looks for further operands. -/
def Chained (m : Meaning ε α) (level : Nat) (e : Expr) (ts : List Token) : Prop :=
  ∀ rest depth, Ends (level + 1) rest → room level (ts ++ rest) ≤ depth →
    ∃ left, 10 * rest.length < left ∧
      readLevel m depth level (ts ++ rest) = m.ofTree e >>= fun x => readChain m left level x rest

theorem readAt_of_le {depth level : Nat} (h : level ≤ levels) (ts : List Token) :
    readAt m depth level ts = readLevel m depth level ts := if_pos h

theorem readAt_power (depth : Nat) (ts : List Token) :
    readAt m depth (levels + 1) ts = readPower m depth ts :=
  (if_neg (by decide)).trans (if_pos rfl)

theorem readAt_atom (depth : Nat) (ts : List Token) :
    readAt m depth (levels + 2) ts = readAtom m depth ts :=
  (if_neg (by decide)).trans (if_neg (by decide))

theorem room_of_le {level : Nat} (h : level ≤ levels) (ts : List Token) :
    room level ts = 10 * ts.length + (10 - level) := by
  rw [room, if_pos h]

theorem room_power (ts : List Token) : room (levels + 1) ts = 10 * ts.length + 2 := rfl

theorem room_atom (ts : List Token) : room (levels + 2) ts = 10 * ts.length + 1 := rfl

theorem room_factor (ts : List Token) : room levels ts = 10 * ts.length + 4 := rfl

theorem readAt_factor {depth : Nat} (ts : List Token) :
    readAt m (depth + 1) levels ts = readFactor m depth ts := by
  rw [readAt_of_le (Nat.le_refl _), readLevel, if_neg (Nat.lt_irrefl _)]

theorem Chained.whole {level : Nat} {e : Expr} {ts : List Token} (h : Chained m level e ts)
    (hlt : level < levels) : Whole m level e ts := by
  intro rest depth hends hroom
  obtain ⟨left, hleft, heq⟩ := h rest depth (hends.mono (Nat.le_succ _)) hroom
  obtain ⟨left, rfl⟩ := Nat.exists_eq_add_of_lt hleft
  rw [readAt_of_le (Nat.le_of_lt hlt), heq]
  cases m.ofTree e with
  | error f => rfl
  | ok x => exact hends.chain x

theorem Whole.chained {level : Nat} {e : Expr} {ts : List Token} (h : Whole m (level + 1) e ts)
    (hne : ts ≠ []) (hlt : level < levels) : Chained m level e ts := by
  intro rest depth hends hroom
  have hpos := List.length_pos_iff.mpr hne
  have hlevels : levels = 6 := rfl
  rw [room_of_le (Nat.le_of_lt hlt), List.length_append] at hroom
  obtain ⟨depth, rfl⟩ : ∃ d, depth = d + 1 := ⟨depth - 1, by omega⟩
  refine ⟨depth, by omega, ?_⟩
  have read := h rest depth hends (by
    rw [room_of_le hlt, List.length_append]
    omega)
  rw [readAt_of_le hlt] at read
  rw [readLevel, if_pos hlt, read]
  cases m.ofTree e with
  | error f => rfl
  | ok x => rfl

theorem Phrase.ne_nil {level : Nat} {e : Expr} {ts : List Token} (h : Phrase level e ts) : ts ≠ [] := by
  induction h with
  | looser _ ih => exact ih
  | _ => simp

section Whole

variable {e l r b : Expr} {ts us : List Token}

theorem whole_atom {t : Token} (h : ∀ depth rest, readAtom m (depth + 1) (t :: rest) =
    (m.ofTree e).map fun x => (x, rest)) : Whole m (levels + 2) e [t] := by
  intro rest depth _ hroom
  rw [room_atom] at hroom
  obtain ⟨depth, rfl⟩ := Nat.exists_eq_add_of_le' hroom
  rw [readAt_atom]
  exact h (depth + 10 * ([t] ++ rest).length) rest

theorem whole_name (s : String) : Whole m (levels + 2) (.name s) [.name s] := by
  apply whole_atom
  intro depth rest
  rw [readAtom, Meaning.ofTree, Meaning.ofName]
  split
  · rfl
  · split
    · rfl
    · rfl

theorem whole_parens (h : Whole m 0 e ts) : Whole m (levels + 2) e (.opening :: ts ++ [.closing]) := by
  intro rest depth _ hroom
  have split : .opening :: ts ++ [.closing] ++ rest = .opening :: (ts ++ .closing :: rest) := by simp
  rw [split, room_atom, List.length_cons] at hroom
  obtain ⟨depth, rfl⟩ : ∃ d, depth = d + 1 := ⟨depth - 1, by omega⟩
  have read := h (.closing :: rest) depth (fun _ _ heq => by cases heq) (by
    rw [room_of_le (Nat.zero_le _)]
    omega)
  rw [readAt_of_le (Nat.zero_le _)] at read
  rw [split, readAt_atom, readAtom, read]
  cases m.ofTree e with
  | error f => rfl
  | ok x => rfl

theorem whole_power (hb : Whole m (levels + 2) b ts) (he : Whole m levels e us) :
    Whole m (levels + 1) (.binary .pow b e) (ts ++ .op .pow :: us) := by
  intro rest depth hends hroom
  rw [List.append_assoc, List.cons_append, room_power] at hroom
  obtain ⟨depth, rfl⟩ : ∃ d, depth = d + 1 := ⟨depth - 1, by omega⟩
  have base := hb (.op .pow :: (us ++ rest)) depth (fun _ _ heq => by cases heq; decide) (by
    rw [room_atom]
    omega)
  have exponent := he rest (depth + 1) hends.levels (by
    simp only [List.length_append, List.length_cons] at hroom
    rw [room_factor, List.length_append]
    omega)
  rw [readAt_factor] at exponent
  rw [readAt_atom] at base
  rw [readAt_power, List.append_assoc, List.cons_append, readPower, base, Meaning.ofTree]
  cases m.ofTree b with
  | error f => rfl
  | ok x =>
    simp only [Except.map, exponent]
    cases m.ofTree e with
    | error f => rfl
    | ok y => rfl

theorem whole_unary {o : UnaryOp} {t : Token} (ht : prefixOp? t = some o) (h : Whole m levels e ts) :
    Whole m levels (.unary o e) (t :: ts) := by
  intro rest depth hends hroom
  rw [List.cons_append, room_factor, List.length_cons] at hroom
  obtain ⟨depth, rfl⟩ : ∃ d, depth = d + 2 := ⟨depth - 2, by omega⟩
  have read := h rest (depth + 1) hends (by
    rw [room_factor]
    omega)
  rw [readAt_factor] at read
  rw [readAt_factor, List.cons_append, readFactor, ht, read, Meaning.ofTree]
  cases m.ofTree e with
  | error f => rfl
  | ok x => rfl

theorem chained_binary {level : Nat} {o : BinaryOp} (ho : level? o = some level)
    (hl : Chained m level l ts) (hr : Whole m (level + 1) r us) :
    Chained m level (.binary o l r) (ts ++ .op o :: us) := by
  intro rest depth hends hroom
  rw [List.append_assoc, List.cons_append] at hroom ⊢
  have hlt := lt_levels_of_level? ho
  obtain ⟨left, hleft, heq⟩ := hl (.op o :: (us ++ rest)) depth
    (fun _ _ h => by cases h; rw [strength_of_level? ho]; exact Nat.lt_succ_self _) hroom
  simp only [List.length_cons, List.length_append] at hleft
  obtain ⟨left, rfl⟩ : ∃ d, left = d + 1 := ⟨left - 1, by omega⟩
  refine ⟨left, by omega, ?_⟩
  have read := hr rest left hends (by
    rw [room_of_le hlt, List.length_append]
    omega)
  rw [readAt_of_le hlt] at read
  rw [heq, Meaning.ofTree]
  cases m.ofTree l with
  | error f => rfl
  | ok x =>
    change readChain m (left + 1) level x (.op o :: (us ++ rest)) = _
    rw [readChain, if_pos ho, read]
    cases m.ofTree r with
    | error f => rfl
    | ok y => rfl

theorem whole_power_of_atom (h : Whole m (levels + 2) e ts) : Whole m (levels + 1) e ts := by
  intro rest depth hends hroom
  rw [room_power] at hroom
  obtain ⟨depth, rfl⟩ : ∃ d, depth = d + 1 := ⟨depth - 1, by omega⟩
  have read := h rest depth (hends.mono (Nat.le_succ _)) (by
    rw [room_atom]
    omega)
  rw [readAt_atom] at read
  rw [readAt_power, readPower, read]
  cases m.ofTree e with
  | error f => rfl
  | ok x =>
    simp only [Except.map]
    split
    · rename_i heq
      cases heq
    · rename_i more heq
      cases heq
      exact absurd (hends .pow more rfl) (by decide)
    · rename_i heq
      cases heq
      rfl

theorem whole_factor_of_power (h : Whole m (levels + 1) e ts)
    (hhead : ∃ t more, ts = t :: more ∧ prefixOp? t = none) : Whole m levels e ts := by
  intro rest depth hends hroom
  rw [room_factor] at hroom
  obtain ⟨depth, rfl⟩ : ∃ d, depth = d + 2 := ⟨depth - 2, by omega⟩
  have read := h rest depth (hends.mono (Nat.le_succ _)) (by
    rw [room_power]
    omega)
  rw [readAt_power] at read
  obtain ⟨t, more, rfl, ht⟩ := hhead
  rw [readAt_factor, ← read, List.cons_append, readFactor, ht]

end Whole

/-- Every phrase is read whole. On the binary levels the induction carries the chain as well, since the
    left operand of a phrase is itself a phrase of the level. -/
theorem Phrase.whole {level : Nat} {e : Expr} {ts : List Token} (h : Phrase level e ts) :
    Whole m level e ts ∧ (level < levels → Chained m level e ts) := by
  have tight : ∀ {level e ts}, levels ≤ level → Whole m level e ts →
      Whole m level e ts ∧ (level < levels → Chained m level e ts) :=
    fun hle hw => ⟨hw, fun hlt => absurd hlt (Nat.not_lt.mpr hle)⟩
  have loose : ∀ {level e ts}, level < levels → Chained m level e ts →
      Whole m level e ts ∧ (level < levels → Chained m level e ts) :=
    fun hlt hc => ⟨hc.whole hlt, fun _ => hc⟩
  induction h with
  | int i => exact tight (by decide) (whole_atom fun _ _ => rfl)
  | float x => exact tight (by decide) (whole_atom fun _ _ => rfl)
  | text s => exact tight (by decide) (whole_atom fun _ _ => rfl)
  | name s => exact tight (by decide) (whole_name s)
  | parens _ ih => exact tight (by decide) (whole_parens ih.1)
  | power _ _ ihb ihe => exact tight (by decide) (whole_power ihb.1 ihe.1)
  | unary ht _ ih => exact tight (Nat.le_refl _) (whole_unary ht ih.1)
  | binary ho _ _ ihl ihr =>
    have hlt := lt_levels_of_level? ho
    exact loose hlt (chained_binary ho (ihl.2 hlt) ihr.1)
  | @looser level e ts he ih =>
    rcases Nat.lt_trichotomy level levels with hlt | rfl | hgt
    · exact loose hlt (ih.1.chained he.ne_nil hlt)
    · exact tight (Nat.le_refl _) (whole_factor_of_power ih.1 (he.head (Nat.lt_succ_self _)))
    · obtain rfl : level = levels + 1 := by
        have hle := he.level_le
        omega
      exact tight (Nat.le_succ _) (whole_power_of_atom ih.1)

/-- A phrase means what its tree means, errors included. -/
theorem readAll_of_phrase {e : Expr} {ts : List Token} (h : Phrase 0 e ts) :
    readAll m ts = m.ofTree e := by
  have whole : Whole m 0 e ts := h.whole.1
  have read := whole [] (depthFor ts) (fun _ _ heq => by cases heq) (by
    rw [room_of_le (Nat.zero_le _), List.append_nil, depthFor]
    omega)
  rw [readAt_of_le (Nat.zero_le _), List.append_nil] at read
  rw [readAll, read]
  cases m.ofTree e with
  | error f => rfl
  | ok x => rfl

theorem readAll_eq_ok {ts : List Token} {x : α} :
    readAll m ts = .ok x ↔ ∃ e, Phrase 0 e ts ∧ m.ofTree e = .ok x := by
  constructor
  · intro h
    rw [readAll] at h
    split at h
    · cases h
    · rename_i y hread
      cases h
      obtain ⟨e, us, hts, he, hx⟩ := (cuts m _).level (Nat.zero_le _) hread
      rw [List.append_nil] at hts
      exact ⟨e, hts ▸ he, hx⟩
    · cases h
  · rintro ⟨e, he, hx⟩
    rw [readAll_of_phrase he, hx]

end AddressMap.Expr
