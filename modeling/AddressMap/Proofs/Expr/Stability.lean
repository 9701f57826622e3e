import AddressMap.Expr
import AddressMap.Proofs.Entries

set_option autoImplicit false

/-!
Reading looks at its meaning only through names, operators and faults. So two meanings that agree on these agree on
every text: each fault comes at the same place in both, unless one of them has stopped before.
-/

namespace AddressMap.Expr

variable {ε ε' α α' β β' : Type} {lost : ε → Prop} {E : ε → ε' → Prop}

/-- Results that agree, unless the first one is an error that is let off. -/
inductive Agrees (lost : ε → Prop) (E : ε → ε' → Prop) (R : α → α' → Prop) : Except ε α → Except ε' α' → Prop
  | lost {e : ε} (h : lost e) (r : Except ε' α') : Agrees lost E R (.error e) r
  | error {e : ε} {e' : ε'} (h : E e e') : Agrees lost E R (.error e) (.error e')
  | ok {x : α} {y : α'} (h : R x y) : Agrees lost E R (.ok x) (.ok y)

theorem Agrees.map {R : α → α' → Prop} {S : β → β' → Prop} {r : Except ε α} {r' : Except ε' α'} {f : α → β}
    {g : α' → β'} (h : Agrees lost E R r r') (hf : ∀ x y, R x y → S (f x) (g y)) :
    Agrees lost E S (r.map f) (r'.map g) := by
  cases h with
  | lost h r => exact .lost h _
  | error h => exact .error h
  | ok h => exact .ok (hf _ _ h)

theorem Agrees.eq_or_lost {lost : ε → Prop} {r r' : Except ε α} (h : Agrees lost Eq Eq r r') :
    r' = r ∨ ∃ e, r = .error e ∧ lost e := by
  cases h with
  | lost h r => exact .inr ⟨_, rfl, h⟩
  | error h => exact .inl (h ▸ rfl)
  | ok h => exact .inl (h ▸ rfl)

theorem Agrees.refl {lost : ε → Prop} (r : Except ε α) : Agrees lost Eq Eq r r := by
  cases r with
  | error e => exact .error rfl
  | ok x => exact .ok rfl

structure Meaning.Agrees (lost : ε → Prop) (E : ε → ε' → Prop) (R : α → α' → Prop) (m : Meaning ε α)
    (m' : Meaning ε' α') : Prop where
  fault : ∀ f, E (m.fault f) (m'.fault f)
  int : ∀ i, R (m.int i) (m'.int i)
  float : ∀ x, R (m.float x) (m'.float x)
  text : ∀ s, R (m.text s) (m'.text s)
  name : ∀ s, Expr.Agrees lost E R (m.name s) (m'.name s)
  unary : ∀ o x x', R x x' → Expr.Agrees lost E R (m.unary o x) (m'.unary o x')
  binary : ∀ o x x' y y', R x x' → R y y' → Expr.Agrees lost E R (m.binary o x y) (m'.binary o x' y')

variable {R : α → α' → Prop} {m : Meaning ε α} {m' : Meaning ε' α'}

abbrev Phrases (lost : ε → Prop) (E : ε → ε' → Prop) (R : α → α' → Prop) :=
  Agrees lost E fun (p : α × List Token) (p' : α' × List Token) => R p.1 p'.1 ∧ p.2 = p'.2

structure ReadsAlike (lost : ε → Prop) (E : ε → ε' → Prop) (R : α → α' → Prop) (m : Meaning ε α)
    (m' : Meaning ε' α') (depth : Nat) : Prop where
  level : ∀ level ts, Phrases lost E R (readLevel m depth level ts) (readLevel m' depth level ts)
  chain : ∀ level lhs lhs' ts, R lhs lhs' →
    Phrases lost E R (readChain m depth level lhs ts) (readChain m' depth level lhs' ts)
  factor : ∀ ts, Phrases lost E R (readFactor m depth ts) (readFactor m' depth ts)
  power : ∀ ts, Phrases lost E R (readPower m depth ts) (readPower m' depth ts)
  atom : ∀ ts, Phrases lost E R (readAtom m depth ts) (readAtom m' depth ts)

section Step

variable {depth : Nat} (h : m.Agrees lost E R m') (ih : ReadsAlike lost E R m m' depth)

include ih

theorem level_alike (level : Nat) (ts : List Token) :
    Phrases lost E R (readLevel m (depth + 1) level ts) (readLevel m' (depth + 1) level ts) := by
  rw [readLevel, readLevel]
  split
  · have first := ih.level (level + 1) ts
    revert first
    generalize readLevel m depth (level + 1) ts = r
    generalize readLevel m' depth (level + 1) ts = r'
    rintro (⟨hlost⟩ | ⟨herror⟩ | ⟨hvalue, hrest⟩)
    · exact .lost hlost _
    · exact .error herror
    · dsimp only
      rw [← hrest]
      exact ih.chain level _ _ _ hvalue
  · exact ih.factor ts

include h

theorem chain_alike (level : Nat) {lhs : α} {lhs' : α'} (hlhs : R lhs lhs') (ts : List Token) :
    Phrases lost E R (readChain m (depth + 1) level lhs ts) (readChain m' (depth + 1) level lhs' ts) := by
  rw [readChain.eq_def, readChain.eq_def]
  dsimp only
  split
  · rename_i o rest
    split
    · have operand := ih.level (level + 1) rest
      revert operand
      generalize readLevel m depth (level + 1) rest = r
      generalize readLevel m' depth (level + 1) rest = r'
      rintro (⟨hlost⟩ | ⟨herror⟩ | @⟨⟨y, rest⟩, ⟨y', rest'⟩, hvalue, hrest⟩)
      · exact .lost hlost _
      · exact .error herror
      · obtain rfl : rest = rest' := hrest
        have joined := h.binary o lhs lhs' y y' hlhs hvalue
        revert joined
        dsimp only
        generalize m.binary o lhs y = z
        generalize m'.binary o lhs' y' = z'
        rintro (⟨hlost⟩ | ⟨herror⟩ | ⟨hvalue⟩)
        · exact .lost hlost _
        · exact .error herror
        · exact ih.chain level _ _ rest hvalue
    · exact .ok ⟨hlhs, rfl⟩
  · exact .ok ⟨hlhs, rfl⟩

theorem factor_alike (ts : List Token) :
    Phrases lost E R (readFactor m (depth + 1) ts) (readFactor m' (depth + 1) ts) := by
  rw [readFactor.eq_def, readFactor.eq_def]
  dsimp only
  split
  · rename_i t rest
    split
    · rename_i o _
      have operand := ih.factor rest
      revert operand
      generalize readFactor m depth rest = r
      generalize readFactor m' depth rest = r'
      rintro (⟨hlost⟩ | ⟨herror⟩ | ⟨hvalue, hrest⟩)
      · exact .lost hlost _
      · exact .error herror
      · exact (h.unary o _ _ hvalue).map fun _ _ hvalue => ⟨hvalue, hrest⟩
    · exact ih.power (t :: rest)
  · exact .error (h.fault _)

theorem power_alike (ts : List Token) :
    Phrases lost E R (readPower m (depth + 1) ts) (readPower m' (depth + 1) ts) := by
  rw [readPower, readPower]
  have base := ih.atom ts
  revert base
  generalize readAtom m depth ts = r
  generalize readAtom m' depth ts = r'
  rintro (⟨hlost⟩ | ⟨herror⟩ | @⟨⟨x, rest⟩, ⟨x', rest'⟩, hbase, hrest⟩)
  · exact .lost hlost _
  · exact .error herror
  · obtain rfl : rest = rest' := hrest
    split
    · rename_i heq
      cases heq
    · rename_i y more heq
      cases heq
      have exponent := ih.factor more
      revert exponent
      dsimp only
      generalize readFactor m depth more = r
      generalize readFactor m' depth more = r'
      rintro (⟨hlost⟩ | ⟨herror⟩ | ⟨hvalue, hrest⟩)
      · exact .lost hlost _
      · exact .error herror
      · exact (h.binary .pow _ _ _ _ hbase hvalue).map fun _ _ hvalue => ⟨hvalue, hrest⟩
    · rename_i hother heq
      cases heq
      split
      · rename_i heq
        cases heq
      · rename_i heq
        cases heq
        exact (hother _ rfl).elim
      · rename_i heq
        cases heq
        exact .ok ⟨hbase, rfl⟩

theorem atom_alike (ts : List Token) :
    Phrases lost E R (readAtom m (depth + 1) ts) (readAtom m' (depth + 1) ts) := by
  rw [readAtom.eq_def, readAtom.eq_def]
  dsimp only
  split
  · exact .error (h.fault _)
  · exact .ok ⟨h.int _, rfl⟩
  · exact .ok ⟨h.float _, rfl⟩
  · exact .ok ⟨h.text _, rfl⟩
  · rename_i s rest
    split
    · exact .ok ⟨h.int 1, rfl⟩
    · split
      · exact .ok ⟨h.int 0, rfl⟩
      · exact (h.name s).map fun _ _ hvalue => ⟨hvalue, rfl⟩
  · rename_i rest
    have inner := ih.level 0 rest
    revert inner
    generalize readLevel m depth 0 rest = r
    generalize readLevel m' depth 0 rest = r'
    rintro (⟨hlost⟩ | ⟨herror⟩ | @⟨⟨x, rest⟩, ⟨x', rest'⟩, hvalue, hrest⟩)
    · exact .lost hlost _
    · exact .error herror
    · obtain rfl : rest = rest' := hrest
      split
      · rename_i heq
        cases heq
      · rename_i heq
        cases heq
        exact .ok ⟨hvalue, rfl⟩
      · rename_i hother heq
        cases heq
        split
        · rename_i heq
          cases heq
        · rename_i heq
          cases heq
          exact (hother _ _ rfl).elim
        · exact .error (h.fault _)
  · exact .error (h.fault _)
  · exact .error (h.fault _)
  · exact .error (h.fault _)

end Step

theorem Meaning.Agrees.readsAlike (h : m.Agrees lost E R m') (depth : Nat) : ReadsAlike lost E R m m' depth := by
  induction depth with
  | zero =>
    -- Without depth both give up.
    refine ⟨fun level ts => ?_, fun level lhs lhs' ts _ => ?_, fun ts => ?_, fun ts => ?_, fun ts => ?_⟩
    · rw [readLevel, readLevel]
      exact .error (h.fault _)
    · rw [readChain, readChain]
      exact .error (h.fault _)
    · rw [readFactor, readFactor]
      exact .error (h.fault _)
    · rw [readPower, readPower]
      exact .error (h.fault _)
    · rw [readAtom, readAtom]
      exact .error (h.fault _)
  | succ depth ih =>
    exact ⟨level_alike ih, fun level _ _ ts hlhs => chain_alike h ih level hlhs ts, factor_alike h ih,
      power_alike h ih, atom_alike h ih⟩

theorem Meaning.Agrees.readText (h : m.Agrees lost E R m') (source : String) :
    Expr.Agrees lost E R (readText m source) (readText m' source) := by
  rw [Expr.readText, Expr.readText]
  split
  · exact .error (h.fault _)
  · rename_i ts _
    rw [readAll, readAll]
    have whole := (h.readsAlike (depthFor ts)).level 0 ts
    revert whole
    generalize readLevel m (depthFor ts) 0 ts = r
    generalize readLevel m' (depthFor ts) 0 ts = r'
    rintro (⟨hlost⟩ | ⟨herror⟩ | @⟨⟨x, rest⟩, ⟨x', rest'⟩, hvalue, hrest⟩)
    · exact .lost hlost _
    · exact .error herror
    · obtain rfl : rest = rest' := hrest
      cases rest with
      | nil => exact .ok hvalue
      | cons t more => exact .error (h.fault _)

theorem value_agrees {env env' : Env} (h : env.Extends env') (source : String) :
    (value source env).Agrees
      (fun e => ∃ name, e = .unknownName name ∧ env.get? name = none ∧ (env'.get? name).isSome) Eq Eq
      (value source env') where
  fault _ := rfl
  int _ := rfl
  float _ := rfl
  text _ := rfl
  name s := by
    change Expr.Agrees _ _ _ (lookup env s) (lookup env' s)
    unfold lookup
    cases hs : env.get? s with
    | some x =>
      rw [h s x hs]
      exact .ok rfl
    | none =>
      cases hs' : env'.get? s with
      | none => exact .error rfl
      | some x => exact .lost ⟨s, rfl, hs, by rw [hs']; rfl⟩ _
  unary o x x' hx := hx ▸ .refl _
  binary o x x' y y' hx hy := hx ▸ hy ▸ .refl _

end AddressMap.Expr

namespace AddressMap

/-- More constants change nothing but an unknown name that they make known. -/
theorem evaluate_extends {env env' : Env} (h : env.Extends env') (source : String) :
    evaluate source env' = evaluate source env ∨ ∃ name, evaluate source env = .error (.unknownName name) ∧
      env.get? name = none ∧ (env'.get? name).isSome := by
  rcases ((Expr.value_agrees h source).readText source).eq_or_lost with heq | ⟨e, he, name, rfl, hname⟩
  · exact .inl heq
  · exact .inr ⟨name, he, hname⟩

end AddressMap
