import AddressMap.Expr.Grammar

set_option autoImplicit false

namespace AddressMap.Expr

variable {ε α : Type} {m : Meaning ε α} {depth : Nat} {rest : List Token}

theorem readChain_stops {level : Nat} (x : α)
    (h : ∀ o ∈ rest.head?, ∀ b, o = .op b → level? b ≠ some level) :
    readChain (m) (depth + 1) level x rest = .ok (x, rest) := by
  unfold readChain
  split
  · rename_i o more
    rw [if_neg (h (.op o) rfl o rfl)]
  · rfl

theorem readChain_continues {level : Nat} {o : BinaryOp} {lhs x y : α} {ts : List Token}
    (hlevel : level? o = some level) (h : readLevel m depth (level + 1) ts = .ok (y, rest))
    (hx : m.binary o lhs y = .ok x) :
    readChain m (depth + 1) level lhs (.op o :: ts) = readChain m depth level x rest := by
  rw [readChain, if_pos hlevel, h]
  simp only [hx]

/-- An atom stands for itself where no power follows. -/
theorem readLevel_operand {t : Token} {x : α} (hunary : prefixOp? t = none)
    (hatom : readAtom (m) (depth + 1) (t :: rest) = .ok (x, rest))
    (hpower : ∀ more, rest ≠ .op .pow :: more) :
    readLevel (m) (depth + 4) levels (t :: rest) = .ok (x, rest) := by
  have power : readPower (m) (depth + 2) (t :: rest) = .ok (x, rest) := by
    rw [readPower, hatom]
    split
    · rename_i heq
      cases heq
    · rename_i more heq
      cases heq
      exact absurd rfl (hpower more)
    · rename_i heq
      cases heq
      rfl
  have factor : readFactor (m) (depth + 3) (t :: rest) = .ok (x, rest) := by
    rw [readFactor, hunary, power]
  rw [readLevel, if_neg (Nat.lt_irrefl levels), factor]

/-- A level whose operators do not follow passes on what the next tighter level reads. -/
theorem readLevel_passes {level : Nat} (hlevel : level < levels) {ts : List Token} {x : α}
    (h : readLevel m (depth + 1) (level + 1) ts = .ok (x, rest))
    (hstop : ∀ o ∈ rest.head?, ∀ b, o = .op b → level? b ≠ some level) :
    readLevel m (depth + 2) level ts = .ok (x, rest) := by
  rw [readLevel, if_pos hlevel, h]
  exact readChain_stops x hstop

end AddressMap.Expr
