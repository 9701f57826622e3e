import AddressMap.Proofs.Expr.Mention

set_option autoImplicit false

/-!
A text that no tree spells has one fault, the first that parsing meets. An evaluation reads it in the same order, and
so it ends with this fault, unless a name or an operator has stopped it before. The bound on the depth is no fault of
any text.
-/

namespace AddressMap.Expr

variable {ε α : Type}

theorem lexeme_ne_tooDeep (c : Char) (rest : List Char) : lexeme c rest ≠ .error .tooDeep := by
  unfold lexeme
  dsimp only
  repeat' split
  all_goals exact nofun

theorem tokens_ne_tooDeep (cs : List Char) : tokens cs ≠ .error .tooDeep := by
  intro h
  induction cs using tokens.induct with
  | case1 =>
    rw [tokens] at h
    cases h
  | case2 c rest hblank ih =>
    rw [tokens, if_pos hblank] at h
    exact ih h
  | case3 c rest hblank f hf =>
    rw [tokens, if_neg hblank, hf] at h
    cases h
    exact lexeme_ne_tooDeep c rest hf
  | case4 c rest hblank t after ht ih =>
    rw [tokens, if_neg hblank, ht] at h
    exact ih (map_eq_error.mp h)

theorem ofOperator_ne_tooDeep (o : OperatorError) (source : String) :
    ExprError.ofOperator o ≠ .malformed source .tooDeep := by
  cases o <;> exact nofun

/-- The depth suffices for every text. -/
theorem readText_ne_tooDeep {m : Meaning ε α} {e : ε} (hm : m.NamesOnly e) (hname : ∀ s, m.name s ≠ .error e)
    (source : String) : readText m source ≠ .error e := by
  intro h
  rw [readText] at h
  split at h
  · rename_i f hf
    refine hm.fault f ?_ (Except.error.inj h)
    rintro rfl
    exact tokens_ne_tooDeep _ hf
  · obtain ⟨s, -, -, -, hs⟩ := met_of_readAll hm h
    exact hname s hs

theorem tree_namesOnly : tree.NamesOnly .tooDeep where
  fault _ h := h
  unary _ _ h := by cases h
  binary _ _ _ h := by cases h

theorem parse_ne_tooDeep (source : String) : parse source ≠ .error .tooDeep :=
  readText_ne_tooDeep tree_namesOnly (fun _ h => by cases h) source

theorem evaluate_ne_tooDeep (source source' : String) (env : Env) :
    evaluate source env ≠ .error (.malformed source' .tooDeep) := by
  have kept : ∀ {r : Except OperatorError Scalar},
      r.mapError ExprError.ofOperator ≠ .error (.malformed source' .tooDeep) := by
    intro r h
    cases r with
    | ok x => cases h
    | error o => exact ofOperator_ne_tooDeep o source' (Except.error.inj h)
  refine readText_ne_tooDeep ⟨fun f hf h => ?_, fun _ _ => kept, fun _ _ _ => kept⟩ (fun s h => ?_) source
  · exact hf (ExprError.malformed.inj h).2
  · change lookup env s = _ at h
    unfold lookup at h
    split at h <;> cases h

inductive Meaning.Stops (m : Meaning ε α) : ε → Prop
  | name {e : ε} {s : String} (h : m.name s = .error e) : m.Stops e
  | unary {e : ε} {o : UnaryOp} {x : α} (h : m.unary o x = .error e) : m.Stops e
  | binary {e : ε} {o : BinaryOp} {x y : α} (h : m.binary o x y = .error e) : m.Stops e

theorem agrees_tree (m : Meaning ε α) : m.Agrees m.Stops (fun e f => e = m.fault f) (fun _ _ => True) tree where
  fault _ := rfl
  int _ := trivial
  float _ := trivial
  text _ := trivial
  name s := by
    cases hs : m.name s with
    | error e => exact .lost (.name hs) _
    | ok x => exact .ok trivial
  unary o x _ _ := by
    cases hx : m.unary o x with
    | error e => exact .lost (.unary hx) _
    | ok y => exact .ok trivial
  binary o x _ y _ _ _ := by
    cases hx : m.binary o x y with
    | error e => exact .lost (.binary hx) _
    | ok z => exact .ok trivial

/-- A malformed text has no meaning. It gives its fault, or what a name or an operator before the fault gives. -/
theorem readText_malformed (m : Meaning ε α) {source : String} {fault : Fault} (h : parse source = .error fault) :
    ∃ e, readText m source = .error e ∧ (e = m.fault fault ∨ m.Stops e) := by
  have alike := (agrees_tree m).readText source
  rw [show readText tree source = .error fault from h] at alike
  revert alike
  generalize readText m source = r
  rintro (⟨hstops⟩ | ⟨hfault⟩)
  · exact ⟨_, rfl, .inr hstops⟩
  · exact ⟨_, rfl, .inl hfault⟩

end AddressMap.Expr
