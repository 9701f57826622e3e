import AddressMap.Proofs.Expr.Printing
import AddressMap.Proofs.Expr.Stability

set_option autoImplicit false

namespace AddressMap.Expr

variable {ε α : Type}

/-- Only a name can mean this error, or a depth that does not suffice. -/
structure Meaning.NamesOnly (m : Meaning ε α) (e : ε) : Prop where
  fault : ∀ f, f ≠ .tooDeep → m.fault f ≠ e
  unary : ∀ o x, m.unary o x ≠ .error e
  binary : ∀ o x y, m.binary o x y ≠ .error e

/-- A name that means the error is among the tokens. -/
def Met (m : Meaning ε α) (e : ε) (ts : List Token) : Prop :=
  ∃ s, .name s ∈ ts ∧ s ≠ "True" ∧ s ≠ "False" ∧ m.name s = .error e

variable {m : Meaning ε α} {e : ε} {ts us rest : List Token}

theorem Met.mono (h : Met m e ts) (hsub : ts ⊆ us) : Met m e us := by
  obtain ⟨s, hs, named⟩ := h
  exact ⟨s, hsub hs, named⟩

theorem Met.behind {level : Nat} {x : α} (h : Met m e rest) (hcut : Cut m level ts x rest) : Met m e ts := by
  obtain ⟨_, us, rfl, _, _⟩ := hcut
  exact h.mono (List.subset_append_right us rest)

theorem Cut.shorter {level : Nat} {x : α} (h : Cut m level ts x rest) : rest.length < ts.length := by
  obtain ⟨_, us, rfl, phrase, _⟩ := h
  have hpos := List.length_pos_iff.mpr phrase.ne_nil
  rw [List.length_append]
  omega

/-- When reading ends with the error although this depth suffices, the name has been met. -/
structure Meets (m : Meaning ε α) (e : ε) (depth : Nat) : Prop where
  level : ∀ {level ts}, level ≤ levels → 10 * ts.length + (10 - level) ≤ depth →
    readLevel m depth level ts = .error e → Met m e ts
  chain : ∀ {level lhs ts}, level < levels → 10 * ts.length < depth →
    readChain m depth level lhs ts = .error e → Met m e ts
  factor : ∀ {ts}, 10 * ts.length + 3 ≤ depth → readFactor m depth ts = .error e → Met m e ts
  power : ∀ {ts}, 10 * ts.length + 2 ≤ depth → readPower m depth ts = .error e → Met m e ts
  atom : ∀ {ts}, 10 * ts.length + 1 ≤ depth → readAtom m depth ts = .error e → Met m e ts

section Step

variable {depth : Nat} (hm : m.NamesOnly e) (ih : Meets m e depth)
include ih

theorem meets_level {level : Nat} (hle : level ≤ levels) (hroom : 10 * ts.length + (10 - level) ≤ depth + 1)
    (h : readLevel m (depth + 1) level ts = .error e) : Met m e ts := by
  have hlevels : levels = 6 := rfl
  rw [readLevel] at h
  split at h
  · rename_i hlt
    split at h
    · rename_i _ hread
      cases h
      exact ih.level hlt (by omega) hread
    · rename_i hread
      have hcut := (cuts m depth).level hlt hread
      have hshort := hcut.shorter
      exact (ih.chain hlt (by omega) h).behind hcut
  · exact ih.factor (by omega) h

include hm

theorem meets_chain {level : Nat} (hlt : level < levels) {lhs : α} (hroom : 10 * ts.length < depth + 1)
    (h : readChain m (depth + 1) level lhs ts = .error e) : Met m e ts := by
  rw [readChain.eq_def] at h
  dsimp only at h
  split at h
  · rw [List.length_cons] at hroom
    split at h
    · split at h
      · rename_i _ hread
        cases h
        exact (ih.level hlt (by omega) hread).mono (List.subset_cons_self _ _)
      · rename_i hread
        split at h
        · rename_i _ hbinary
          cases h
          exact absurd hbinary (hm.binary _ _ _)
        · have hcut := (cuts m depth).level hlt hread
          have hshort := hcut.shorter
          exact ((ih.chain hlt (by omega) h).behind hcut).mono (List.subset_cons_self _ _)
    · cases h
  · cases h

theorem meets_factor (hroom : 10 * ts.length + 3 ≤ depth + 1) (h : readFactor m (depth + 1) ts = .error e) :
    Met m e ts := by
  rw [readFactor.eq_def] at h
  dsimp only at h
  split at h
  · split at h
    · rw [List.length_cons] at hroom
      split at h
      · rename_i _ hread
        cases h
        exact (ih.factor (by omega) hread).mono (List.subset_cons_self _ _)
      · exact absurd (map_eq_error.mp h) (hm.unary _ _)
    · exact ih.power (by omega) h
  · exact absurd (Except.error.inj h) (hm.fault _ (Fault.noConfusion ·))

theorem meets_power (hroom : 10 * ts.length + 2 ≤ depth + 1) (h : readPower m (depth + 1) ts = .error e) :
    Met m e ts := by
  rw [readPower] at h
  split at h
  · rename_i _ hread
    cases h
    exact ih.atom (by omega) hread
  · rename_i hread
    have hcut := (cuts m depth).atom hread
    have hshort := hcut.shorter
    rw [List.length_cons] at hshort
    split at h
    · rename_i _ hexponent
      cases h
      exact ((ih.factor (by omega) hexponent).mono (List.subset_cons_self (.op .pow) _)).behind hcut
    · exact absurd (map_eq_error.mp h) (hm.binary _ _ _)
  · cases h

theorem meets_atom (hroom : 10 * ts.length + 1 ≤ depth + 1) (h : readAtom m (depth + 1) ts = .error e) :
    Met m e ts := by
  rw [readAtom.eq_def] at h
  dsimp only at h
  split at h
  · exact absurd (Except.error.inj h) (hm.fault _ (Fault.noConfusion ·))
  · cases h
  · cases h
  · cases h
  · rename_i s rest
    split at h
    · cases h
    · rename_i notTrue
      split at h
      · cases h
      · rename_i notFalse
        exact ⟨s, List.mem_cons_self, notTrue, notFalse, map_eq_error.mp h⟩
  · rw [List.length_cons] at hroom
    split at h
    · rename_i _ hread
      cases h
      exact (ih.level (Nat.zero_le _) (by omega) hread).mono (List.subset_cons_self _ _)
    · cases h
    · exact absurd (Except.error.inj h) (hm.fault _ (Fault.noConfusion ·))
  · exact absurd (Except.error.inj h) (hm.fault _ (Fault.noConfusion ·))
  · exact absurd (Except.error.inj h) (hm.fault _ (Fault.noConfusion ·))
  · exact absurd (Except.error.inj h) (hm.fault _ (Fault.noConfusion ·))

end Step

theorem meets (hm : m.NamesOnly e) (depth : Nat) : Meets m e depth := by
  induction depth with
  | zero =>
    -- No list of tokens gets by without depth.
    have hlevels : levels = 6 := rfl
    constructor
    · intro _ _ _ hroom
      omega
    · intro _ _ _ _ hroom
      omega
    · intro _ hroom
      omega
    · intro _ hroom
      omega
    · intro _ hroom
      omega
  | succ depth ih =>
    exact ⟨fun hle hroom h => meets_level ih hle hroom h, fun hlt hroom h => meets_chain hm ih hlt hroom h,
      fun hroom h => meets_factor hm ih hroom h, fun hroom h => meets_power hm ih hroom h,
      fun hroom h => meets_atom hm ih hroom h⟩

theorem met_of_readAll (hm : m.NamesOnly e) (h : readAll m ts = .error e) : Met m e ts := by
  rw [readAll] at h
  split at h
  · rename_i _ hread
    cases h
    refine (meets hm _).level (Nat.zero_le _) ?_ hread
    rw [depthFor]
    omega
  · cases h
  · exact absurd (Except.error.inj h) (hm.fault _ (Fault.noConfusion ·))

/-- The text has the name as one of its tokens, and the name has no value of its own. -/
def Mentions (source name : String) : Prop :=
  ∃ ts, tokens source.toList = .ok ts ∧ .name name ∈ ts ∧ name ≠ "True" ∧ name ≠ "False"

theorem ofOperator_ne_unknownName (o : OperatorError) (name : String) : ExprError.ofOperator o ≠ .unknownName name := by
  cases o <;> exact fun h => by cases h

theorem value_namesOnly (source : String) (env : Env) (name : String) :
    (value source env).NamesOnly (.unknownName name) where
  fault _ _ h := by cases h
  unary o x h := by
    change (Scalar.unary o x).mapError ExprError.ofOperator = _ at h
    cases hx : Scalar.unary o x with
    | ok y => simp [hx, Except.mapError] at h
    | error f =>
      rw [hx] at h
      exact ofOperator_ne_unknownName f name (Except.error.inj h)
  binary o x y h := by
    change (Scalar.binary o x y).mapError ExprError.ofOperator = _ at h
    cases hx : Scalar.binary o x y with
    | ok z => simp [hx, Except.mapError] at h
    | error f =>
      rw [hx] at h
      exact ofOperator_ne_unknownName f name (Except.error.inj h)

/-- An evaluation that stops at an unknown name has met it in the text. -/
theorem evaluate_unknown {source name : String} {env : Env} (h : evaluate source env = .error (.unknownName name)) :
    Mentions source name ∧ env.get? name = none := by
  rw [evaluate, readText] at h
  split at h
  · cases h
  rename_i ts hts
  obtain ⟨s, hs, notTrue, notFalse, hname⟩ := met_of_readAll (value_namesOnly source env name) h
  change lookup env s = _ at hname
  unfold lookup at hname
  split at hname
  · cases hname
  · rename_i hnone
    cases hname
    exact ⟨⟨ts, hts, hs, notTrue, notFalse⟩, hnone⟩

/-- With more constants an evaluation comes to the same end, unless that is a name which has become known. -/
theorem evaluate_stable (source : String) (env : Env) :
    ((∀ name, evaluate source env ≠ .error (.unknownName name)) →
      ∀ env', env.Extends env' → evaluate source env' = evaluate source env) ∧
    ∀ name, evaluate source env = .error (.unknownName name) → env.get? name = none ∧
      ∀ env', env.Extends env' →
        (evaluate source env' = .error (.unknownName name) ↔ env'.get? name = none) := by
  constructor
  · intro settled env' h
    rcases evaluate_extends h source with same | ⟨name, stopped, _⟩
    · exact same
    · exact absurd stopped (settled name)
  · intro name stopped
    refine ⟨(evaluate_unknown stopped).2, fun env' h => ⟨fun stays => (evaluate_unknown stays).2, fun unknown => ?_⟩⟩
    rcases evaluate_extends h source with same | ⟨other, stopped', _, known⟩
    · rw [same, stopped]
    · -- The name at which it stopped is the one that has become known.
      obtain rfl : name = other := by
        rw [stopped] at stopped'
        exact ExprError.unknownName.inj (Except.error.inj stopped')
      rw [unknown] at known
      cases known

/-- The second name comes before the division. -/
theorem evaluate_sumOfNames (env : Env) : evaluate "a + b + 1 // 0" env =
    (Expr.binary .add (.binary .add (.name "a") (.name "b")) (.binary .floorDiv (.int 1) (.int 0))).eval env := by
  have space : ∀ c ∈ [' '], Text.isBlank c = true := List.forall_mem_singleton.mpr rfl
  have gap : ∀ {c : Char} {cs : List Char}, c :: cs ≠ [] := List.cons_ne_nil _ _
  have a : tokens ['a'] = .ok [.name "a"] := tokens_lexeme rfl rfl
  have b : tokens ['b'] = .ok [.name "b"] := tokens_lexeme rfl rfl
  have plus : tokens ['+'] = .ok [.op .add] := tokens_lexeme rfl rfl
  have one : tokens ['1'] = .ok [.int 1] := tokens_lexeme rfl rfl
  have divided : tokens ['/', '/'] = .ok [.op .floorDiv] := tokens_lexeme rfl rfl
  have zero : tokens ['0'] = .ok [.int 0] := tokens_lexeme rfl rfl
  have spelled : Spelled (print 0 (.binary .add (.binary .add (.name "a") (.name "b"))
      (.binary .floorDiv (.int 1) (.int 0)))) "a + b + 1 // 0".toList :=
    .more a gap space <| .more plus gap space <| .more b gap space <| .more plus gap space <|
    .more one gap space <| .more divided gap space <| .last zero
  exact evaluate_of_phrase spelled.tokens_eq (phrase_print _ (Nat.zero_le _)) env

/-- Knowing `c` does not help, and once `b` is known the division fails, whatever else is known. -/
theorem evaluate_stable_sumOfNames :
    (evaluate "a + b + 1 // 0" [("a", .int 2)] = .error (.unknownName "b") ∧
      evaluate "a + b + 1 // 0" [("c", .int 5), ("a", .int 2)] = .error (.unknownName "b")) ∧
    evaluate "a + b + 1 // 0" [("b", .int 3), ("a", .int 2)] = .error .divisionByZero ∧
      evaluate "a + b + 1 // 0" [("c", .int 5), ("b", .int 3), ("a", .int 2)] = .error .divisionByZero := by
  have grows : ∀ {env : Env}, env.get? "c" = none → env.Extends (("c", .int 5) :: env) := by
    intro env hc key value h
    rw [Entries.get?, if_neg]
    · exact h
    · rintro rfl
      rw [hc] at h
      cases h
  have stopped : evaluate "a + b + 1 // 0" [("a", .int 2)] = .error (.unknownName "b") :=
    (evaluate_sumOfNames _).trans rfl
  have failed : evaluate "a + b + 1 // 0" [("b", .int 3), ("a", .int 2)] = .error .divisionByZero :=
    (evaluate_sumOfNames _).trans rfl
  have stays := ((evaluate_stable _ _).2 "b" stopped).2 _ (grows rfl)
  have settled := (evaluate_stable _ _).1 (fun name h => by rw [failed] at h; cases h) _ (grows rfl)
  exact ⟨⟨stopped, stays.mpr rfl⟩, failed, settled.trans failed⟩

end AddressMap.Expr
