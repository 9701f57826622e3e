import AddressMap.Expr
import AddressMap.Proofs.Expr.Grammar
import AddressMap.Proofs.Expr.Token
import AddressMap.Proofs.LoopNest.Name
import AddressMap.Typedef.Layout
import Mathlib.Data.List.Forall2

set_option autoImplicit false

namespace AddressMap.LoopNest

open AddressMap.Expr

def shift : List LoopLevel → List Nat → Nat
  | l :: ls, i :: is => l.stride * i + shift ls is
  | _, _ => 0

def sumTokens (loops : List LoopLevel) : List Expr.Token :=
  loops.flatMap fun l => [.op .add, .int l.stride, .op .mul, .name l.variableName]

def sumText (loops : List LoopLevel) : List Char :=
  loops.flatMap fun l => '+' :: (Nat.toDigits 10 l.stride ++ '*' :: l.variableName.toList)

theorem loopOffset_toList (base : Nat) (loops : List LoopLevel) :
    (loopOffset base loops).toList = Nat.toDigits 10 base ++ sumText loops := by
  have product : ∀ l : LoopLevel, (s!"+{l.stride}*{l.variableName}").toList =
      '+' :: (Nat.toDigits 10 l.stride ++ '*' :: l.variableName.toList) := by
    intro l
    simp only [String.toList_append, Nat.toString_eq_ofList_toDigits, String.toList_ofList,
      List.append_assoc]
    rfl
  have folded : ∀ text : String,
      (loops.foldl (fun text l => text ++ s!"+{l.stride}*{l.variableName}") text).toList =
        text.toList ++ sumText loops := by
    induction loops with
    | nil => simp [sumText]
    | cons l loops ih =>
      intro text
      rw [List.foldl_cons, ih, String.toList_append, product, List.append_assoc]
      rfl
  rw [loopOffset, folded, Nat.toString_eq_ofList_toDigits, String.toList_ofList]

theorem head_sumText (loops : List LoopLevel) : ∀ c ∈ (sumText loops).head?, c = '+' := by
  cases loops <;> simp [sumText]

theorem tokens_sumText {loops : List LoopLevel}
    (hvar : ∀ l ∈ loops, ∃ level, l.variableName = variableName level)
    (hfit : ∀ l ∈ loops, Scalar.fits l.stride = true) : tokens (sumText loops) = .ok (sumTokens loops) := by
  induction loops with
  | nil =>
    rw [sumText, List.flatMap_nil, tokens]
    rfl
  | cons l loops ih =>
    obtain ⟨level, hlevel⟩ := hvar l List.mem_cons_self
    obtain ⟨c, ds, htext, hc, hds⟩ := variableName_toList level
    rw [← hlevel] at htext
    have tail := ih (fun k hk => hvar k (List.mem_cons_of_mem _ hk))
      (fun k hk => hfit k (List.mem_cons_of_mem _ hk))
    have nameEnds : ∀ d ∈ (sumText loops).head?, isNameChar d = false := by
      intro d hd
      rw [head_sumText loops d hd]
      decide
    have name := tokens_variable hc hds nameEnds
    rw [tail, ← htext, String.ofList_toList] at name
    have star : tokens ('*' :: (l.variableName.toList ++ sumText loops)) =
        .ok (.op .mul :: .name l.variableName :: sumTokens loops) := by
      rw [htext] at name ⊢
      rw [List.cons_append, tokens_star (by rintro rfl; exact absurd hc (by decide)),
        ← List.cons_append, name]
      rfl
    have numberEnds : ∀ d ∈ ('*' :: (l.variableName.toList ++ sumText loops)).head?,
        isNumberChar d = false := by
      rintro d ⟨⟩
      decide
    have number := tokens_toDigits (hfit l List.mem_cons_self) numberEnds
    rw [star] at number
    have text : sumText (l :: loops) = '+' :: (Nat.toDigits 10 l.stride ++
        '*' :: (l.variableName.toList ++ sumText loops)) := by
      simp [sumText]
    rw [text, tokens_plus, number]
    rfl

theorem tokens_loopOffset {base : Nat} {loops : List LoopLevel} (hbase : Scalar.fits base = true)
    (hvar : ∀ l ∈ loops, ∃ level, l.variableName = variableName level)
    (hfit : ∀ l ∈ loops, Scalar.fits l.stride = true) :
    tokens (loopOffset base loops).toList = .ok (.int base :: sumTokens loops) := by
  have numberEnds : ∀ c ∈ (sumText loops).head?, isNumberChar c = false := by
    intro c hc
    rw [head_sumText loops c hc]
    decide
  rw [loopOffset_toList, tokens_toDigits hbase numberEnds, tokens_sumText hvar hfit]
  rfl

variable {source : String} {env : Env}

theorem value_mul {a b : Nat} (h : Scalar.fits (a * b : Nat) = true) :
    (value source env).binary .mul (.int a) (.int b) = .ok (.int (a * b : Nat)) := by
  rw [Int.natCast_mul] at h ⊢
  simp [value, Scalar.binary, Scalar.intBinary, Scalar.within, h, Except.mapError, Except.map]

theorem value_add {a b : Nat} (h : Scalar.fits (a + b : Nat) = true) :
    (value source env).binary .add (.int a) (.int b) = .ok (.int (a + b : Nat)) := by
  rw [Int.natCast_add] at h ⊢
  simp [value, Scalar.binary, Scalar.intBinary, Scalar.within, h, Except.mapError, Except.map]

theorem readLevel_product {l : LoopLevel} {i depth : Nat} {rest : List Expr.Token}
    (hname : l.variableName ≠ "True" ∧ l.variableName ≠ "False")
    (henv : env.get? l.variableName = some (.int i)) (hfit : Scalar.fits (l.stride * i : Nat) = true)
    (hrest : ∀ t ∈ rest.head?, t = .op .add) :
    readLevel (value source env) (depth + 7) 5
        (.int l.stride :: .op .mul :: .name l.variableName :: rest) =
      .ok (.int (l.stride * i : Nat), rest) := by
  have number : readLevel (value source env) (depth + 6) 6
      (.int l.stride :: .op .mul :: .name l.variableName :: rest) =
        .ok (.int l.stride, .op .mul :: .name l.variableName :: rest) := by
    refine readLevel_operand rfl rfl ?_
    rintro more ⟨⟩
  have operand : readLevel (value source env) (depth + 5) 6 (.name l.variableName :: rest) =
      .ok (.int i, rest) := by
    refine readLevel_operand rfl ?_ ?_
    · rw [readAtom, if_neg hname.1, if_neg hname.2]
      simp only [value, lookup, henv]
      rfl
    · rintro more rfl
      cases hrest _ rfl
  rw [readLevel, if_pos (by decide), number]
  refine (readChain_continues rfl operand (value_mul hfit)).trans (readChain_stops _ ?_)
  rintro t ht b rfl
  cases hrest _ ht
  decide

theorem head_sumTokens (loops : List LoopLevel) : ∀ t ∈ (sumTokens loops).head?, t = .op .add := by
  cases loops <;> simp [sumTokens]

theorem length_sumTokens (loops : List LoopLevel) : (sumTokens loops).length = 4 * loops.length := by
  induction loops with
  | nil => rfl
  | cons l loops ih =>
    have tail : (sumTokens (l :: loops)).length = 4 + (sumTokens loops).length := by
      simp only [sumTokens, List.flatMap_cons, List.length_append, List.length_cons, List.length_nil]
    rw [tail, ih, List.length_cons, Nat.mul_succ, Nat.add_comm]

theorem fits_of_lt {n : Nat} (h : n < Typedef.sizeLimit) : Scalar.fits n = true := by
  have hlimit : Typedef.sizeLimit = 18446744073709551616 := rfl
  unfold Scalar.fits Scalar.minInt Scalar.maxInt
  rw [Bool.and_eq_true, decide_eq_true_eq, decide_eq_true_eq]
  omega

theorem readChain_sum {loops : List LoopLevel} {indices : List Nat}
    (hvar : ∀ l ∈ loops, l.variableName ≠ "True" ∧ l.variableName ≠ "False")
    (henv : List.Forall₂ (fun (l : LoopLevel) (i : Nat) => env.get? l.variableName = some (.int i)) loops indices)
    {depth base : Nat} (hdepth : loops.length + 8 ≤ depth)
    (hfit : base + shift loops indices < Typedef.sizeLimit) :
    readChain (value source env) depth 4 (.int base) (sumTokens loops) =
      .ok (.int (base + shift loops indices : Nat), []) := by
  induction henv generalizing base depth with
  | nil =>
    obtain ⟨depth, rfl⟩ : ∃ k, depth = k + 1 := ⟨depth - 1, by omega⟩
    refine readChain_stops _ ?_
    rintro t ⟨⟩
  | @cons l i loops indices hl _ ih =>
    obtain ⟨depth, rfl⟩ : ∃ k, depth = k + 8 := ⟨depth - 8, by omega⟩
    simp only [shift] at hfit ⊢
    have product : readLevel (value source env) (depth + 7) 5
        (.int l.stride :: .op .mul :: .name l.variableName :: sumTokens loops) =
          .ok (.int (l.stride * i : Nat), sumTokens loops) :=
      readLevel_product (hvar l List.mem_cons_self) hl (fits_of_lt (by omega)) (head_sumTokens loops)
    have hlength : loops.length + 8 ≤ depth + 7 := by
      rw [List.length_cons] at hdepth
      omega
    have hsum : base + l.stride * i + shift loops indices < Typedef.sizeLimit := by omega
    have tail := ih (fun k hk => hvar k (List.mem_cons_of_mem _ hk)) hlength hsum
    rw [Nat.add_assoc] at tail
    exact (readChain_continues rfl product (value_add (fits_of_lt (by omega)))).trans tail

theorem ne_of_variableName (level : Nat) :
    variableName level ≠ "True" ∧ variableName level ≠ "False" := by
  obtain ⟨c, ds, heq, hc, _⟩ := variableName_toList level
  constructor
  · intro h
    rw [h] at heq
    rw [← (List.cons.inj heq).1] at hc
    exact absurd hc (by decide)
  · intro h
    rw [h] at heq
    rw [← (List.cons.inj heq).1] at hc
    exact absurd hc (by decide)

/-- The value of an offset over loop variables is the offset at the current indices. -/
theorem evaluate_loopOffset {loops : List LoopLevel} {indices : List Nat} {base : Nat}
    (hvar : ∀ l ∈ loops, ∃ level, l.variableName = variableName level)
    (henv : List.Forall₂ (fun (l : LoopLevel) (i : Nat) => env.get? l.variableName = some (.int i))
      loops indices)
    (hstride : ∀ l ∈ loops, l.stride < Typedef.sizeLimit)
    (hfit : base + shift loops indices < Typedef.sizeLimit) :
    evaluate (loopOffset base loops) env = .ok (.int (base + shift loops indices : Nat)) := by
  have cut := tokens_loopOffset (fits_of_lt (Nat.lt_of_le_of_lt (Nat.le_add_right _ _) hfit)) hvar
    fun l hl => fits_of_lt (hstride l hl)
  have hdepth : depthFor (.int base :: sumTokens loops) = 40 * loops.length + 10 + 10 := by
    rw [depthFor, List.length_cons, length_sumTokens]
    omega
  have first : readLevel (value (loopOffset base loops) env) (40 * loops.length + 10 + 5) 5
      (.int base :: sumTokens loops) = .ok (.int base, sumTokens loops) := by
    refine readLevel_passes (by decide) (readLevel_operand rfl rfl ?_) ?_
    · intro more heq
      cases head_sumTokens loops (.op .pow) (by rw [heq]; rfl)
    · rintro t ht b rfl
      cases head_sumTokens loops _ ht
      decide
  have sum : readLevel (value (loopOffset base loops) env) (40 * loops.length + 10 + 6) 4
      (.int base :: sumTokens loops) = .ok (.int (base + shift loops indices : Nat), []) := by
    rw [readLevel, if_pos (by decide), first]
    exact readChain_sum (fun l hl => (hvar l hl).elim fun level h => h ▸ ne_of_variableName level)
      henv (by omega) hfit
  -- The looser levels find nothing left to read.
  have all : readLevel (value (loopOffset base loops) env) (40 * loops.length + 10 + 10) 0
      (.int base :: sumTokens loops) = .ok (.int (base + shift loops indices : Nat), []) := by
    refine readLevel_passes (by decide) (readLevel_passes (by decide) (readLevel_passes (by decide)
      (readLevel_passes (by decide) sum ?_) ?_) ?_) ?_
    all_goals
      rintro t ⟨⟩
  rw [evaluate, readText, cut]
  simp only
  rw [readAll, hdepth, all]

end AddressMap.LoopNest
