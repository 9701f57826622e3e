import AddressMap.Expr
import AddressMap.Proofs.Scalar.Steps
import Mathlib.Data.Rat.Floor

set_option autoImplicit false

namespace AddressMap

def UnaryOp.Means : UnaryOp → Int → Int → Prop
  | .plus, a, r => r = a
  | .minus, a, r => r = -a
  | .invert, a, r => ∀ k, r.testBit k = !a.testBit k

namespace BinaryOp

/-- The result on integers without bounds; the bits of a negative one go on as ones without end. -/
def Means : BinaryOp → Int → Int → Int → Prop
  | .or, a, b, r => ∀ k, r.testBit k = (a.testBit k || b.testBit k)
  | .xor, a, b, r => ∀ k, r.testBit k = (a.testBit k ^^ b.testBit k)
  | .and, a, b, r => ∀ k, r.testBit k = (a.testBit k && b.testBit k)
  | .shiftLeft, a, b, r => 0 ≤ b ∧ r = a * 2 ^ b.toNat
  | .shiftRight, a, b, r => 0 ≤ b ∧ r = ⌊(a : ℚ) / 2 ^ b.toNat⌋
  | .add, a, b, r => r = a + b
  | .sub, a, b, r => r = a - b
  | .mul, a, b, r => r = a * b
  | .div, _, _, _ => False
  | .floorDiv, a, b, r => b ≠ 0 ∧ r = ⌊(a : ℚ) / b⌋
  | .mod, a, b, r => b ≠ 0 ∧ a = ⌊(a : ℚ) / b⌋ * b + r ∧ |r| < |b| ∧ (r ≠ 0 → (r < 0 ↔ b < 0))
  | .pow, a, b, r => 0 ≤ b ∧ r = a ^ b.toNat

/-- The second operand is one for which the operator has an integer result. -/
def Defined : BinaryOp → Int → Prop
  | .div, _ => False
  | .floorDiv, b | .mod, b => b ≠ 0
  | .shiftLeft, b | .shiftRight, b | .pow, b => 0 ≤ b
  | _, _ => True

def divides (op : BinaryOp) : Bool := op = .div || op = .floorDiv || op = .mod

def shifts (op : BinaryOp) : Bool := op = .shiftLeft || op = .shiftRight

/-- The operands whose exact result fits and is refused all the same: the remainder for which the quotient does not
    fit, and counts that are too large for the machine but do not matter to the result. -/
def withholds : BinaryOp → Int → Int → Bool
  | .mod, a, b => a = Scalar.minInt && b = -1
  | .shiftLeft, a, b => a = 0 && 128 ≤ b
  | .shiftRight, _, b => Scalar.countLimit ≤ b
  | .pow, a, b => a.natAbs ≤ 1 && Scalar.countLimit ≤ b
  | _, _, _ => false

end BinaryOp

namespace Scalar

theorem floor_eq_fdiv (a b : Int) : ⌊(a : ℚ) / b⌋ = a.fdiv b := by
  have ofNat (a : Int) (n : Nat) : ⌊(a : ℚ) / (n : Int)⌋ = a.fdiv n := by
    rw [Int.fdiv_eq_ediv_of_nonneg a (Int.natCast_nonneg n)]
    exact Rat.floor_intCast_div_natCast a n
  obtain ⟨n, rfl | rfl⟩ := Int.eq_nat_or_neg b
  · exact ofNat a n
  · rw [← Int.neg_fdiv_neg, neg_neg, ← ofNat, Int.cast_neg, Int.cast_neg, div_neg, neg_div]

theorem floor_eq_ediv (a : Int) (n : Nat) : ⌊(a : ℚ) / 2 ^ n⌋ = a / 2 ^ n := by
  have := Rat.floor_intCast_div_natCast a (2 ^ n)
  push_cast at this
  exact this

theorem means_unique {op : BinaryOp} {a b r s : Int} (hr : op.Means a b r) (hs : op.Means a b s) : s = r := by
  cases op with
  | or | xor | and => exact eq_of_testBit_eq fun k => (hs k).trans (hr k).symm
  | add | sub | mul => exact hs.trans hr.symm
  | div => exact hr.elim
  | shiftLeft | shiftRight | floorDiv | pow => exact hs.2.trans hr.2.symm
  | mod =>
    have first := hr.2.1
    have second := hs.2.1
    omega

theorem means_mod (a : Int) {b : Int} (hb : b ≠ 0) : BinaryOp.mod.Means a b (a.fmod b) := by
  have split := Int.mul_fdiv_add_fmod a b
  refine ⟨hb, ?_, fmod_bounds a hb⟩
  rw [floor_eq_fdiv]
  linarith

theorem intBinary_eq {op : BinaryOp} {a b : Int} (ha : fits a = true) (hb : fits b = true) (h : op.Defined b) :
    ∃ r, op.Means a b r ∧ (op.withholds a b = true → fits r = true) ∧ intBinary op a b =
      if op.withholds a b then .error .refused else (within .refused r).map .int := by
  have exact {r : Int} (fit : fits r = true) : (within .refused r).map Scalar.int = .ok (.int r) := by
    rw [within, if_pos fit]
    rfl
  have never {p : Prop} (withheld : false = true) : p := absurd withheld Bool.false_ne_true
  cases op with
  | add => exact ⟨a + b, rfl, never, rfl⟩
  | sub => exact ⟨a - b, rfl, never, rfl⟩
  | mul => exact ⟨a * b, rfl, never, rfl⟩
  | or => exact ⟨_, testBit_bitwise (fun _ _ _ _ => BitVec.getLsbD_or) ha hb, never, (exact (fits_bitwise _ a b)).symm⟩
  | xor =>
    exact ⟨_, testBit_bitwise (fun _ _ _ _ => BitVec.getLsbD_xor) ha hb, never, (exact (fits_bitwise _ a b)).symm⟩
  | and =>
    exact ⟨_, testBit_bitwise (fun _ _ _ _ => BitVec.getLsbD_and) ha hb, never, (exact (fits_bitwise _ a b)).symm⟩
  | div => exact h.elim
  | floorDiv =>
    refine ⟨a.fdiv b, ⟨h, (floor_eq_fdiv a b).symm⟩, never, ?_⟩
    exact congrArg (Except.map Scalar.int) (floorDiv_eq ha h)
  | mod =>
    have fit := fits_fmod a hb h
    refine ⟨a.fmod b, means_mod a h, fun _ => fit, ?_⟩
    rw [exact fit]
    simp only [intBinary, mod_eq ha hb h, BinaryOp.withholds, Bool.and_eq_true, decide_eq_true_eq]
    split_ifs <;> rfl
  | shiftLeft =>
    obtain ⟨n, rfl⟩ := Int.eq_ofNat_of_zero_le h
    refine ⟨a * 2 ^ n, ⟨h, by rw [Int.toNat_natCast]⟩, ?_, ?_⟩
    · intro withheld
      simp only [BinaryOp.withholds, Bool.and_eq_true, decide_eq_true_eq] at withheld
      rw [withheld.1, zero_mul]
      decide
    · simp only [intBinary, BinaryOp.withholds, Bool.and_eq_true, decide_eq_true_eq]
      by_cases wide : n < 128
      · rw [shiftLeft_of_lt rfl wide, if_neg (by omega)]
      · rw [shiftLeft_of_wide (by omega)]
        split_ifs with withheld
        · rfl
        · rw [within, if_neg (not_fits_mul (by omega) (by omega))]
  | shiftRight =>
    obtain ⟨n, rfl⟩ := Int.eq_ofNat_of_zero_le h
    have fit := fits_ediv_pow ha n
    refine ⟨a / 2 ^ n, ⟨h, by rw [Int.toNat_natCast, floor_eq_ediv]⟩, fun _ => fit, ?_⟩
    rw [exact fit]
    simp only [intBinary, BinaryOp.withholds, decide_eq_true_eq]
    split_ifs with wide
    · rw [shiftRight_of_count (count_of_ge wide)]
      rfl
    · rw [shiftRight_of_lt ha rfl (not_le.mp wide)]
      rfl
  | pow =>
    obtain ⟨n, rfl⟩ := Int.eq_ofNat_of_zero_le h
    refine ⟨a ^ n, ⟨h, by rw [Int.toNat_natCast]⟩, ?_, ?_⟩
    · intro withheld
      simp only [BinaryOp.withholds, Bool.and_eq_true, decide_eq_true_eq] at withheld
      exact fits_pow_of_natAbs_le_one withheld.1 n
    · simp only [intBinary, if_neg (not_lt.mpr h), BinaryOp.withholds, Bool.and_eq_true, decide_eq_true_eq]
      by_cases wide : countLimit ≤ (n : Int)
      · rw [power_of_count (count_of_ge wide)]
        by_cases small : a.natAbs ≤ 1
        · rw [if_pos ⟨small, wide⟩]
          rfl
        · have large : 128 ≤ n := by
            unfold countLimit at wide
            omega
          rw [if_neg (fun withheld => small withheld.1), within, if_neg (not_fits_pow small large)]
      · rw [power_of_lt rfl (not_le.mp wide), if_neg (fun withheld => wide withheld.2)]

theorem intBinary_of_zero {op : BinaryOp} {a b : Int} (h : op.divides = true) (hb : b = 0) :
    intBinary op a b = .error .refused := by
  subst hb
  cases op with
  | div | floorDiv | mod => rfl
  | _ => cases h

theorem intBinary_of_neg {op : BinaryOp} {a b : Int} (h : op.shifts = true) (hb : b < 0) :
    intBinary op a b = .error .refused := by
  have counted := count_of_neg hb
  cases op with
  | shiftLeft =>
    rw [intBinary, shiftLeft_of_count counted]
    rfl
  | shiftRight =>
    rw [intBinary, shiftRight_of_count counted]
    rfl
  | _ => cases h

theorem intBinary_of_undefined {op : BinaryOp} {a b : Int} (h : ¬op.Defined b) :
    intBinary op a b = .error .refused ∨ ∃ x, intBinary op a b = .ok (.float x) := by
  cases op with
  | or | xor | and | add | sub | mul => exact (h trivial).elim
  | div =>
    by_cases zero : b = 0
    · exact .inl (if_pos zero)
    · exact .inr ⟨_, if_neg zero⟩
  | floorDiv | mod => exact .inl (intBinary_of_zero rfl (not_not.mp h))
  | shiftLeft | shiftRight => exact .inl (intBinary_of_neg rfl (not_le.mp h))
  | pow => exact .inr ⟨_, if_pos (not_le.mp h)⟩

theorem intBinary_eq_error {op : BinaryOp} {a b : Int} (ha : fits a = true) (hb : fits b = true) {stop : Stop}
    (h : intBinary op a b = .error stop) : stop = .refused := by
  by_cases defined : op.Defined b
  · obtain ⟨r, -, -, heq⟩ := intBinary_eq ha hb defined
    rw [heq] at h
    unfold within at h
    split_ifs at h
    · exact (Except.error.inj h).symm
    · cases h
    · exact (Except.error.inj h).symm
  · rcases intBinary_of_undefined (a := a) defined with refused | ⟨x, ok⟩
    · exact (Except.error.inj (refused.symm.trans h)).symm
    · cases ok.symm.trans h

theorem intBinary_eq_ok {op : BinaryOp} {a b i : Int} (ha : fits a = true) (hb : fits b = true)
    (h : intBinary op a b = .ok (.int i)) : op.Means a b i ∧ fits i = true := by
  by_cases defined : op.Defined b
  · obtain ⟨r, means, -, heq⟩ := intBinary_eq ha hb defined
    rw [heq] at h
    unfold within at h
    split_ifs at h with _ fit
    · cases h
      exact ⟨means, fit⟩
    · cases h
  · rcases intBinary_of_undefined (a := a) defined with refused | ⟨x, ok⟩
    · cases refused.symm.trans h
    · cases ok.symm.trans h

theorem refusal_eq (op : BinaryOp) (a b : Int) : refusal op a b =
    if op.divides = true ∧ b = 0 then .divisionByZero
    else if op.shifts = true ∧ b < 0 then .negativeShift a op b else .overflow := by
  unfold refusal BinaryOp.divides BinaryOp.shifts
  simp only [Bool.or_eq_true, decide_eq_true_eq, or_assoc]

theorem binary_eq_error {op : BinaryOp} {a b : Int} (ha : fits a = true) (hb : fits b = true) {e : OperatorError} :
    binary op (.int a) (.int b) = .error e ↔ intBinary op a b = .error .refused ∧ refusal op a b = e := by
  change (intBinary op a b).mapError _ = _ ↔ _
  cases h : intBinary op a b with
  | ok x => simp [Except.mapError]
  | error stop =>
    obtain rfl := intBinary_eq_error ha hb h
    simp [Except.mapError]

theorem binary_eq_ok {op : BinaryOp} {a b : Int} {x : Scalar} :
    binary op (.int a) (.int b) = .ok x ↔ intBinary op a b = .ok x := by
  change (intBinary op a b).mapError _ = _ ↔ _
  cases intBinary op a b <;> simp [Except.mapError]

theorem binary_eq_divisionByZero {op : BinaryOp} {a b : Int} (ha : fits a = true) (hb : fits b = true) :
    binary op (.int a) (.int b) = .error .divisionByZero ↔ op.divides = true ∧ b = 0 := by
  rw [binary_eq_error ha hb, refusal_eq]
  constructor
  · rintro ⟨-, h⟩
    split_ifs at h with zero
    exact zero
  · intro h
    exact ⟨intBinary_of_zero h.1 h.2, if_pos h⟩

/-- No operator both divides and shifts, so the two errors do not compete. -/
theorem binary_eq_negativeShift {op op' : BinaryOp} {a b i j : Int} (ha : fits a = true) (hb : fits b = true) :
    binary op (.int a) (.int b) = .error (.negativeShift i op' j) ↔
      (op.shifts = true ∧ b < 0) ∧ i = a ∧ op' = op ∧ j = b := by
  rw [binary_eq_error ha hb, refusal_eq]
  constructor
  · rintro ⟨-, h⟩
    split_ifs at h with zero neg
    cases h
    exact ⟨neg, rfl, rfl, rfl⟩
  · rintro ⟨neg, rfl, rfl, rfl⟩
    exact ⟨intBinary_of_neg neg.1 neg.2, by rw [if_neg (by omega), if_pos neg]⟩

theorem unary_eq_ok {op : UnaryOp} {a i : Int} (ha : fits a = true) (h : unary op (.int a) = .ok (.int i)) :
    op.Means a i ∧ fits i = true := by
  cases op with
  | plus =>
    cases h
    exact ⟨rfl, ha⟩
  | minus =>
    change ((within .refused (-a)).map Scalar.int).mapError (fun _ => OperatorError.overflow) = _ at h
    unfold within at h
    split_ifs at h with fit
    · cases h
      exact ⟨rfl, fit⟩
    · cases h
  | invert =>
    cases h
    refine ⟨testBit_invert a, ?_⟩
    rw [fits_iff] at ha ⊢
    omega

/-- Integer results are exact and fit, nothing traps, and only division by zero and negative shifts are reported as
    such. -/
theorem operators_exact (a b : Int) (ha : fits a = true) (hb : fits b = true) :
    (∀ op i, unary op (.int a) = .ok (.int i) → op.Means a i ∧ fits i = true) ∧
      (∀ op i, binary op (.int a) (.int b) = .ok (.int i) → op.Means a b i ∧ fits i = true) ∧
      (∀ op, (binary op (.int a) (.int b)).mapError ExprError.ofOperator = .error .divisionByZero ↔
        op.divides = true ∧ b = 0) ∧
      (∀ op source fault,
        (binary op (.int a) (.int b)).mapError ExprError.ofOperator = .error (.malformed source fault) ↔
          (op.shifts = true ∧ b < 0) ∧ source = s!"{a} {op.symbol} {b}" ∧ fault = .negativeShift) ∧
      ∀ op, intBinary op a b ≠ .error .trapped := by
  have reported {op : BinaryOp} {e : ExprError} :
      (binary op (.int a) (.int b)).mapError ExprError.ofOperator = .error e ↔
        ∃ cause, binary op (.int a) (.int b) = .error cause ∧ ExprError.ofOperator cause = e := by
    cases binary op (.int a) (.int b) <;> simp [Except.mapError]
  refine ⟨fun op i h => unary_eq_ok ha h, fun op i h => intBinary_eq_ok ha hb (binary_eq_ok.mp h), ?_, ?_, ?_⟩
  · intro op
    rw [reported, ← binary_eq_divisionByZero ha hb]
    constructor
    · rintro ⟨cause, h, heq⟩
      cases cause with
      | divisionByZero => exact h
      | _ => cases heq
    · intro h
      exact ⟨_, h, rfl⟩
  · intro op source fault
    rw [reported]
    constructor
    · rintro ⟨cause, h, heq⟩
      cases cause with
      | negativeShift i op' j =>
        obtain ⟨neg, rfl, rfl, rfl⟩ := (binary_eq_negativeShift ha hb).mp h
        cases heq
        exact ⟨neg, rfl, rfl⟩
      | _ => cases heq
    · rintro ⟨neg, rfl, rfl⟩
      exact ⟨_, (binary_eq_negativeShift ha hb).mpr ⟨neg, rfl, rfl, rfl⟩, rfl⟩
  · intro op h
    cases intBinary_eq_error ha hb h

/-- At the least integer, where neither the quotient toward zero nor its remainder is the one of the floor. -/
theorem operators_exact_least :
    fits minInt = true ∧ fits 3 = true ∧
      BinaryOp.floorDiv.Means minInt 3 (-56713727820156410577229101238628035243) ∧ BinaryOp.mod.Means minInt 3 1 ∧
      ∀ op, intBinary op minInt 3 ≠ .error .trapped := by
  have exact := operators_exact minInt 3 (by decide) (by decide)
  exact ⟨by decide, by decide, (exact.2.1 .floorDiv _ rfl).1, (exact.2.1 .mod _ rfl).1, exact.2.2.2.2⟩

/-- An operator with an exact integer result gives it where it fits and is not withheld, else it overflows. -/
theorem overflow_exact (op : BinaryOp) (a b : Int) (ha : fits a = true) (hb : fits b = true) (h : op.Defined b) :
    ∃ r, (∀ s, op.Means a b s ↔ s = r) ∧
      (binary op (.int a) (.int b) = .ok (.int r) ↔ fits r = true ∧ op.withholds a b = false) ∧
      (binary op (.int a) (.int b) = .error .overflow ↔ fits r = false ∨ op.withholds a b = true) ∧
      (op.withholds a b = true → fits r = true) := by
  obtain ⟨r, means, fit, heq⟩ := intBinary_eq ha hb h
  have overflow : refusal op a b = .overflow := by
    rw [refusal_eq]
    cases op <;> simp_all [BinaryOp.divides, BinaryOp.shifts, BinaryOp.Defined]
  refine ⟨r, fun s => ⟨means_unique means, fun hs => hs ▸ means⟩, ?_, ?_, fit⟩
  · rw [binary_eq_ok, heq]
    unfold within
    cases op.withholds a b <;> cases fits r <;> simp [Except.map]
  · rw [binary_eq_error ha hb, overflow, heq]
    unfold within
    cases op.withholds a b <;> cases fits r <;> simp [Except.map]

/-- A count of 33 bits, although nothing but the sign is left over long before. -/
theorem overflow_exact_withheld :
    fits 1 = true ∧ fits 4294967296 = true ∧ BinaryOp.shiftRight.Defined 4294967296 ∧
      BinaryOp.shiftRight.Means 1 4294967296 0 ∧ fits 0 = true ∧
      binary .shiftRight (.int 1) (.int 4294967296) = .error .overflow := by
  have count : BinaryOp.shiftRight.Defined 4294967296 := Int.natCast_nonneg 4294967296
  have nothing : BinaryOp.shiftRight.Means 1 4294967296 0 := by
    refine ⟨count, ?_⟩
    rw [floor_eq_ediv, Int.ediv_eq_zero_of_lt zero_le_one (one_lt_pow₀ one_lt_two (by decide))]
  obtain ⟨r, exact, -, overflow, fit⟩ := overflow_exact .shiftRight 1 4294967296 (by decide) (by decide) count
  exact ⟨by decide, by decide, count, nothing, (exact 0).mp nothing ▸ fit rfl, overflow.mpr (.inr rfl)⟩

end Scalar

end AddressMap
