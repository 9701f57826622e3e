import AddressMap.Proofs.Expr.Printing
import AddressMap.Proofs.Expr.Token
import AddressMap.Proofs.Scalar.Steps
import AddressMap.Proofs.Value.Number

set_option autoImplicit false

namespace AddressMap

namespace Expr

theorem evaluate_of_fault {source : String} {fault : Fault} (h : tokens source.toList = .error fault) (env : Env) :
    evaluate source env = .error (.malformed source fault) := by
  rw [evaluate, readText, h]
  rfl

theorem evaluate_natural {source : String} {n : Nat} (hsource : source.toList = Nat.toDigits 10 n)
    (h : Scalar.fits n = true) (env : Env) : evaluate source env = .ok (.int n) := by
  have read : tokens source.toList = .ok [.int n] := by rw [hsource, tokens_natural, if_pos h]
  exact evaluate_of_phrase read ((Phrase.int n).mono (Nat.zero_le _)) env

theorem evaluate_negated {source : String} {n : Nat} (hsource : source.toList = '-' :: Nat.toDigits 10 n)
    (h : Scalar.fits n = true) (env : Env) : evaluate source env = .ok (.int (-n)) := by
  have read : tokens source.toList = .ok [.op .sub, .int n] := by
    rw [hsource, tokens_minus, tokens_natural, if_pos h]
    rfl
  have phrase : Phrase 0 (.unary .minus (.int n)) [.op .sub, .int n] :=
    (Phrase.unary rfl ((Phrase.int n).mono (by decide))).mono (Nat.zero_le _)
  have negated : Scalar.fits (-n) = true := by
    rw [Scalar.fits_iff] at h ⊢
    omega
  rw [evaluate_of_phrase read phrase]
  change (((Scalar.within .refused (-n)).map Scalar.int).mapError _).mapError _ = _
  rw [Scalar.within, if_pos negated]
  rfl

end Expr

namespace Scalar

theorem fits_natAbs {i : Int} : fits i.natAbs = true ↔ -2 ^ 127 < i ∧ i < 2 ^ 127 := by
  rw [fits_iff]
  omega

theorem evaluate_toString (i : Int) (env : Env) : evaluate (toString i) env =
    if -2 ^ 127 < i ∧ i < 2 ^ 127 then .ok (.int i)
    else .error (.malformed (toString i) (.invalidNumber (toString i.natAbs))) := by
  by_cases h : fits i.natAbs = true
  · rw [if_pos (fits_natAbs.mp h)]
    rcases lt_or_ge i 0 with hi | hi
    · rw [Expr.evaluate_negated (toList_toString_of_neg hi) h, Int.ofNat_natAbs_of_nonpos hi.le, neg_neg]
    · rw [Expr.evaluate_natural (toList_toString_of_nonneg hi) h, Int.natAbs_of_nonneg hi]
  · rw [if_neg fun hi => h (fits_natAbs.mpr hi)]
    apply Expr.evaluate_of_fault
    rcases lt_or_ge i 0 with hi | hi
    · rw [toList_toString_of_neg hi, Expr.tokens_minus, Expr.tokens_natural, if_neg h]
      rfl
    · rw [toList_toString_of_nonneg hi, Expr.tokens_natural, if_neg h]

/-- Whatever is known, an integer evaluates to itself as a value, but for the least one: its text is malformed. -/
theorem ints_survive (i : Int) (env : Env) :
    (int i).toValue = (if -2 ^ 63 ≤ i ∧ i < 2 ^ 64 then .number (.int i) else .string (toString i)) ∧
      evaluateValue (int i).toValue env =
        if -2 ^ 127 < i ∧ i < 2 ^ 127 then .ok (.int i)
        else .error (.malformed (toString i) (.invalidNumber (toString i.natAbs))) := by
  have value : (int i).toValue =
      if -2 ^ 63 ≤ i ∧ i < 2 ^ 64 then .number (.int i) else .string (toString i) := rfl
  refine ⟨value, ?_⟩
  rw [value]
  by_cases h : -2 ^ 63 ≤ i ∧ i < 2 ^ 64
  · rw [if_pos h, if_pos (by omega)]
    rfl
  · rw [if_neg h]
    exact evaluate_toString i env

end Scalar

end AddressMap
