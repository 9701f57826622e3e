import AddressMap.Proofs.Decimal.Nearest
import Mathlib.Algebra.Order.Field.Basic
import Mathlib.Data.Rat.Cast.Order
import Mathlib.Tactic.FieldSimp
import Mathlib.Tactic.Linarith
import Mathlib.Tactic.NormNum
import Mathlib.Tactic.Positivity
import Mathlib.Tactic.Ring

set_option autoImplicit false

namespace AddressMap.Decimal

open Float.Model (UnpackedFloat Format.binary64 totalExponent)
open Float.Model.UnpackedFloat

def signed (s : Sign) (x : ℚ) : ℚ :=
  match s with
  | .negative => -x
  | .positive => x

@[simp] theorem signed_zero (s : Sign) : signed s 0 = 0 := by
  cases s <;> simp [signed]

@[simp] theorem abs_signed (s : Sign) (x : ℚ) : |signed s x| = |x| := by
  cases s <;> simp [signed]

theorem signed_neg (s : Sign) (x : ℚ) : signed (-s) x = -signed s x := by
  cases s with
  | negative => exact (neg_neg x).symm
  | positive => rfl

theorem signed_div (s t : Sign) (x y : ℚ) : signed s x / signed t y = signed (s / t) (x / y) := by
  cases s <;> cases t
  · exact neg_div_neg_eq x y
  · exact neg_div y x
  · exact div_neg x
  · rfl

/-- `u` is a zero, or a double with all 53 bits of its significand, and `x` its value. -/
inductive Holds : UnpackedFloat → ℚ → Prop
  | zero (s : Sign) : Holds (.zero s) 0
  | finite (s : Sign) {m : ℕ} {e : ℤ} (pos : 0 < m) (full : 2 ^ 52 ≤ m) (short : m < 2 ^ 53) (low : -1074 ≤ e)
      (high : e ≤ 971) : Holds (.finite s m e pos) (signed s (m * 2 ^ e))

/-- The mantissa together with the bit after it. -/
def kept (em : ExtendedMantissa) : ℚ := em.mantissa + if em.roundBit then 1 / 2 else 0

/-- `em` is `x`, or `x` cut off after the round bit with the sticky bit set for what is lost. -/
def Represents (em : ExtendedMantissa) (x : ℚ) : Prop :=
  if em.stickyBit then kept em < x ∧ x < kept em + 1 / 2 else x = kept em

theorem represents_exact (m : ℕ) : Represents (.ofMantissaAndAccuracy m .exact) m := by
  simp [Represents, kept, ExtendedMantissa.ofMantissaAndAccuracy]

theorem represents_fraction (n : ℕ) {d : ℕ} (hd : 0 < d) :
    Represents (.ofMantissaAndAccuracy (n / d) (accuracyOfFraction (n % d) d)) (n / d) := by
  have pos : (0 : ℚ) < d := by exact_mod_cast hd
  have split : (n : ℚ) / d = (n / d : ℕ) + (n % d : ℕ) / d := by
    have : (n : ℚ) = (n / d : ℕ) * d + (n % d : ℕ) := by exact_mod_cast (Nat.div_add_mod' n d).symm
    calc (n : ℚ) / d = ((n / d : ℕ) * d + (n % d : ℕ)) / d := by rw [← this]
      _ = (n / d : ℕ) + (n % d : ℕ) / d := by rw [add_div, mul_div_cancel_right₀ _ pos.ne']
  have rest : ((n % d : ℕ) : ℚ) < d := by exact_mod_cast Nat.mod_lt n hd
  rw [split]
  generalize n / d = q, n % d = r at rest
  unfold accuracyOfFraction
  split_ifs with exact
  · subst exact
    simpa using represents_exact q
  · have some : (0 : ℚ) < r := by exact_mod_cast Nat.pos_of_ne_zero exact
    cases order : compare (2 * r) d with
    | lt =>
      have : 2 * (r : ℚ) < d := by exact_mod_cast Nat.compare_eq_lt.mp order
      simp only [Represents, kept, ExtendedMantissa.ofMantissaAndAccuracy, ↓reduceIte, Bool.false_eq_true]
      have : (r : ℚ) / d < 1 / 2 := by rw [div_lt_div_iff₀ pos two_pos]; linarith
      exact ⟨by simpa using div_pos some pos, by linarith⟩
    | eq =>
      have : 2 * (r : ℚ) = d := by exact_mod_cast Nat.compare_eq_eq.mp order
      simp only [Represents, kept, ExtendedMantissa.ofMantissaAndAccuracy, ↓reduceIte, Bool.false_eq_true]
      rw [← this]
      field_simp
    | gt =>
      have : (d : ℚ) < 2 * r := by exact_mod_cast Nat.compare_eq_gt.mp order
      simp only [Represents, kept, ExtendedMantissa.ofMantissaAndAccuracy, ↓reduceIte]
      have half : 1 / 2 < (r : ℚ) / d := by rw [div_lt_div_iff₀ two_pos pos]; linarith
      have one : (r : ℚ) / d < 1 := by rwa [div_lt_one pos]
      constructor <;> linarith

theorem Represents.half {em : ExtendedMantissa} {x : ℚ} (h : Represents em x) :
    Represents em.shiftRightOne (x / 2) := by
  obtain ⟨m, r, s⟩ := em
  have cut : ((m / 2 : ℕ) : ℚ) + (m % 2 : ℕ) / 2 = m / 2 := by
    have : (m : ℚ) = (2 * (m / 2) + m % 2 : ℕ) := by rw [Nat.div_add_mod]
    rw [this]
    push_cast
    ring
  rcases Nat.mod_two_eq_zero_or_one m with even | odd
  · rw [even] at cut
    cases r <;> cases s <;> simp [Represents, kept, ExtendedMantissa.shiftRightOne, even] at h cut ⊢ <;>
      first | linarith | constructor <;> linarith
  · rw [odd] at cut
    cases r <;> cases s <;> simp [Represents, kept, ExtendedMantissa.shiftRightOne, odd] at h cut ⊢ <;>
      first | linarith | constructor <;> linarith

theorem Represents.shift {em : ExtendedMantissa} {x : ℚ} (h : Represents em x) (k : ℕ) :
    Represents (em >>> k) (x / 2 ^ k) := by
  change Represents (k.repeat ExtendedMantissa.shiftRightOne em) _
  induction k with
  | zero => simpa [Nat.repeat] using h
  | succ k ih =>
    rw [Nat.repeat, pow_succ, ← div_div]
    exact ih.half

theorem Represents.bounds {em : ExtendedMantissa} {x : ℚ} (h : Represents em x) :
    (em.mantissa : ℚ) ≤ x ∧ x < em.mantissa + 1 := by
  obtain ⟨m, r, s⟩ := em
  cases r <;> cases s <;> simp [Represents, kept] at h ⊢ <;> constructor <;> linarith

/-- Rounding goes to the nearer of the two integers around `x`, and half way to the even one. -/
theorem Represents.rounded {em : ExtendedMantissa} {x : ℚ} (h : Represents em x) :
    em.mantissa ≤ em.roundedMantissa ∧ em.roundedMantissa ≤ em.mantissa + 1 ∧
      |x - em.roundedMantissa| ≤ 1 / 2 ∧ (|x - em.roundedMantissa| = 1 / 2 → Even em.roundedMantissa) := by
  obtain ⟨m, r, s⟩ := em
  simp only [ExtendedMantissa.roundedMantissa]
  cases r <;> cases s <;>
    simp only [Represents, kept, ExtendedMantissa.accuracy, Accuracy.roundToNearestEven, Bool.false_eq_true,
      ↓reduceIte, add_zero] at h ⊢
  · subst h
    norm_num
  · refine ⟨le_rfl, by omega, abs_le.mpr ⟨by linarith, by linarith⟩, fun tie => ?_⟩
    rw [abs_of_pos (by linarith)] at tie
    linarith
  · subst h
    refine ⟨by omega, by omega, ?_, fun _ => by rw [Nat.even_iff]; omega⟩
    rcases Nat.mod_two_eq_zero_or_one m with even | odd
    · rw [even]; norm_num
    · rw [odd]; norm_num [abs_le]
  · push_cast
    refine ⟨by omega, le_rfl, abs_le.mpr ⟨by linarith, by linarith⟩, fun tie => ?_⟩
    rw [abs_of_neg (by linarith)] at tie
    linarith

theorem targetExponent_eq (e : ℤ) : Format.binary64.targetExponent e = max (e - 53) (-1074) := rfl

theorem shiftToTarget_eq {m : ℕ} {e : ℤ} (accuracy : Accuracy) (hm : 2 ^ 52 ≤ m) (low : -1022 ≤ m.log2 + e) :
    shiftToTargetExponent Format.binary64 m e accuracy =
      (ExtendedMantissa.ofMantissaAndAccuracy m accuracy >>> (m.log2 - 52), e + (m.log2 - 52 : ℕ)) := by
  have wide : 52 ≤ m.log2 := (Nat.le_log2 (by omega)).mpr hm
  have target : Format.binary64.targetExponent (totalExponent m e) = m.log2 + e - 52 := by
    rw [targetExponent_eq, totalExponent]
    omega
  simp only [shiftToTargetExponent, shiftToExponent, target,
    show ((m.log2 : ℤ) + e - 52 - e).toNat = m.log2 - 52 by omega]

theorem log2_eq_of_lt {m : ℕ} (full : 2 ^ 52 ≤ m) (short : m < 2 ^ 53) : m.log2 = 52 :=
  (Nat.log2_eq_iff (by omega)).mpr ⟨full, short⟩

/-- A rounded significand of 53 bits stays as it is, and the next power of two loses a zero. -/
theorem holds_of_rounded (s : Sign) {m : ℕ} {e : ℤ} (hm : 2 ^ 52 ≤ m) (hm' : m ≤ 2 ^ 53) (low : -1074 ≤ e)
    (high : e < 971) :
    let shifted := shiftToTargetExponent Format.binary64 m e .exact
    Holds (if h : shifted.1.mantissa = 0 then .zero s else .finite s _ shifted.2 (Nat.pos_of_ne_zero h))
      (signed s (m * 2 ^ e)) := by
  rcases lt_or_eq_of_le hm' with short | rfl
  · have log := log2_eq_of_lt hm short
    rw [shiftToTarget_eq (e := e) _ hm (by omega), log]
    change Holds (if h : m = 0 then .zero s else .finite s m (e + (52 - 52 : ℕ)) (Nat.pos_of_ne_zero h)) _
    rw [dif_neg (show m ≠ 0 by omega), show e + ((52 - 52 : ℕ) : ℤ) = e by simp]
    exact .finite s _ hm short low high.le
  · have log : (2 ^ 53 : ℕ).log2 = 53 := Nat.log2_two_pow
    rw [shiftToTarget_eq (e := e) _ hm (by omega), log]
    change Holds (if h : 2 ^ 52 = 0 then .zero s else .finite s (2 ^ 52) (e + (53 - 52 : ℕ)) (Nat.pos_of_ne_zero h)) _
    rw [dif_neg (by norm_num)]
    have := Holds.finite s (m := 2 ^ 52) (e := e + 1) (by norm_num) le_rfl (by norm_num) (by omega) (by omega)
    have value : ((2 ^ 53 : ℕ) : ℚ) * 2 ^ e = ((2 ^ 52 : ℕ) : ℚ) * 2 ^ (e + 1) := by
      rw [zpow_add_one₀ two_ne_zero]
      push_cast
      ring
    rw [value]
    exact this

theorem IsNearest.signed {x y : ℚ} (h : IsNearest x y) (s : Sign) :
    IsNearest (Decimal.signed s x) (Decimal.signed s y) := by
  cases s with
  | negative => exact h.neg
  | positive => exact h

/-- Shifted, a number lies where significands have 53 bits. -/
theorem shifted_bounds {m k : ℕ} {x : ℚ} (hm : m ≠ 0) (log : m.log2 = 52 + k) (low : (m : ℚ) ≤ x)
    (high : x < m + 1) : 2 ^ 52 ≤ x / 2 ^ k ∧ x / 2 ^ k < 2 ^ 53 := by
  have unit : (0 : ℚ) < 2 ^ k := by positivity
  constructor
  · have : (2 : ℚ) ^ m.log2 ≤ m := by exact_mod_cast Nat.log2_self_le hm
    rw [le_div_iff₀ unit, ← pow_add, ← log]
    exact this.trans low
  · have : (m : ℚ) + 1 ≤ 2 ^ (53 + k) := by
      have := Nat.lt_log2_self (n := m)
      rw [log, add_right_comm] at this
      exact_mod_cast this
    rw [div_lt_iff₀ unit, ← pow_add]
    exact high.trans_le this

theorem Represents.rounded_bounds {em : ExtendedMantissa} {x : ℚ} (h : Represents em x) (low : 2 ^ 52 ≤ x)
    (high : x < 2 ^ 53) : 2 ^ 52 ≤ em.roundedMantissa ∧ em.roundedMantissa ≤ 2 ^ 53 := by
  obtain ⟨least, most, -⟩ := h.rounded
  have above : (2 : ℚ) ^ 52 < em.mantissa + 1 := low.trans_lt h.bounds.2
  have below : (em.mantissa : ℚ) < 2 ^ 53 := h.bounds.1.trans_lt high
  have above' : 2 ^ 52 < em.mantissa + 1 := by exact_mod_cast above
  have below' : em.mantissa < 2 ^ 53 := by exact_mod_cast below
  omega

/-- Rounding finds the nearest double of every number with at least 53 bits before the point of its significand. -/
theorem holds_round (s : Sign) {m : ℕ} {e : ℤ} {accuracy : Accuracy} {x : ℚ} (hm : 2 ^ 52 ≤ m)
    (rep : Represents (.ofMantissaAndAccuracy m accuracy) x) (low : -1022 ≤ m.log2 + e) (high : m.log2 + e ≤ 1022) :
    ∃ y, Holds (roundWithAccuracy Format.binary64 s m e accuracy) y ∧ IsNearest (signed s (x * 2 ^ e)) y := by
  obtain ⟨k, log⟩ : ∃ k, m.log2 = 52 + k := Nat.exists_eq_add_of_le ((Nat.le_log2 (by omega)).mpr hm)
  have keep : (ExtendedMantissa.ofMantissaAndAccuracy m accuracy).mantissa = m := by
    rcases accuracy with _ | (_ | _ | _) <;> rfl
  have bounds := rep.bounds
  rw [keep] at bounds
  have cut := rep.shift k
  generalize hem : ExtendedMantissa.ofMantissaAndAccuracy m accuracy >>> k = em at cut
  obtain ⟨lower, upper⟩ := shifted_bounds (by omega) log bounds.1 bounds.2
  obtain ⟨full, short⟩ := cut.rounded_bounds lower upper
  obtain ⟨-, -, half, tie⟩ := cut.rounded
  refine ⟨signed s (em.roundedMantissa * 2 ^ (e + k)), ?_, ?_⟩
  · have := holds_of_rounded s full short (e := e + k) (by omega) (by omega)
    unfold roundWithAccuracy
    rw [shiftToTarget_eq accuracy hm low, show m.log2 - 52 = k by omega, hem]
    exact this
  -- Half a unit of the shifted number is half a unit of its last place.
  · have step : (0 : ℚ) < 2 ^ (e + k : ℤ) := by positivity
    have halved : (2 : ℚ) ^ (e + k : ℤ) / 2 = 1 / 2 * 2 ^ (e + k : ℤ) := by ring
    have scaled : x * 2 ^ e = x / 2 ^ k * 2 ^ (e + k) := by
      rw [zpow_add₀ two_ne_zero, zpow_natCast]
      field_simp
    have apart : |x * 2 ^ e - (em.roundedMantissa : ℤ) * 2 ^ (e + k : ℤ)| =
        |x / 2 ^ k - em.roundedMantissa| * 2 ^ (e + k : ℤ) := by
      rw [scaled, Int.cast_natCast, ← sub_mul, abs_mul, abs_of_pos step]
    have nearest := isNearest_of_half (x := x * 2 ^ e) (m := em.roundedMantissa) (e := e + k)
      (by exact_mod_cast full) (by exact_mod_cast short) (by omega) (by omega)
      (by rw [scaled]; gcongr)
      (by rw [apart, halved]; gcongr)
      (fun h => by
        rw [apart, halved] at h
        exact_mod_cast tie (mul_right_cancel₀ step.ne' h))
    exact_mod_cast nearest.signed s

theorem holds_exact (s : Sign) {m : ℕ} {e : ℤ} (hm : 2 ^ 52 ≤ m) (low : -1022 ≤ m.log2 + e)
    (high : m.log2 + e ≤ 1022) :
    ∃ y, Holds (roundWithAccuracy Format.binary64 s m e .exact) y ∧ IsNearest (signed s (m * 2 ^ e)) y :=
  holds_round s hm (represents_exact m) low high

end AddressMap.Decimal
