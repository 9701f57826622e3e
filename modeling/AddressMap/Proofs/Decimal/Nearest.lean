import Mathlib.Algebra.Order.Field.Power
import Mathlib.Algebra.Order.Round
import Mathlib.Data.Int.Log
import Mathlib.Data.Rat.Floor
import Mathlib.Tactic.FieldSimp
import Mathlib.Tactic.Linarith
import Mathlib.Tactic.Positivity
import Mathlib.Tactic.Ring

set_option autoImplicit false

/-!
Finite doubles as rationals, and the one that a number rounds to. A quotient of integers that is rounded three
times, numerator, denominator and result, still has the right integer part while the numerator is below
`2 ^ 53`.
-/

namespace AddressMap.Decimal

/-- Significand and exponent of a finite double. -/
structure Binary64 (m e : ℤ) : Prop where
  short : |m| < 2 ^ 53
  low : -1074 ≤ e
  high : e ≤ 971

/-- `x` is the value of a finite double. -/
def IsDouble (x : ℚ) : Prop := ∃ m e : ℤ, Binary64 m e ∧ x = m * 2 ^ e

/-- `x` is the value of a finite double whose significand, of 53 bits where the exponent allows it, is even. -/
def IsEvenDouble (x : ℚ) : Prop :=
  ∃ m e : ℤ, Binary64 m e ∧ (2 ^ 52 ≤ |m| ∨ e = -1074) ∧ Even m ∧ x = m * 2 ^ e

/-- `y` is the double that `x` rounds to: none is nearer, and of two that are equally near it is the even one. -/
structure IsNearest (x y : ℚ) : Prop where
  isDouble : IsDouble y
  least : ∀ z, IsDouble z → |x - y| ≤ |x - z|
  tie : ∀ z, IsDouble z → z ≠ y → |x - z| = |x - y| → IsEvenDouble y

def towardZero (x : ℚ) : ℤ := if 0 ≤ x then ⌊x⌋ else ⌈x⌉

theorem isDouble_of_le {m e : ℤ} (hm : |m| ≤ 2 ^ 53) (low : -1074 ≤ e) (high : e < 971) :
    IsDouble (m * 2 ^ e) := by
  rcases lt_or_eq_of_le hm with short | full
  · exact ⟨m, e, ⟨short, low, by omega⟩, rfl⟩
  · obtain ⟨n, rfl, hn⟩ : ∃ n : ℤ, m = 2 * n ∧ |n| = 2 ^ 52 := by
      rcases (abs_eq (by norm_num)).mp full with rfl | rfl
      · exact ⟨2 ^ 52, by norm_num, by norm_num⟩
      · exact ⟨-2 ^ 52, by norm_num, by norm_num⟩
    refine ⟨n, e + 1, ⟨by rw [hn]; norm_num, by omega, by omega⟩, ?_⟩
    rw [zpow_add_one₀ (by norm_num)]
    push_cast
    ring

theorem isDouble_intCast {n : ℤ} (hn : |n| ≤ 2 ^ 53) : IsDouble n := by
  simpa using isDouble_of_le hn (e := 0) (by norm_num) (by norm_num)

theorem isDouble_two_pow {k : ℕ} (hk : k < 971) : IsDouble (2 ^ k) := by
  simpa using isDouble_of_le (m := 1) (e := k) (by norm_num) (by omega) (by omega)

theorem IsDouble.neg {x : ℚ} (h : IsDouble x) : IsDouble (-x) := by
  obtain ⟨m, e, hf, rfl⟩ := h
  exact ⟨-m, e, ⟨by rw [abs_neg]; exact hf.short, hf.low, hf.high⟩, by push_cast; ring⟩

theorem IsEvenDouble.neg {x : ℚ} (h : IsEvenDouble x) : IsEvenDouble (-x) := by
  obtain ⟨m, e, hf, hm, even, rfl⟩ := h
  exact ⟨-m, e, ⟨by rw [abs_neg]; exact hf.short, hf.low, hf.high⟩, by rwa [abs_neg], even.neg, by push_cast; ring⟩

theorem zpow_of_le {e k : ℤ} (h : e ≤ k) : (2 : ℚ) ^ k = 2 ^ (k - e).toNat * 2 ^ e := by
  rw [← zpow_natCast, Int.toNat_of_nonneg (by omega), ← zpow_add₀ (by norm_num), sub_add_cancel]

/-- From `2 ^ 52` units up every double is a whole number of units. -/
theorem IsDouble.whole {z : ℚ} {e : ℤ} (h : IsDouble z) (hz : 2 ^ 52 * 2 ^ e ≤ z) :
    ∃ j : ℤ, z = j * 2 ^ e := by
  obtain ⟨m, k, hf, rfl⟩ := h
  rcases le_or_gt e k with hk | hk
  · refine ⟨m * 2 ^ (k - e).toNat, ?_⟩
    rw [zpow_of_le hk]
    push_cast
    ring
  · have short : (m : ℚ) < 2 ^ 53 := by exact_mod_cast (abs_lt.mp hf.short).2
    have below : (m : ℚ) * 2 ^ k < 2 ^ 52 * 2 ^ e := calc
      (m : ℚ) * 2 ^ k < 2 ^ 53 * 2 ^ k := by gcongr
      _ = 2 ^ 52 * 2 ^ (k + 1) := by rw [zpow_add_one₀ (by norm_num)]; ring
      _ ≤ 2 ^ 52 * 2 ^ e := by gcongr <;> [norm_num; omega]
    linarith

theorem IsNearest.neg {x y : ℚ} (h : IsNearest x y) : IsNearest (-x) (-y) := by
  have flip (z : ℚ) : |-x - z| = |x - -z| := by rw [← abs_neg]; congr 1; ring
  refine ⟨h.isDouble.neg, fun z hz => ?_, fun z hz ne eq => ?_⟩
  · rw [flip, flip, neg_neg]
    exact h.least _ hz.neg
  · rw [flip, flip, neg_neg] at eq
    exact (h.tie _ hz.neg (fun e => ne (by rw [← e, neg_neg])) eq).neg

theorem IsDouble.nearest_self {x : ℚ} (h : IsDouble x) : IsNearest x x := by
  refine ⟨h, fun z _ => ?_, fun z _ ne eq => ?_⟩
  · rw [sub_self, abs_zero]
    exact abs_nonneg _
  · rw [sub_self, abs_zero, abs_eq_zero, sub_eq_zero] at eq
    exact absurd eq.symm ne

theorem IsNearest.eq_of_isDouble {x y : ℚ} (h : IsNearest x y) (hx : IsDouble x) : y = x := by
  have := h.least x hx
  rw [sub_self, abs_zero, abs_nonpos_iff] at this
  linarith

theorem IsNearest.le_of_le {x y d : ℚ} (h : IsNearest x y) (hd : IsDouble d) (hx : x ≤ d) : y ≤ d := by
  by_contra above
  have := h.least d hd
  rw [abs_of_nonpos (by linarith), abs_of_nonpos (by linarith)] at this
  linarith

theorem IsNearest.ge_of_ge {x y d : ℚ} (h : IsNearest x y) (hd : IsDouble d) (hx : d ≤ x) : d ≤ y :=
  neg_le_neg_iff.mp (h.neg.le_of_le hd.neg (neg_le_neg hx))

theorem IsNearest.abs_at_most {x y d : ℚ} (h : IsNearest x y) (hd : IsDouble d) (hx : |x| ≤ d) : |y| ≤ d :=
  abs_le'.mpr ⟨h.le_of_le hd (le_of_abs_le hx), neg_le.mpr (h.ge_of_ge hd.neg (neg_le_of_abs_le hx))⟩

theorem IsNearest.abs_at_least {x y d : ℚ} (h : IsNearest x y) (hd : IsDouble d) (hx : d ≤ |x|) : d ≤ |y| := by
  rcases le_abs'.mp hx with neg | pos
  · exact le_abs'.mpr (.inl (h.le_of_le hd.neg neg))
  · exact le_abs'.mpr (.inr (h.ge_of_ge hd pos))

/-- One unit above an even number of units stands a double, and an even number of larger units is not there. -/
theorem exists_isDouble_between {m n e k : ℤ} (hm : Binary64 m e) (even : Even m) (even' : Even n) (hk : e ≤ k)
    (h : (m : ℚ) * 2 ^ e < n * 2 ^ k) : ∃ x, IsDouble x ∧ m * 2 ^ e < x ∧ x < n * 2 ^ k := by
  have unit : (0 : ℚ) < 2 ^ e := by positivity
  have short := abs_lt.mp hm.short
  rw [zpow_of_le hk, ← mul_assoc] at h ⊢
  have order : m < n * 2 ^ (k - e).toNat := by exact_mod_cast lt_of_mul_lt_mul_right h unit.le
  have even'' := even'.mul_right (2 ^ (k - e).toNat)
  rw [Int.even_iff] at even even''
  have step : m + 1 < n * 2 ^ (k - e).toNat := by omega
  refine ⟨((m + 1 : ℤ) : ℚ) * 2 ^ e, ⟨m + 1, e, ⟨abs_lt.mpr ⟨by omega, by omega⟩, hm.low, hm.high⟩, rfl⟩, ?_, ?_⟩
  · gcongr
    omega
  · gcongr
    exact_mod_cast step

theorem IsEvenDouble.exists_between {y z : ℚ} (hy : IsEvenDouble y) (hz : IsEvenDouble z) (h : y < z) :
    ∃ x, IsDouble x ∧ y < x ∧ x < z := by
  obtain ⟨m, e, hm, -, even, hy⟩ := hy
  rcases hz.neg with ⟨n, k, hn, -, even', hz⟩
  rcases le_total e k with hk | hk
  · obtain rfl : z = (-n : ℤ) * 2 ^ k := by
      push_cast
      linarith
    subst hy
    exact exists_isDouble_between hm even even'.neg hk h
  · obtain rfl : y = -((-m : ℤ) * 2 ^ e) := by
      push_cast
      linarith
    obtain ⟨x, hx, above, below⟩ := exists_isDouble_between hn even' even.neg hk (by linarith)
    exact ⟨-x, hx.neg, by linarith, by linarith⟩

theorem IsNearest.le_of_isNearest {x y z : ℚ} (hy : IsNearest x y) (hz : IsNearest x z) : z ≤ y := by
  by_contra h
  have above : y < z := lt_of_not_ge h
  have even : |x - z| = |x - y| := le_antisymm (hz.least y hy.isDouble) (hy.least z hz.isDouble)
  obtain ⟨d, hd, low, high⟩ := (hy.tie z hz.isDouble above.ne' even).exists_between
    (hz.tie y hy.isDouble above.ne even.symm) above
  -- `x` is half way between `y` and `z`, so what lies between them is nearer.
  have middle : x - y = z - x := by
    rcases abs_eq_abs.mp even with h | h <;> linarith
  have := hy.least d hd
  rw [abs_of_pos (by linarith : 0 < x - y), le_abs] at this
  rcases this with h | h <;> linarith

/-- A number rounds to one double. -/
theorem IsNearest.unique {x y z : ℚ} (hy : IsNearest x y) (hz : IsNearest x z) : y = z :=
  le_antisymm (hz.le_of_isNearest hy) (hy.le_of_isNearest hz)

section Unit

variable {x : ℚ} {m e : ℤ}

/-- What stands within half a unit is nearer than any other double, unless both are half a unit off. -/
theorem IsDouble.lt_or_eq_half {z : ℚ} (hz : IsDouble z) (hm : 2 ^ 52 ≤ m) (hx : 2 ^ 52 * 2 ^ e ≤ x)
    (half : |x - m * 2 ^ e| ≤ 2 ^ e / 2) (ne : z ≠ m * 2 ^ e) :
    |x - m * 2 ^ e| < |x - z| ∨ |x - m * 2 ^ e| = 2 ^ e / 2 ∧ |x - m * 2 ^ e| ≤ |x - z| := by
  have unit : (0 : ℚ) < 2 ^ e := by positivity
  have least : (2 : ℚ) ^ 52 ≤ m := by exact_mod_cast hm
  rcases lt_or_ge z (2 ^ 52 * 2 ^ e) with below | above
  -- Below, the units are finer, but `x` is not there.
  · left
    rw [abs_of_pos (show 0 < x - z by linarith)]
    rcases le_or_gt ((m : ℚ) * 2 ^ e) x with hy | hy
    · rw [abs_of_nonneg (by linarith)]
      have : (2 : ℚ) ^ 52 * 2 ^ e ≤ m * 2 ^ e := by gcongr
      linarith
    · rw [abs_of_neg (by linarith)] at half ⊢
      have more : (2 : ℚ) ^ 52 + 1 ≤ m := by
        have : (2 : ℚ) ^ 52 < m := lt_of_mul_lt_mul_right (hx.trans_lt hy) unit.le
        exact_mod_cast this
      have : ((2 : ℚ) ^ 52 + 1) * 2 ^ e ≤ m * 2 ^ e := by gcongr
      linarith
  · obtain ⟨j, rfl⟩ := hz.whole above
    have steps : (1 : ℚ) ≤ |(m : ℚ) - j| := by
      have : m - j ≠ 0 := fun h => ne (by rw [sub_eq_zero.mp h])
      exact_mod_cast Int.one_le_abs this
    have far : (2 : ℚ) ^ e ≤ |(m : ℚ) * 2 ^ e - j * 2 ^ e| := by
      rw [← sub_mul, abs_mul, abs_of_pos unit]
      exact le_mul_of_one_le_left unit.le steps
    have : |(m : ℚ) * 2 ^ e - j * 2 ^ e| ≤ |x - m * 2 ^ e| + |x - j * 2 ^ e| := by
      rw [abs_sub_comm x (m * 2 ^ e)]
      exact abs_sub_le _ _ _
    rcases half.lt_or_eq with h | h
    · exact .inl (by linarith)
    · exact .inr ⟨h, by linarith⟩

theorem isEvenDouble_of_le (hm : 2 ^ 52 ≤ m) (hm' : m ≤ 2 ^ 53) (low : -1074 ≤ e) (high : e < 971) (even : Even m) :
    IsEvenDouble (m * 2 ^ e) := by
  rcases lt_or_eq_of_le hm' with short | rfl
  · exact ⟨m, e, ⟨by rwa [abs_of_nonneg (by linarith)], low, high.le⟩,
      .inl (by rwa [abs_of_nonneg (by linarith)]), even, rfl⟩
  · refine ⟨2 ^ 52, e + 1, ⟨by norm_num, by omega, by omega⟩, .inl (by norm_num), ⟨2 ^ 51, by norm_num⟩, ?_⟩
    rw [zpow_add_one₀ (by norm_num)]
    push_cast
    ring

/-- A double that is at least `2 ^ 52` units, and half a unit from `x` at most, is what `x` rounds to. -/
theorem isNearest_of_half (hm : 2 ^ 52 ≤ m) (hm' : m ≤ 2 ^ 53) (low : -1074 ≤ e) (high : e < 971)
    (hx : 2 ^ 52 * 2 ^ e ≤ x) (half : |x - m * 2 ^ e| ≤ 2 ^ e / 2)
    (tie : |x - m * 2 ^ e| = 2 ^ e / 2 → Even m) : IsNearest x (m * 2 ^ e) := by
  refine ⟨isDouble_of_le (by rwa [abs_of_nonneg (by linarith)]) low high, fun z hz => ?_, fun z hz ne eq => ?_⟩
  · rcases eq_or_ne z (m * 2 ^ e) with rfl | ne
    · exact le_rfl
    · rcases hz.lt_or_eq_half hm hx half ne with h | h
      exacts [h.le, h.2]
  · have far := (hz.lt_or_eq_half hm hx half ne).resolve_left (by rw [eq]; exact lt_irrefl _)
    exact isEvenDouble_of_le hm hm' low high (tie far.1)

end Unit

/-- A number of ordinary size has a double within its `2 ^ 53`rd part. -/
theorem exists_isDouble_near {x : ℚ} (small : 2 ^ (-100 : ℤ) ≤ x) (large : x ≤ 2 ^ (100 : ℤ)) :
    ∃ d, IsDouble d ∧ |x - d| ≤ x / 2 ^ 53 := by
  have pos : 0 < x := lt_of_lt_of_le (by positivity) small
  obtain ⟨k, lower, upper⟩ : ∃ k : ℤ, (2 : ℚ) ^ (k + 52) ≤ x ∧ x < 2 ^ (k + 53) := by
    refine ⟨Int.log 2 x - 52, ?_, ?_⟩
    · simpa using Int.zpow_log_le_self (by norm_num : 1 < 2) pos
    · rw [show Int.log 2 x - 52 + 53 = Int.log 2 x + 1 by ring]
      exact_mod_cast Int.lt_zpow_succ_log_self (by norm_num : 1 < 2) x
  have low : -100 < k + 53 := (zpow_lt_zpow_iff_right₀ (by norm_num : (1 : ℚ) < 2)).mp (small.trans_lt upper)
  have high : k + 52 ≤ 100 := (zpow_le_zpow_iff_right₀ (by norm_num : (1 : ℚ) < 2)).mp (lower.trans large)
  have unit : (0 : ℚ) < 2 ^ k := by positivity
  rw [zpow_add₀ (by norm_num)] at lower upper
  have near : |x / 2 ^ k - round (x / 2 ^ k)| ≤ 1 / 2 := abs_sub_round _
  have short : |round (x / 2 ^ k)| ≤ 2 ^ 53 := by
    have : x / 2 ^ k < 2 ^ 53 := by
      rw [div_lt_iff₀ unit]
      calc x < _ := upper
        _ = _ := by norm_num [mul_comm]
    have : 0 < x / 2 ^ k := by positivity
    rw [abs_le] at near ⊢
    constructor
    · have : (-1 : ℚ) < round (x / 2 ^ k) := by linarith [near.2]
      have : -1 < round (x / 2 ^ k) := by exact_mod_cast this
      omega
    · have : (round (x / 2 ^ k) : ℚ) < 2 ^ 53 + 1 := by linarith [near.1]
      have : round (x / 2 ^ k) < 2 ^ 53 + 1 := by exact_mod_cast this
      omega
  refine ⟨round (x / 2 ^ k) * 2 ^ k, isDouble_of_le short (by omega) (by omega), ?_⟩
  calc |x - round (x / 2 ^ k) * 2 ^ k|
      = |x / 2 ^ k - round (x / 2 ^ k)| * 2 ^ k := by
        rw [← abs_of_pos unit, ← abs_mul, abs_of_pos unit, sub_mul, div_mul_cancel₀ _ unit.ne']
    _ ≤ 1 / 2 * 2 ^ k := by gcongr
    _ ≤ x / 2 ^ 53 := by
        rw [le_div_iff₀ (by norm_num)]
        calc 1 / 2 * (2 : ℚ) ^ k * 2 ^ 53 = 2 ^ k * 2 ^ 52 := by ring
          _ ≤ x := by exact_mod_cast lower

theorem towardZero_neg (x : ℚ) : towardZero (-x) = -towardZero x := by
  unfold towardZero
  rcases lt_trichotomy x 0 with h | rfl | h
  · rw [if_pos (by linarith), if_neg (by linarith), Int.floor_neg]
  · simp
  · rw [if_neg (by linarith), if_pos h.le, Int.ceil_neg]

theorem abs_towardZero_le (x : ℚ) : |(towardZero x : ℚ)| ≤ |x| := by
  unfold towardZero
  split_ifs with h
  · rw [abs_of_nonneg h, abs_of_nonneg (by exact_mod_cast Int.floor_nonneg.mpr h)]
    exact Int.floor_le x
  · have neg : x ≤ 0 := (not_le.mp h).le
    rw [abs_of_nonpos neg, abs_of_nonpos (by exact_mod_cast Int.ceil_le.mpr (by exact_mod_cast neg))]
    exact neg_le_neg (Int.le_ceil x)

theorem towardZero_eq_of_nonneg {x : ℚ} {n : ℤ} (hn : 0 ≤ n) (low : n ≤ x) (high : x < n + 1) : towardZero x = n := by
  have : (0 : ℚ) ≤ n := by exact_mod_cast hn
  rw [towardZero, if_pos (this.trans low)]
  exact Int.floor_eq_iff.mpr ⟨low, high⟩

section
variable {v f : ℤ} {a b q : ℚ}

/-- The next integer is an `f`th part away at least, and rounding moves the quotient by less. -/
theorem towardZero_nearest_of_le (hv : 0 ≤ v) (short : v < 2 ^ 53) (hf : 0 < f) (fits : f ≤ 2 ^ 53)
    (hq : IsNearest (v / f) q) : towardZero q = v / f := by
  have hf' : (0 : ℚ) < f := by exact_mod_cast hf
  have hn : 0 ≤ v / f := Int.ediv_nonneg hv hf.le
  have low : ((v / f : ℤ) : ℚ) ≤ v / f := by
    rw [le_div_iff₀ hf']
    exact_mod_cast Int.ediv_mul_le v hf.ne'
  refine towardZero_eq_of_nonneg hn (hq.ge_of_ge (isDouble_intCast ?_) low) ?_
  · rw [abs_of_nonneg hn]
    exact (Int.ediv_le_self _ hv).trans short.le
  rcases hv.eq_or_lt with rfl | pos
  · have zero : q = (0 : ℤ) / f := hq.eq_of_isDouble (by simpa using isDouble_intCast (n := 0) (by norm_num))
    simp [zero]
  have pos' : (1 : ℚ) ≤ v := by exact_mod_cast pos
  have hf1 : (1 : ℚ) ≤ f := by exact_mod_cast hf
  have fits' : (f : ℚ) ≤ 2 ^ 53 := by exact_mod_cast fits
  have short' : (v : ℚ) < 2 ^ 53 := by exact_mod_cast short
  have gap : (v : ℚ) / f + 1 / f ≤ (v / f : ℤ) + 1 := by
    rw [← add_div, div_le_iff₀ hf']
    exact_mod_cast Int.lt_ediv_add_one_mul_self v hf
  obtain ⟨d, hd, near⟩ : ∃ d, IsDouble d ∧ |(v : ℚ) / f - d| ≤ v / f / 2 ^ 53 := by
    apply exists_isDouble_near
    · rw [le_div_iff₀ hf']
      calc (2 : ℚ) ^ (-100 : ℤ) * f ≤ 2 ^ (-100 : ℤ) * 2 ^ 53 := by gcongr
        _ ≤ 1 := by norm_num
        _ ≤ v := pos'
    · rw [div_le_iff₀ hf']
      calc (v : ℚ) ≤ 2 ^ 53 := short'.le
        _ ≤ 2 ^ (100 : ℤ) * 1 := by norm_num
        _ ≤ 2 ^ (100 : ℤ) * f := by gcongr
  have close : (v : ℚ) / f / 2 ^ 53 < 1 / f := by
    rw [div_right_comm]
    gcongr
    rwa [div_lt_one (by norm_num)]
  have moved := (abs_le.mp ((hq.least d hd).trans near)).1
  linarith

/-- A denominator of `2 ^ 53` or more leaves a quotient below one, and there is a double between the two. -/
theorem towardZero_nearest_of_ge (hv : 0 ≤ v) (short : v < 2 ^ 53) (wide : 2 ^ 53 ≤ b) (hq : IsNearest (v / b) q) :
    towardZero q = 0 := by
  have hv' : (0 : ℚ) ≤ v := by exact_mod_cast hv
  have pos : (0 : ℚ) < b := lt_of_lt_of_le (by norm_num) wide
  have zero : IsDouble ((0 : ℤ) : ℚ) := isDouble_intCast (by norm_num)
  have below : IsDouble (((2 ^ 53 - 1 : ℤ) : ℚ) * 2 ^ (-53 : ℤ)) :=
    isDouble_of_le (by norm_num) (by norm_num) (by norm_num)
  refine towardZero_eq_of_nonneg le_rfl (hq.ge_of_ge zero ?_) ((hq.le_of_le below ?_).trans_lt (by norm_num))
  · rw [Int.cast_zero]
    exact div_nonneg hv' pos.le
  · have : v ≤ 2 ^ 53 - 1 := by omega
    rw [div_le_iff₀ pos]
    calc (v : ℚ) ≤ (2 ^ 53 - 1 : ℤ) := by exact_mod_cast this
      _ = ((2 ^ 53 - 1 : ℤ) : ℚ) * 2 ^ (-53 : ℤ) * 2 ^ 53 := by norm_num
      _ ≤ ((2 ^ 53 - 1 : ℤ) : ℚ) * 2 ^ (-53 : ℤ) * b := by gcongr

theorem towardZero_nearest_of_nonneg (hv : 0 ≤ v) (short : v < 2 ^ 53) (hf : 0 < f) (ha : IsNearest v a)
    (hb : IsNearest f b) (hq : IsNearest (a / b) q) : towardZero q = v / f := by
  obtain rfl : a = v := ha.eq_of_isDouble (isDouble_intCast (by rw [abs_of_nonneg hv]; exact short.le))
  rcases le_or_gt f (2 ^ 53) with fits | wide
  · obtain rfl : b = f := hb.eq_of_isDouble (isDouble_intCast (by rwa [abs_of_pos hf]))
    exact towardZero_nearest_of_le hv short hf fits hq
  · have wide' : (2 : ℚ) ^ 53 ≤ b := hb.ge_of_ge (isDouble_two_pow (by norm_num)) (by exact_mod_cast wide.le)
    rw [towardZero_nearest_of_ge hv short wide' hq, Int.ediv_eq_zero_of_lt hv (by omega)]

theorem towardZero_nearest_of_pos (short : |v| < 2 ^ 53) (hf : 0 < f) (ha : IsNearest v a) (hb : IsNearest f b)
    (hq : IsNearest (a / b) q) : towardZero q = v.tdiv f := by
  rcases le_total 0 v with hv | hv
  · rw [abs_of_nonneg hv] at short
    rw [towardZero_nearest_of_nonneg hv short hf ha hb hq, Int.tdiv_eq_ediv_of_nonneg hv]
  · rw [abs_of_nonpos hv] at short
    have ha' : IsNearest ((-v : ℤ) : ℚ) (-a) := by push_cast; exact ha.neg
    have hq' : IsNearest (-a / b) (-q) := by rw [neg_div]; exact hq.neg
    have := towardZero_nearest_of_nonneg (Int.neg_nonneg.mpr hv) short hf ha' hb hq'
    rw [towardZero_neg, ← Int.tdiv_eq_ediv_of_nonneg (Int.neg_nonneg.mpr hv), Int.neg_tdiv] at this
    exact neg_injective this

/-- Below `2 ^ 53` no rounding reaches the integer part of a quotient, however large the denominator is. -/
theorem towardZero_nearest (short : |v| < 2 ^ 53) (hf : f ≠ 0) (ha : IsNearest v a) (hb : IsNearest f b)
    (hq : IsNearest (a / b) q) : towardZero q = v.tdiv f := by
  rcases hf.lt_or_gt with neg | pos
  · have hb' : IsNearest ((-f : ℤ) : ℚ) (-b) := by push_cast; exact hb.neg
    have hq' : IsNearest (a / -b) (-q) := by rw [div_neg]; exact hq.neg
    have := towardZero_nearest_of_pos short (Int.neg_pos.mpr neg) ha hb' hq'
    rw [towardZero_neg, Int.tdiv_neg] at this
    exact neg_injective this
  · exact towardZero_nearest_of_pos short pos ha hb hq

end

end AddressMap.Decimal
