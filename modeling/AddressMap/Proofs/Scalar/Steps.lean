import AddressMap.Scalar.Operator
import Mathlib.Data.Int.Bitwise
import Mathlib.Tactic.Linarith
import Mathlib.Tactic.LinearCombination
import Mathlib.Tactic.NormNum
import Mathlib.Tactic.Positivity
import Mathlib.Tactic.Ring

set_option autoImplicit false

namespace AddressMap.Scalar

theorem fits_iff {i : Int} : fits i = true ↔ -2 ^ 127 ≤ i ∧ i < 2 ^ 127 := by
  unfold fits minInt maxInt
  simp only [Bool.and_eq_true, decide_eq_true_eq]
  omega

theorem minInt_eq : minInt = -2 ^ 127 := by decide

theorem within_eq_ok {stop : Stop} {i j : Int} : within stop i = .ok j ↔ fits i = true ∧ i = j := by
  unfold within
  split <;> simp_all

theorem bmod_eq_of_fits {i : Int} (h : fits i = true) : i.bmod (2 ^ 128) = i := by
  have range := fits_iff.mp h
  exact Int.bmod_eq_of_le_mul_two (by omega) (by omega)

theorem fits_bmod (i : Int) : fits (i.bmod (2 ^ 128)) = true := by
  have low := Int.le_bmod (x := i) (m := 2 ^ 128) (by norm_num)
  have high := Int.bmod_lt (x := i) (m := 2 ^ 128) (by norm_num)
  rw [fits_iff]
  omega

theorem fits_tdiv {a b : Int} (ha : fits a = true) (hb : b ≠ 0) :
    fits (a.tdiv b) = true ↔ ¬(a = minInt ∧ b = -1) := by
  rw [fits_iff] at ha ⊢
  rw [minInt_eq]
  have size : (a.tdiv b).natAbs = a.natAbs / b.natAbs := Int.natAbs_tdiv a b
  by_cases one : b.natAbs = 1
  · rcases Int.natAbs_eq_iff.mp one with rfl | rfl
    · simp only [Nat.cast_one, Int.tdiv_one]
      omega
    · simp only [Nat.cast_one, Int.tdiv_neg, Int.tdiv_one, and_true]
      omega
  · have half : a.natAbs / b.natAbs ≤ a.natAbs / 2 := Nat.div_le_div_left (by omega) (by omega)
    constructor
    · rintro - ⟨-, rfl⟩
      exact one rfl
    · intro _
      omega

theorem remainder_eq {stop : Stop} {a b : Int} (ha : fits a = true) (hb : b ≠ 0) :
    remainder stop a b = if a = minInt ∧ b = -1 then .error stop else .ok (a.tmod b) := by
  unfold remainder within
  rw [if_neg hb]
  by_cases least : a = minInt ∧ b = -1
  · rw [if_pos least, if_neg (fun h => (fits_tdiv ha hb).mp h least)]
    rfl
  · rw [if_neg least, if_pos ((fits_tdiv ha hb).mpr least)]
    rfl

theorem fdiv_eq (a b : Int) (hb : b ≠ 0) :
    a.fdiv b = if a.tmod b ≠ 0 ∧ ¬(a < 0 ↔ b < 0) then a.tdiv b - 1 else a.tdiv b := by
  rw [Int.fdiv_eq_tdiv]
  simp only [Int.dvd_iff_tmod_eq_zero]
  rcases lt_trichotomy b 0 with neg | zero | pos
  · rw [Int.sign_eq_neg_one_of_neg neg]
    split_ifs <;> omega
  · exact absurd zero hb
  · rw [Int.sign_eq_one_of_pos pos]
    split_ifs <;> omega

theorem tmod_lt_zero_iff {a b : Int} (h : a.tmod b ≠ 0) : a.tmod b < 0 ↔ a < 0 := by
  constructor
  · intro hr
    by_contra ha
    have := Int.tmod_nonneg b (not_lt.mp ha)
    omega
  · intro ha
    have := Int.tmod_nonneg b (show 0 ≤ -a by omega)
    rw [Int.neg_tmod] at this
    omega

theorem fmod_eq (a b : Int) (hb : b ≠ 0) :
    a.fmod b = if a.tmod b ≠ 0 ∧ ¬(a.tmod b < 0 ↔ b < 0) then a.tmod b + b else a.tmod b := by
  have floor := Int.mul_fdiv_add_fmod a b
  have toward := Int.mul_tdiv_add_tmod a b
  rw [fdiv_eq a b hb] at floor
  by_cases zero : a.tmod b = 0
  · simp only [zero, ne_eq, not_true_eq_false, false_and, if_false] at floor ⊢
    omega
  · simp only [tmod_lt_zero_iff zero]
    split_ifs at floor ⊢ with differ
    · rw [Int.mul_sub] at floor
      omega
    · omega

theorem fmod_bounds (a : Int) {b : Int} (hb : b ≠ 0) :
    |a.fmod b| < |b| ∧ (a.fmod b ≠ 0 → (a.fmod b < 0 ↔ b < 0)) := by
  rcases lt_or_gt_of_ne hb with neg | pos
  · have low := Int.fmod_lt_of_pos (-a) (show 0 < -b by omega)
    have high := Int.fmod_nonneg_of_pos (-a) (show 0 < -b by omega)
    rw [Int.neg_fmod_neg] at low high
    rw [abs_lt, abs_of_neg neg]
    omega
  · have low := Int.fmod_nonneg_of_pos a pos
    have high := Int.fmod_lt_of_pos a pos
    rw [abs_lt, abs_of_pos pos]
    omega

theorem fits_fmod (a : Int) {b : Int} (hb : fits b = true) (h : b ≠ 0) : fits (a.fmod b) = true := by
  have small := (fmod_bounds a h).1
  rw [fits_iff] at hb ⊢
  rw [Int.abs_eq_natAbs, Int.abs_eq_natAbs] at small
  have sign := (fmod_bounds a h).2
  omega

theorem floorDiv_eq {a b : Int} (ha : fits a = true) (hb : b ≠ 0) : floorDiv a b = within .refused (a.fdiv b) := by
  unfold floorDiv quotient
  rw [if_neg hb, remainder_eq ha hb, fdiv_eq a b hb]
  by_cases least : a = minInt ∧ b = -1
  · obtain ⟨rfl, rfl⟩ := least
    rfl
  · have fit : within .refused (a.tdiv b) = .ok (a.tdiv b) := within_eq_ok.mpr ⟨(fits_tdiv ha hb).mpr least, rfl⟩
    rw [fit, if_neg least]
    change (if a.tmod b ≠ 0 ∧ ¬(a < 0 ↔ b < 0) then _ else _) = _
    split_ifs
    · rfl
    · exact fit.symm

theorem mod_eq {a b : Int} (ha : fits a = true) (hb : fits b = true) (h : b ≠ 0) :
    mod a b = if a = minInt ∧ b = -1 then .error .refused else .ok (a.fmod b) := by
  unfold mod
  rw [remainder_eq ha h]
  split_ifs
  · rfl
  · change (if a.tmod b ≠ 0 ∧ ¬(a.tmod b < 0 ↔ b < 0) then _ else _) = _
    have fit := fits_fmod a hb h
    rw [fmod_eq a b h] at fit ⊢
    split_ifs at fit ⊢
    · exact within_eq_ok.mpr ⟨fit, rfl⟩
    · rfl

theorem count_eq_ok {b : Int} {n : Nat} : count b = .ok n ↔ b = n ∧ b < countLimit := by
  unfold count
  split_ifs with h
  · rw [Except.ok.injEq]
    omega
  · simp only [false_iff]
    omega

theorem count_eq_error {b : Int} {stop : Stop} (h : count b = .error stop) : stop = .refused := by
  unfold count at h
  split_ifs at h
  exact (Except.error.inj h).symm

theorem count_of_neg {b : Int} (hb : b < 0) : count b = .error .refused := if_neg (by omega)

theorem count_of_ge {b : Int} (hb : countLimit ≤ b) : count b = .error .refused := if_neg (by omega)

theorem shiftLeft_of_count {a b : Int} {stop : Stop} (h : count b = .error stop) : shiftLeft a b = .error stop := by
  unfold shiftLeft
  rw [h]
  rfl

theorem shiftRight_of_count {a b : Int} {stop : Stop} (h : count b = .error stop) : shiftRight a b = .error stop := by
  unfold shiftRight
  rw [h]
  rfl

theorem shiftRight_eq_ediv (a : Int) (n : Nat) : a.shiftRight n = a / 2 ^ n := by
  rw [← Int.shiftRight_eq, Int.shiftRight_eq_div_pow]
  norm_cast

/-- Shifting back restores exactly what fits. -/
theorem bmod_ediv_eq_iff {a : Int} {n : Nat} (hn : n < 128) :
    (a * 2 ^ n).bmod (2 ^ 128) / 2 ^ n = a ↔ fits (a * 2 ^ n) = true := by
  have pos : (2 : Int) ^ n ≠ 0 := by positivity
  constructor
  · intro back
    obtain ⟨lost, hlost⟩ : ((2 ^ 128 : Nat) : Int) ∣ (a * 2 ^ n).bmod (2 ^ 128) - a * 2 ^ n := Int.dvd_bmod_sub_self
    have split : ((2 ^ 128 : Nat) : Int) = 2 ^ n * 2 ^ (128 - n) := by
      rw [← pow_add, Nat.add_sub_cancel' hn.le]
      norm_num
    have kept : (a * 2 ^ n).bmod (2 ^ 128) = (a + 2 ^ (128 - n) * lost) * 2 ^ n := by
      rw [split] at hlost
      linear_combination hlost
    rw [kept, Int.mul_ediv_cancel _ pos] at back
    have none : 2 ^ (128 - n) * lost = 0 := by omega
    rw [none, add_zero] at kept
    exact kept ▸ fits_bmod _
  · intro fit
    rw [bmod_eq_of_fits fit, Int.mul_ediv_cancel _ pos]

theorem shiftLeft_of_wide {a b : Int} (hb : 128 ≤ b) : shiftLeft a b = .error .refused := by
  cases hn : count b with
  | error stop =>
    obtain rfl := count_eq_error hn
    exact shiftLeft_of_count hn
  | ok n =>
    have wide : ¬n < 128 := by
      have := (count_eq_ok.mp hn).1
      omega
    unfold shiftLeft
    rw [hn]
    change (shiftedLeft a n >>= _) = _
    rw [shiftedLeft, if_neg wide]
    rfl

theorem shiftLeft_of_lt {a b : Int} {n : Nat} (hb : b = n) (hn : n < 128) :
    shiftLeft a b = within .refused (a * 2 ^ n) := by
  have counted : count b = .ok n := count_eq_ok.mpr ⟨hb, by unfold countLimit; omega⟩
  have left : shiftedLeft a n = .ok ((a * 2 ^ n).bmod (2 ^ 128)) := if_pos hn
  have right (i : Int) : shiftedRight i n = .ok (i / 2 ^ n) := (if_pos hn).trans (congrArg _ (shiftRight_eq_ediv i n))
  unfold shiftLeft
  simp only [counted, left, right, bind, Except.bind]
  by_cases fit : fits (a * 2 ^ n) = true
  · rw [if_pos ((bmod_ediv_eq_iff hn).mpr fit), bmod_eq_of_fits fit, within, if_pos fit]
    rfl
  · rw [if_neg fun back => fit ((bmod_ediv_eq_iff hn).mp back), within, if_neg fit]
    rfl

theorem not_fits_mul {a : Int} {n : Nat} (ha : a ≠ 0) (hn : 128 ≤ n) : ¬fits (a * 2 ^ n) = true := by
  have large : (2 : Int) ^ 128 ≤ 2 ^ n := pow_le_pow_right₀ (by norm_num) hn
  rw [fits_iff]
  rintro ⟨low, high⟩
  rcases lt_or_gt_of_ne ha with neg | pos
  · nlinarith
  · nlinarith

/-- From 127 bits on a shift to the right leaves only the sign. -/
theorem ediv_of_wide {a : Int} {n : Nat} (ha : fits a = true) (hn : 127 ≤ n) : a / 2 ^ n = a / 2 ^ 127 := by
  have range := fits_iff.mp ha
  have large : (2 : Int) ^ 127 ≤ 2 ^ n := pow_le_pow_right₀ (by norm_num) hn
  rcases lt_or_ge a 0 with neg | nonneg
  · rw [Int.ediv_eq_neg_one_of_neg_of_le neg (by omega), Int.ediv_eq_neg_one_of_neg_of_le neg (by omega)]
  · rw [Int.ediv_eq_zero_of_lt nonneg (by omega), Int.ediv_eq_zero_of_lt nonneg (by omega)]

theorem shiftRight_of_lt {a b : Int} {n : Nat} (ha : fits a = true) (hb : b = n) (hn : b < countLimit) :
    shiftRight a b = .ok (a / 2 ^ n) := by
  have counted : count b = .ok n := count_eq_ok.mpr ⟨hb, hn⟩
  unfold shiftRight shiftedRight
  rw [counted]
  change (if min n 127 < 128 then _ else _) = _
  rw [if_pos (by omega), shiftRight_eq_ediv]
  rcases le_total n 127 with narrow | wide
  · rw [min_eq_left narrow]
  · rw [min_eq_right wide, ediv_of_wide ha wide]

theorem fits_ediv_pow {a : Int} (ha : fits a = true) (n : Nat) : fits (a / 2 ^ n) = true := by
  have range := fits_iff.mp ha
  have pos : (0 : Int) < 2 ^ n := by positivity
  rw [fits_iff]
  rcases lt_or_ge a 0 with neg | nonneg
  · have low : a ≤ a / 2 ^ n := Int.le_ediv_of_mul_le pos (by nlinarith)
    have high : a / 2 ^ n < 0 := Int.ediv_neg_of_neg_of_pos neg pos
    omega
  · have low := Int.ediv_nonneg nonneg pos.le
    have high := Int.ediv_le_self (2 ^ n) nonneg
    omega

theorem not_fits_pow {a : Int} {n : Nat} (ha : ¬a.natAbs ≤ 1) (hn : 128 ≤ n) : ¬fits (a ^ n) = true := by
  have large : 2 ^ 128 ≤ (a ^ n).natAbs := by
    rw [Int.natAbs_pow]
    exact (Nat.pow_le_pow_right (by norm_num) hn).trans (Nat.pow_le_pow_left (by omega) n)
  rw [fits_iff]
  omega

theorem fits_pow_of_natAbs_le_one {a : Int} (ha : a.natAbs ≤ 1) (n : Nat) : fits (a ^ n) = true := by
  have bound : (a ^ n).natAbs ≤ 1 := by
    rw [Int.natAbs_pow]
    exact pow_le_one₀ (Nat.zero_le _) ha
  rw [fits_iff]
  omega

theorem pow_of_natAbs_le_one {a : Int} (ha : a.natAbs ≤ 1) (n : Nat) :
    (if n = 0 then 1 else if n % 2 = 0 then a * a else a) = a ^ n := by
  obtain rfl | rfl | rfl : a = 0 ∨ a = 1 ∨ a = -1 := by omega
  · split_ifs with zero
    · rw [zero, pow_zero]
    · rw [zero_pow zero, mul_zero]
    · rw [zero_pow zero]
  · simp
  · split_ifs with zero even
    · rw [zero, pow_zero]
    · rw [Even.neg_one_pow (Nat.even_iff.mpr even)]
      norm_num
    · rw [Odd.neg_one_pow (Nat.odd_iff.mpr (by omega))]

theorem power_of_count {a b : Int} {stop : Stop} (h : count b = .error stop) : power a b = .error stop := by
  unfold power
  rw [h]
  rfl

theorem power_of_lt {a b : Int} {n : Nat} (hb : b = n) (hn : b < countLimit) :
    power a b = within .refused (a ^ n) := by
  have counted : count b = .ok n := count_eq_ok.mpr ⟨hb, hn⟩
  unfold power
  rw [counted]
  change (if a.natAbs ≤ 1 then Except.ok (if n = 0 then 1 else if n % 2 = 0 then a * a else a)
    else if 128 ≤ n then .error .refused else within .refused (a ^ n)) = _
  by_cases small : a.natAbs ≤ 1
  · rw [if_pos small, pow_of_natAbs_le_one small]
    exact (within_eq_ok.mpr ⟨fits_pow_of_natAbs_le_one small n, rfl⟩).symm
  · rw [if_neg small]
    split_ifs with wide
    · rw [within, if_neg (not_fits_pow small wide)]
    · rfl

theorem toInt_ofInt {i : Int} (h : fits i = true) : (BitVec.ofInt 128 i).toInt = i :=
  (BitVec.toInt_ofInt i).trans (bmod_eq_of_fits h)

theorem testBit_toInt {w : Nat} (x : BitVec w) (k : Nat) :
    x.toInt.testBit k = if k < w then x.getLsbD k else x.msb := by
  rw [BitVec.toInt_eq_msb_cond]
  by_cases sign : x.msb
  · have complement : (x.toNat : Int) - ((2 ^ w : Nat) : Int) = Int.negSucc (~~~x).toNat := by
      have lt := x.isLt
      rw [BitVec.toNat_not, Int.negSucc_eq]
      omega
    rw [if_pos sign, complement]
    change (!(~~~x).toNat.testBit k) = _
    rw [BitVec.testBit_toNat, BitVec.getLsbD_not]
    split_ifs with hk
    · simp [hk]
    · simp [hk, sign]
  · rw [if_neg sign]
    change x.toNat.testBit k = _
    rw [BitVec.testBit_toNat]
    split_ifs with hk
    · rfl
    · rw [BitVec.getLsbD_of_ge x k (by omega), Bool.eq_false_iff.mpr sign]

/-- What acts bit by bit on words of 128 bits acts so on the whole integers. -/
theorem testBit_bitwise {f : BitVec 128 → BitVec 128 → BitVec 128} {g : Bool → Bool → Bool}
    (hf : ∀ x y k, k < 128 → (f x y).getLsbD k = g (x.getLsbD k) (y.getLsbD k)) {a b : Int} (ha : fits a = true)
    (hb : fits b = true) (k : Nat) : (bitwise f a b).testBit k = g (a.testBit k) (b.testBit k) := by
  unfold bitwise
  conv_rhs => rw [← toInt_ofInt ha, ← toInt_ofInt hb]
  rw [testBit_toInt, testBit_toInt, testBit_toInt]
  split_ifs with hk
  · exact hf _ _ k hk
  · simp only [BitVec.msb_eq_getLsbD_last]
    exact hf _ _ _ (by decide)

theorem fits_bitwise (f : BitVec 128 → BitVec 128 → BitVec 128) (a b : Int) : fits (bitwise f a b) = true :=
  fits_iff.mpr ⟨BitVec.le_toInt _, BitVec.toInt_lt⟩

theorem testBit_invert (i : Int) (k : Nat) : (-i - 1).testBit k = !i.testBit k := by
  have complement : -i - 1 = Int.lnot i := by
    cases i with
    | ofNat n => exact (Int.negSucc_eq n ▸ by omega : -(n : Int) - 1 = Int.negSucc n)
    | negSucc n =>
      change -Int.negSucc n - 1 = (n : Int)
      rw [Int.negSucc_eq]
      omega
  rw [complement, Int.testBit_lnot]

theorem eq_of_testBit_eq {m n : Int} (h : ∀ k, m.testBit k = n.testBit k) : m = n := by
  -- Far up all bits are the sign.
  have far : ∀ i j : Nat, (∀ k, i.testBit k = !j.testBit k) → False := by
    intro i j h
    have top := h (i + j)
    rw [Nat.testBit_lt_two_pow, Nat.testBit_lt_two_pow] at top
    · cases top
    · exact lt_of_le_of_lt (Nat.le_add_left j i) Nat.lt_two_pow_self
    · exact lt_of_le_of_lt (Nat.le_add_right i j) Nat.lt_two_pow_self
  cases m with
  | ofNat m =>
    cases n with
    | ofNat n => exact congrArg Int.ofNat (Nat.eq_of_testBit_eq h)
    | negSucc n => exact (far m n h).elim
  | negSucc m =>
    cases n with
    | ofNat n => exact (far n m fun k => (h k).symm).elim
    | negSucc n => exact congrArg Int.negSucc (Nat.eq_of_testBit_eq fun k => Bool.not_inj (h k))

end AddressMap.Scalar
