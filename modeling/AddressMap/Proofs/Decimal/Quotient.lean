import AddressMap.Decimal.Binary
import AddressMap.Proofs.Decimal.Rounding

set_option autoImplicit false

namespace AddressMap.Decimal

open Float.Model (UnpackedFloat Format.binary64 totalExponent)
open Float.Model.UnpackedFloat

theorem toNat_exponent (b : BitVec Format.binary64.numBits) :
    (unpackExponent b).toNat = b.toNat / 2 ^ 52 % 2 ^ 11 := by
  simp [unpackExponent, BitVec.extractLsb_toNat, Nat.shiftRight_eq_div_pow]

theorem toNat_mantissa (b : BitVec Format.binary64.numBits) : (unpackMantissa b).toNat = b.toNat % 2 ^ 52 := by
  simp [unpackMantissa, BitVec.extractLsb_toNat]

theorem exponent_eq_iff (b : BitVec Format.binary64.numBits) (v : BitVec 11) :
    unpackExponent b = v ↔ b.toNat / 0x10000000000000 % 0x800 = v.toNat := by
  rw [← BitVec.toNat_inj, toNat_exponent]
  rfl

theorem mantissa_eq_zero_iff (b : BitVec Format.binary64.numBits) :
    unpackMantissa b = 0#_ ↔ b.toNat % 0x10000000000000 = 0 := by
  rw [← BitVec.toNat_inj, toNat_mantissa]
  rfl

theorem unpackSign_eq {spec : Float.Model.Format} (b : BitVec spec.numBits) : unpackSign b =
    (b.extractLsb (spec.mantissaBitsWithoutImplicit + spec.exponentBits)
      (spec.mantissaBitsWithoutImplicit + spec.exponentBits)).cast (by omega) := rfl

theorem ofBitVec_sign (b : BitVec Format.binary64.numBits) :
    Sign.ofBitVec (unpackSign b) = if decide (0x8000000000000000 ≤ b.toNat) then .negative else .positive := by
  have bound : b.toNat < 2 ^ 64 := b.isLt
  have high : (unpackSign b).toNat = b.toNat / 2 ^ 63 := by
    simp [unpackSign_eq, BitVec.extractLsb_toNat, Nat.shiftRight_eq_div_pow]
    omega
  unfold Sign.ofBitVec
  simp only [← BitVec.toNat_inj, high, BitVec.toNat_ofNat, decide_eq_true_eq]
  split_ifs <;> first | rfl | omega

theorem toNat_implicit (m : BitVec 52) : (1#1 ++ m).toNat = 2 ^ 52 + m.toNat := by
  rw [BitVec.toNat_append, ← Nat.shiftLeft_add_eq_or_of_lt m.isLt]
  rfl

theorem sign_cancel (s : Sign) : Sign.ofBitVec s.toBitVec = s := by
  cases s <;> rfl

theorem unpackSign_packComponents {spec : Float.Model.Format} (s : Sign) (e : BitVec spec.exponentBits)
    (m : BitVec spec.mantissaBitsWithoutImplicit) : unpackSign (packComponents spec s e m) = s.toBitVec := by
  apply BitVec.eq_of_getLsbD_eq
  intro i hi
  obtain rfl : i = 0 := by omega
  simp [unpackSign_eq, packComponents, BitVec.getLsbD_append, BitVec.getElem_append]

theorem unpack_pack {u : UnpackedFloat} {x : ℚ} (h : Holds u x) : (Float.Model.pack u).unpack = u := by
  unfold Float.Model.unpack Float.Model.pack
  rw [UInt64.toBitVec_ofBitVec]
  cases h with
  | zero s => cases s <;> rfl
  | @finite s m e pos full short low high =>
    have bias : Format.binary64.exponentBias = 1023 := rfl
    have biased : (BitVec.ofNat 11 (e + 1023 + 52).toNat).toNat = (e + 1075).toNat := by
      rw [BitVec.toNat_ofNat, Nat.mod_eq_of_lt (by omega)]
      omega
    have fraction : (BitVec.ofNat 52 m).toNat = m - 2 ^ 52 := by
      rw [BitVec.toNat_ofNat]
      omega
    have packed : pack Format.binary64 (.finite s m e pos) =
        packComponents Format.binary64 s (BitVec.ofNat 11 (e + 1023 + 52).toNat) (BitVec.ofNat 52 m) := by
      change (if 2 ^ 11 ≤ (e + 1023 + 52).toNat + 1 then packedInfinity Format.binary64 s
        else if m.log2 + 1 = 53 then packComponents Format.binary64 s _ _ else _) = _
      rw [if_neg (by omega), if_pos (by rw [log2_eq_of_lt full short])]
      rfl
    have notInfinite : BitVec.ofNat 11 (e + 1023 + 52).toNat ≠ -1#11 := fun h => by
      rw [h, show (-1#11).toNat = 2047 from rfl] at biased
      omega
    have notSubnormal : BitVec.ofNat 11 (e + 1023 + 52).toNat ≠ 0#11 := fun h => by
      rw [h, show (0#11).toNat = 0 from rfl] at biased
      omega
    rw [packed]
    unfold Float.Model.UnpackedFloat.unpack
    dsimp only
    rw [if_neg (unpackExponent_packComponents .. ▸ notInfinite),
      if_neg (unpackExponent_packComponents .. ▸ notSubnormal), unpackSign_packComponents, sign_cancel]
    congr 1
    · rw [unpackMantissa_packComponents, toNat_implicit, fraction]
      omega
    · rw [unpackExponent_packComponents, biased, bias]
      push_cast
      omega

theorem Holds.packed {u : UnpackedFloat} {x : ℚ} (h : Holds u x) : Holds (Float.Model.pack u).unpack x := by
  rwa [unpack_pack h]

/-- The fields of the bits are the sign, mantissa and exponent that the arithmetic works with. -/
theorem unpack_holds {x : Float} {y : ℚ} (h : Holds x.toModel.unpack y) :
    ∃ negative d, unpack x = .finite negative d ∧
      y = signed (if negative then .negative else .positive) (d.mantissa * 2 ^ d.exponent) := by
  obtain ⟨b, hb⟩ : ∃ b : BitVec Format.binary64.numBits, x.toModel.toBits.toBitVec = b := ⟨_, rfl⟩
  have bits : x.toBits.toNat = b.toNat := by rw [← hb]; rfl
  unfold Float.Model.unpack Float.Model.UnpackedFloat.unpack at h
  unfold unpack
  dsimp only at h ⊢
  rw [hb, ofBitVec_sign] at h
  rw [bits]
  generalize decide (0x8000000000000000 ≤ b.toNat) = negative at h ⊢
  generalize hs : (if negative then Sign.negative else .positive) = s at h
  by_cases infinite : unpackExponent b = -1#_
  · rw [if_pos infinite] at h
    split_ifs at h <;> cases h
  have finite : b.toNat / 0x10000000000000 % 0x800 ≠ 0x7FF := (exponent_eq_iff b _).not.mp infinite
  rw [if_neg infinite] at h
  rw [if_neg finite]
  by_cases subnormal : unpackExponent b = 0#_
  · have low : b.toNat / 0x10000000000000 % 0x800 = 0 := (exponent_eq_iff b _).mp subnormal
    rw [if_pos subnormal] at h
    rw [if_pos low]
    by_cases zero : unpackMantissa b = 0#_
    · rw [dif_pos zero] at h
      cases h
      exact ⟨negative, _, rfl, by simp [(mantissa_eq_zero_iff b).mp zero]⟩
    -- The significand of a subnormal double is too short.
    · rw [dif_neg zero] at h
      cases h with
      | finite _ _ full => exact absurd full (Nat.not_le.mpr (unpackMantissa b).isLt)
  · have normal : b.toNat / 0x10000000000000 % 0x800 ≠ 0 := (exponent_eq_iff b _).not.mp subnormal
    rw [if_neg subnormal] at h
    rw [if_neg normal]
    cases h
    refine ⟨negative, _, rfl, ?_⟩
    have place : ((unpackExponent b).toNat : ℤ) - (Format.binary64.exponentBias + (52 : ℕ)) =
        (b.toNat / 0x10000000000000 % 0x800 : ℕ) - 1075 := by
      rw [toNat_exponent, show Format.binary64.exponentBias = 1023 from rfl]
      omega
    rw [hs, place, toNat_implicit, toNat_mantissa]
    rfl

theorem Dyadic.floor_eq (d : Dyadic) : (d.floor : ℤ) = ⌊(d.mantissa * 2 ^ d.exponent : ℚ)⌋ := by
  unfold Dyadic.floor
  split_ifs with whole
  · obtain ⟨n, hn⟩ := Int.eq_ofNat_of_zero_le whole
    rw [hn, zpow_natCast, Int.toNat_natCast]
    exact_mod_cast (Int.floor_natCast (d.mantissa * 2 ^ n)).symm
  · obtain ⟨n, hn⟩ := Int.eq_ofNat_of_zero_le (show 0 ≤ -d.exponent by omega)
    rw [hn, show d.exponent = -n by omega, zpow_neg, zpow_natCast, Int.toNat_natCast, ← div_eq_mul_inv]
    exact_mod_cast (Rat.floor_natCast_div_natCast d.mantissa (2 ^ n)).symm

/-- What is left of a double without its fraction is the integer part of its value. -/
theorem truncate_holds {x : Float} {y : ℚ} (h : Holds x.toModel.unpack y) (low high : ℤ) :
    truncate low high x = max low (min high (towardZero y)) := by
  obtain ⟨negative, d, hx, rfl⟩ := unpack_holds h
  have nonneg : (0 : ℚ) ≤ d.mantissa * 2 ^ d.exponent := by positivity
  have part : towardZero (d.mantissa * 2 ^ d.exponent) = d.floor := by
    rw [towardZero, if_pos nonneg, d.floor_eq]
  unfold truncate
  rw [hx]
  cases negative with
  | true => simp [signed, towardZero_neg, part]
  | false => simp [signed, part]

theorem holds_normalize {n : ℕ} (pos : 0 < n) (short : n < 2 ^ 53) :
    ∃ a, Holds (UnpackedFloat.normalize Format.binary64 n 0 .positive) a ∧ IsNearest n a := by
  have narrow : n.log2 ≤ 52 := Nat.lt_succ_iff.mp ((Nat.log2_lt pos.ne').mpr short)
  have target : Format.binary64.targetExponent (totalExponent n 0) = n.log2 - 52 := by
    rw [targetExponent_eq, totalExponent]
    omega
  obtain ⟨k, hk⟩ : ∃ k, n.log2 + k = 52 := ⟨52 - n.log2, by omega⟩
  have full : 2 ^ 52 ≤ n * 2 ^ k := by
    rw [← hk, pow_add]
    exact Nat.mul_le_mul_right _ (Nat.log2_self_le pos.ne')
  have most : n * 2 ^ k < 2 ^ 53 := by
    rw [show 53 = n.log2 + 1 + k by omega, pow_add]
    exact Nat.mul_lt_mul_of_pos_right Nat.lt_log2_self (by positivity)
  have log := log2_eq_of_lt full most
  obtain ⟨a, ha, near⟩ := holds_exact .positive (e := -k) full (by omega) (by omega)
  refine ⟨a, ?_, ?_⟩
  · have positive : compare (n : ℤ) 0 = .gt := by
      rw [Int.compare_eq_gt]
      omega
    simp only [UnpackedFloat.normalize, positive, UnpackedFloat.round, target, decreaseExponent, Nat.shiftLeft_eq,
      Int.toNat_natCast, zero_sub, show (-((n.log2 : ℤ) - 52)).toNat = k by omega]
    exact ha
  · rw [zpow_neg, zpow_natCast] at near
    simpa [signed] using near

def one : UnpackedFloat := .finite .positive (2 ^ 52) (-52) (by norm_num)

theorem exponent_bounds {m : ℕ} {e : ℤ} (full : 2 ^ 52 ≤ m) (short : m < 2 ^ 53) (lower : 1 ≤ (m : ℚ) * 2 ^ e)
    (upper : (m : ℚ) * 2 ^ e ≤ 2 ^ 128) : -53 < e ∧ e ≤ 76 := by
  have full' : (2 : ℚ) ^ (52 : ℤ) ≤ m := by exact_mod_cast full
  have short' : (m : ℚ) < 2 ^ (53 : ℤ) := by exact_mod_cast short
  have two : (1 : ℚ) < 2 := by norm_num
  have low : (2 : ℚ) ^ (0 : ℤ) < 2 ^ (53 + e) := calc
    (2 : ℚ) ^ (0 : ℤ) ≤ m * 2 ^ e := by simpa using lower
    _ < 2 ^ (53 : ℤ) * 2 ^ e := by gcongr
    _ = 2 ^ (53 + e) := (zpow_add₀ two_ne_zero _ _).symm
  have high : (2 : ℚ) ^ (52 + e) ≤ 2 ^ (128 : ℤ) := calc
    (2 : ℚ) ^ (52 + e) = 2 ^ (52 : ℤ) * 2 ^ e := zpow_add₀ two_ne_zero _ _
    _ ≤ m * 2 ^ e := by gcongr
    _ ≤ 2 ^ (128 : ℤ) := by exact_mod_cast upper
  have := (zpow_lt_zpow_iff_right₀ two).mp low
  have := (zpow_le_zpow_iff_right₀ two).mp high
  omega

theorem holds_mul_one {u : UnpackedFloat} {a : ℚ} (h : Holds u a) (lower : 1 ≤ |a|) (upper : |a| ≤ 2 ^ 128) :
    ∃ b, Holds (mul Format.binary64 u one) b ∧ IsNearest a b := by
  cases h with
  | zero s => norm_num at lower
  | @finite s m e pos full short =>
    rw [abs_signed, abs_of_nonneg (by positivity)] at lower upper
    obtain ⟨low, high⟩ := exponent_bounds full short lower upper
    have wide : (m * 2 ^ 52).log2 = 104 := (Nat.log2_eq_iff (by omega)).mpr ⟨by omega, by omega⟩
    obtain ⟨b, hb, near⟩ := holds_exact s (m := m * 2 ^ 52) (e := e + -52) (by omega) (by omega) (by omega)
    refine ⟨b, ?_, ?_⟩
    · rw [show mul Format.binary64 (.finite s m e pos) one =
        roundWithAccuracy Format.binary64 s (m * 2 ^ 52) (e + -52) .exact by cases s <;> rfl]
      exact hb
    · have : ((m * 2 ^ 52 : ℕ) : ℚ) * 2 ^ (e + -52) = m * 2 ^ e := by
        rw [zpow_add₀ two_ne_zero]
        push_cast
        norm_num
        ring
      rwa [this] at near

/-- Short integers take two steps: they are normalized, and then multiplied by the first power of ten. -/
theorem holds_ofNat_of_lt {n : ℕ} (pos : 0 < n) (short : n < 2 ^ 53) :
    ∃ a, Holds (Float.ofNat n).toModel.unpack a ∧ IsNearest n a := by
  have positive : (0 : ℚ) ≤ n := by positivity
  obtain ⟨a, ha, near⟩ := holds_normalize pos short
  obtain rfl : a = n := near.eq_of_isDouble (by
    exact_mod_cast isDouble_intCast (n := n) (by rw [abs_of_nonneg] <;> omega))
  have lower : 1 ≤ |(n : ℚ)| := by
    rw [abs_of_nonneg positive]
    exact_mod_cast pos
  have upper : |(n : ℚ)| ≤ 2 ^ 128 := by
    have : n ≤ 2 ^ 128 := by omega
    rw [abs_of_nonneg positive]
    exact_mod_cast this
  obtain ⟨b, hb, near⟩ := holds_mul_one ha lower upper
  refine ⟨b, ?_, near⟩
  have bits : n.toUInt64.toNat = n := by
    simp
    omega
  have product : Float.ofNat n = n.toUInt64.toFloat * Float.ofBits 0x3FF0000000000000 := by
    show Float.ofScientific n false 0 = _
    rw [Float.ofScientific, dif_pos ⟨short, by norm_num⟩]
    rfl
  have first : n.toUInt64.toFloat.toModel.unpack = UnpackedFloat.normalize Format.binary64 n 0 .positive := by
    show (Float.Model.pack (UnpackedFloat.normalize Format.binary64 n.toUInt64.toNat 0 .positive)).unpack = _
    rw [bits, unpack_pack ha]
  rw [product]
  show Holds (Float.Model.pack (mul Format.binary64 n.toUInt64.toFloat.toModel.unpack one)).unpack b
  rw [first]
  exact hb.packed

/-- Longer integers get 53 zeros behind them and are rounded once. -/
theorem holds_ofNat_of_ge {n : ℕ} (long : 2 ^ 53 ≤ n) (hn : n < 2 ^ 128) :
    ∃ a, Holds (Float.ofNat n).toModel.unpack a ∧ IsNearest n a := by
  have wide : (n * 2 ^ 53).log2 < 181 := (Nat.log2_lt (by omega)).mpr (by omega)
  have full : 52 ≤ (n * 2 ^ 53).log2 := (Nat.le_log2 (by omega)).mpr (by omega)
  obtain ⟨a, ha, near⟩ := holds_exact .positive (m := n * 2 ^ 53) (e := -53) (by omega) (by omega) (by omega)
  have value : ((n * 2 ^ 53 : ℕ) : ℚ) * 2 ^ (-53 : ℤ) = n := by
    rw [Nat.cast_mul, mul_assoc]
    norm_num
  rw [value] at near
  refine ⟨a, ?_, near⟩
  have scientific : ofScientific Format.binary64 n 0 =
      roundWithAccuracy Format.binary64 .positive (n * 2 ^ 53) (-53) .exact := by
    rw [ofScientific, dif_neg (by omega), if_neg (by norm_num),
      if_neg (show ¬ (0 : ℤ) < -(2 ^ 11 + (n.log2 : ℤ)) by omega), if_pos le_rfl]
    change roundWithAccuracy Format.binary64 .positive (n <<< 53 * 1) (-53) .exact = _
    rw [Nat.mul_one, Nat.shiftLeft_eq]
  have path : Float.ofNat n = .ofModel (.pack (ofScientific Format.binary64 n 0)) := by
    show Float.ofScientific n false 0 = _
    rw [Float.ofScientific, dif_neg (by omega)]
    rfl
  rw [path, scientific]
  exact ha.packed

theorem holds_ofNat {n : ℕ} (hn : n < 2 ^ 128) : ∃ a, Holds (Float.ofNat n).toModel.unpack a ∧ IsNearest n a := by
  rcases Nat.eq_zero_or_pos n with rfl | pos
  · refine ⟨0, Holds.zero .positive, ?_⟩
    exact_mod_cast (isDouble_intCast (n := 0) (by norm_num)).nearest_self
  · rcases lt_or_ge n (2 ^ 53) with short | long
    · exact holds_ofNat_of_lt pos short
    · exact holds_ofNat_of_ge long hn

theorem Holds.neg {u : UnpackedFloat} {a : ℚ} (h : Holds u a) : Holds u.neg (-a) := by
  cases h with
  | zero s => exact neg_zero (G := ℚ) ▸ Holds.zero (-s)
  | @finite s m e pos full short low high =>
    rw [← signed_neg]
    exact .finite (-s) pos full short low high

theorem holds_ofInt {i : ℤ} (hi : i.natAbs < 2 ^ 128) :
    ∃ a, Holds (Float.ofInt i).toModel.unpack a ∧ IsNearest i a := by
  cases i with
  | ofNat n => exact holds_ofNat hi
  | negSucc n =>
    obtain ⟨a, ha, near⟩ := holds_ofNat hi
    refine ⟨-a, ha.neg.packed, ?_⟩
    rw [Int.cast_negSucc]
    exact near.neg

/-- Two significands of 53 bits are divided with 53 zeros behind the first. -/
theorem divCore_eq {m₁ m₂ : ℕ} {e₁ e₂ : ℤ} (h₁ : m₁.log2 = 52) (h₂ : m₂.log2 = 52) (low : -1021 ≤ e₁ - e₂) :
    divCore Format.binary64 m₁ e₁ m₂ e₂ =
      (m₁ * 2 ^ 53 / m₂, e₁ - e₂ - 53, accuracyOfFraction (m₁ * 2 ^ 53 % m₂) m₂) := by
  have target : Format.binary64.targetExponent (totalExponent m₁ e₁ - totalExponent m₂ e₂) = e₁ - e₂ - 53 := by
    rw [targetExponent_eq, totalExponent, totalExponent, h₁, h₂]
    omega
  simp only [divCore, target, min_eq_right (show e₁ - e₂ - 53 ≤ e₁ - e₂ by omega), Nat.shiftLeft_eq,
    show (e₁ - e₂ - (e₁ - e₂ - 53)).toNat = 53 by omega]

theorem holds_div {u w : UnpackedFloat} {a b : ℚ} (hu : Holds u a) (hw : Holds w b)
    (ha : a ≠ 0 → 1 ≤ |a| ∧ |a| ≤ 2 ^ 128) (hb : 1 ≤ |b| ∧ |b| ≤ 2 ^ 128) :
    ∃ q, Holds (div Format.binary64 u w) q ∧ IsNearest (a / b) q := by
  cases hw with
  | zero t => norm_num at hb
  | @finite t m₂ e₂ pos₂ full₂ short₂ =>
    rw [abs_signed, abs_of_nonneg (by positivity)] at hb
    obtain ⟨low₂, high₂⟩ := exponent_bounds full₂ short₂ hb.1 hb.2
    cases hu with
    | zero s =>
      refine ⟨0, Holds.zero (s / t), ?_⟩
      rw [zero_div]
      exact_mod_cast (isDouble_intCast (n := 0) (by norm_num)).nearest_self
    | @finite s m₁ e₁ pos₁ full₁ short₁ =>
      have some : (0 : ℚ) < m₁ * 2 ^ e₁ := by positivity
      rw [← abs_pos, abs_signed, abs_of_pos some] at ha
      obtain ⟨low₁, high₁⟩ := exponent_bounds full₁ short₁ (ha some).1 (ha some).2
      -- The exact quotient keeps 53 bits at least, so that one rounding is left.
      have core := divCore_eq (log2_eq_of_lt full₁ short₁) (log2_eq_of_lt full₂ short₂)
        (show -1021 ≤ e₁ - e₂ by omega)
      have full : 2 ^ 52 ≤ m₁ * 2 ^ 53 / m₂ := (Nat.le_div_iff_mul_le pos₂).mpr (by omega)
      have wide : (m₁ * 2 ^ 53 / m₂).log2 < 54 :=
        (Nat.log2_lt (by omega)).mpr ((Nat.div_lt_iff_lt_mul pos₂).mpr (by omega))
      have least : 52 ≤ (m₁ * 2 ^ 53 / m₂).log2 := (Nat.le_log2 (by omega)).mpr full
      obtain ⟨q, hq, near⟩ := holds_round (s / t) (e := e₁ - e₂ - 53) full
        (represents_fraction (m₁ * 2 ^ 53) pos₂) (by omega) (by omega)
      have value : (m₁ * 2 ^ e₁ / (m₂ * 2 ^ e₂) : ℚ) = (m₁ * 2 ^ 53 : ℕ) / m₂ * 2 ^ (e₁ - e₂ - 53) := by
        rw [zpow_sub₀ two_ne_zero, zpow_sub₀ two_ne_zero]
        push_cast
        field_simp
      refine ⟨q, ?_, by rwa [signed_div, value]⟩
      show Holds (roundWithAccuracy Format.binary64 (s / t) (divCore Format.binary64 m₁ e₁ m₂ e₂).1
        (divCore Format.binary64 m₁ e₁ m₂ e₂).2.1 (divCore Format.binary64 m₁ e₁ m₂ e₂).2.2) q
      rw [core]
      exact hq

theorem beq_zero {x : Float} {a : ℚ} (h : Holds x.toModel.unpack a) (ha : a ≠ 0) : (x == 0.0) = false := by
  show x.toModel.unpack.beq (.zero .positive) = false
  generalize x.toModel.unpack = u at h
  cases h with
  | zero s => exact absurd rfl ha
  | finite s => cases s <;> rfl

theorem IsNearest.magnitude {i : ℤ} {a : ℚ} (near : IsNearest i a) (hi : i.natAbs < 2 ^ 128) (nonzero : i ≠ 0) :
    1 ≤ |a| ∧ |a| ≤ 2 ^ 128 := by
  have least : 1 ≤ |(i : ℚ)| := by exact_mod_cast Int.one_le_abs nonzero
  have most : |(i : ℚ)| ≤ 2 ^ 128 := by
    have : |i| ≤ 2 ^ 128 := by rw [Int.abs_eq_natAbs]; omega
    exact_mod_cast this
  exact ⟨near.abs_at_least (by simpa using isDouble_two_pow (k := 0) (by norm_num)) least,
    near.abs_at_most (isDouble_two_pow (by norm_num)) most⟩

/-- Dividing integers as doubles rounds three times: both integers, and then their quotient. -/
theorem holds_quotient {v f : ℤ} (hv : v.natAbs < 2 ^ 128) (hf : f.natAbs < 2 ^ 128) (nonzero : f ≠ 0) :
    ∃ a b q, IsNearest v a ∧ IsNearest f b ∧ IsNearest (a / b) q ∧ b ≠ 0 ∧
      Holds (Float.ofInt f).toModel.unpack b ∧ Holds (Float.ofInt v / Float.ofInt f).toModel.unpack q := by
  obtain ⟨a, ha, near⟩ := holds_ofInt hv
  obtain ⟨b, hb, near'⟩ := holds_ofInt hf
  have large := near'.magnitude hf nonzero
  have numerator : a ≠ 0 → 1 ≤ |a| ∧ |a| ≤ 2 ^ 128 := fun some => near.magnitude hv (by
    rintro rfl
    exact some (near.eq_of_isDouble (isDouble_intCast (by norm_num))))
  obtain ⟨q, hq, near''⟩ := holds_div ha hb numerator large
  exact ⟨a, b, q, near, near', near'', abs_pos.mp (by linarith), hb, hq.packed⟩

end AddressMap.Decimal
