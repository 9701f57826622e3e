import AddressMap.Value.Json
import Mathlib.Data.Int.Order.Basic

set_option autoImplicit false

namespace AddressMap

def isFigure (c : Char) : Bool := c.isDigit || ['+', '-', '.', 'e', 'N', 'a', 'i', 'n', 'f'].contains c

theorem isFigure_of_isDigit {c : Char} (h : c.isDigit = true) : isFigure c = true := by
  rw [isFigure, h, Bool.true_or]

theorem toList_toString_of_nonneg {i : Int} (h : 0 ≤ i) : (toString i).toList = Nat.toDigits 10 i.natAbs := by
  obtain ⟨n, rfl⟩ := Int.eq_ofNat_of_zero_le h
  rw [Int.toString_eq_repr, Int.repr_eq_if, if_pos h, Nat.toList_repr, Int.toNat_natCast, Int.natAbs_natCast]

theorem toList_toString_of_neg {i : Int} (h : i < 0) :
    (toString i).toList = '-' :: Nat.toDigits 10 i.natAbs := by
  have size : (-i).toNat = i.natAbs := by omega
  rw [Int.toString_eq_repr, Int.repr_eq_if, if_neg (Int.not_le.mpr h), String.toList_append, Nat.toList_repr, size]
  rfl

theorem toList_toString_ne_nil (i : Int) : (toString i).toList ≠ [] := by
  rcases lt_or_ge i 0 with h | h
  · rw [toList_toString_of_neg h]
    exact List.cons_ne_nil _ _
  · rw [toList_toString_of_nonneg h]
    exact Nat.toDigits_ne_nil

theorem mem_toString_int {i : Int} {c : Char} (h : c ∈ (toString i).toList) : c.isDigit = true ∨ c = '-' := by
  have digit : c ∈ Nat.toDigits 10 i.natAbs → c.isDigit = true := fun hc =>
    Nat.isDigit_of_mem_toDigits (by decide) (by decide) hc
  rcases lt_or_ge i 0 with hi | hi
  · rw [toList_toString_of_neg hi] at h
    exact (List.mem_cons.mp h).symm.imp_left digit
  · rw [toList_toString_of_nonneg hi] at h
    exact .inl (digit h)

theorem toDigits_injective : (Nat.toDigits 10).Injective := by
  intro m n h
  rw [← @Nat.ofDigitChars_ten_toDigits m, h, Nat.ofDigitChars_ten_toDigits]

theorem toString_nat_injective : (toString : Nat → String).Injective := by
  intro m n h
  rw [Nat.toString_eq_ofList_toDigits, Nat.toString_eq_ofList_toDigits, String.ofList_inj] at h
  exact toDigits_injective h

theorem toString_int_injective : (toString : Int → String).Injective := by
  have apart : ∀ m n : Nat, '-' :: Nat.toDigits 10 m ≠ Nat.toDigits 10 n := by
    intro m n h
    have minus : '-' ∈ Nat.toDigits 10 n := h ▸ List.mem_cons_self
    exact absurd (Nat.isDigit_of_mem_toDigits (by decide) (by decide) minus) (by decide)
  intro i j h
  have chars := congrArg String.toList h
  rcases lt_or_ge i 0 with hi | hi <;> rcases lt_or_ge j 0 with hj | hj
  · rw [toList_toString_of_neg hi, toList_toString_of_neg hj] at chars
    have size := toDigits_injective (List.cons.inj chars).2
    omega
  · rw [toList_toString_of_neg hi, toList_toString_of_nonneg hj] at chars
    exact absurd chars (apart _ _)
  · rw [toList_toString_of_nonneg hi, toList_toString_of_neg hj] at chars
    exact absurd chars.symm (apart _ _)
  · rw [toList_toString_of_nonneg hi, toList_toString_of_nonneg hj] at chars
    have size := toDigits_injective chars
    omega

theorem mem_toString_nat {n : Nat} {c : Char} (h : c ∈ (toString n).toList) : c.isDigit = true := by
  rw [Nat.toString_eq_ofList_toDigits, String.toList_ofList] at h
  exact Nat.isDigit_of_mem_toDigits (by decide) (by decide) h

namespace Decimal

theorem point_mem_positional (digits : List Char) (point : Int) : '.' ∈ positional digits point := by
  unfold positional
  dsimp only
  split
  · simp
  · split <;> simp

theorem mark_mem_scientific (plus : Bool) (digits : List Char) (point : Int) : 'e' ∈ scientific plus digits point := by
  unfold scientific
  dsimp only
  split <;> simp

theorem isFigure_zeros {n : Nat} {c : Char} (h : c ∈ zeros n) : isFigure c = true := by
  cases List.eq_of_mem_replicate h
  rfl

theorem isFigure_positional {digits : List Char} (hdigits : ∀ d ∈ digits, isFigure d = true) {point : Int} {c : Char}
    (h : c ∈ positional digits point) : isFigure c = true := by
  have mark : isFigure '.' = true ∧ isFigure '0' = true := ⟨rfl, rfl⟩
  unfold positional at h
  dsimp only at h
  split at h
  · simp only [List.mem_append, List.mem_cons, List.not_mem_nil, or_false] at h
    rcases h with (hc | hc) | rfl | rfl
    · exact hdigits c hc
    · exact isFigure_zeros hc
    · exact mark.1
    · exact mark.2
  · split at h
    · rcases List.mem_append.mp h with hc | hc
      · exact hdigits c (List.mem_of_mem_take hc)
      · rcases List.mem_cons.mp hc with rfl | hc
        · exact mark.1
        · exact hdigits c (List.mem_of_mem_drop hc)
    · simp only [List.cons_append, List.mem_cons, List.mem_append] at h
      rcases h with rfl | rfl | hc | hc
      · exact mark.2
      · exact mark.1
      · exact isFigure_zeros hc
      · exact hdigits c hc

theorem isFigure_scientific {plus : Bool} {digits : List Char} (hdigits : ∀ d ∈ digits, isFigure d = true)
    {point : Int} {c : Char} (h : c ∈ scientific plus digits point) : isFigure c = true := by
  have exponent : ∀ c ∈ 'e' :: (if plus && 0 ≤ point - 1 then "+" else "").toList ++ (toString (point - 1)).toList,
      isFigure c = true := by
    intro c hc
    simp only [List.cons_append, List.mem_cons, List.mem_append] at hc
    rcases hc with rfl | hc | hc
    · rfl
    · split at hc
      · cases List.mem_singleton.mp hc
        rfl
      · cases hc
    · rcases mem_toString_int hc with hdigit | rfl
      · exact isFigure_of_isDigit hdigit
      · rfl
  unfold scientific at h
  dsimp only at h
  split at h
  · exact exponent c h
  · rename_i d
    rcases List.mem_cons.mp h with rfl | hc
    · exact hdigits _ List.mem_cons_self
    · exact exponent c hc
  · rename_i d rest _
    rw [List.cons_append, List.cons_append] at h
    rcases List.mem_cons.mp h with rfl | hc
    · exact hdigits _ List.mem_cons_self
    · rcases List.mem_cons.mp hc with rfl | hc
      · rfl
      · rcases List.mem_append.mp hc with hc | hc
        · exact hdigits c (List.mem_cons_of_mem _ hc)
        · exact exponent c hc

def isMark (c : Char) : Bool := c == '.' || c == 'e' || c == 'N' || c == 'i'

theorem magnitude_data (d : Dyadic) : Layout.data.magnitude d = ['0', '.', '0'] ∨ ∃ (n : Nat) (point : Int),
    Layout.data.magnitude d = positional (toString n).toList point ∨
    Layout.data.magnitude d = scientific true (toString n).toList point := by
  unfold Layout.magnitude
  rw [if_neg (by simp [Layout.data])]
  dsimp only [Layout.data]
  by_cases zero : (d.shortest false).digits = 0
  · exact .inl (if_pos zero)
  · rw [if_neg zero]
    exact .inr ⟨_, _, ite_eq_or_eq _ _ _⟩

theorem isFigure_magnitude {d : Dyadic} {c : Char} (h : c ∈ Layout.data.magnitude d) : isFigure c = true := by
  have digits : ∀ {n : Nat}, ∀ c ∈ (toString n).toList, isFigure c = true := fun c hc =>
    isFigure_of_isDigit (mem_toString_nat hc)
  rcases magnitude_data d with heq | ⟨n, point, heq | heq⟩
  · rw [heq] at h
    exact (List.all_eq_true (p := isFigure)).mp rfl c h
  · exact isFigure_positional digits (heq ▸ h)
  · exact isFigure_scientific digits (heq ▸ h)

theorem exists_mark_magnitude (d : Dyadic) : ∃ c ∈ Layout.data.magnitude d, isMark c = true := by
  rcases magnitude_data d with heq | ⟨n, point, heq | heq⟩
  · exact ⟨'.', by simp [heq], rfl⟩
  · exact ⟨'.', heq ▸ point_mem_positional _ _, rfl⟩
  · exact ⟨'e', heq ▸ mark_mem_scientific _ _ _, rfl⟩

end Decimal

namespace Number

open Decimal (Layout isMark)

theorem isFigure_text {n : Number} {c : Char} (h : c ∈ n.text.toList) : isFigure c = true := by
  cases n with
  | int i =>
    rcases mem_toString_int h with hdigit | rfl
    · exact isFigure_of_isDigit hdigit
    · rfl
  | float x =>
    rw [text, Layout.render] at h
    split at h
    · exact (List.all_eq_true (p := isFigure)).mp rfl c h
    · split at h
      · exact (List.all_eq_true (p := isFigure)).mp rfl c h
      · exact (List.all_eq_true (p := isFigure)).mp rfl c h
    · rename_i negative d _
      rw [String.toList_ofList] at h
      split at h
      · rcases List.mem_cons.mp h with rfl | hc
        · rfl
        · exact Decimal.isFigure_magnitude hc
      · exact Decimal.isFigure_magnitude h

theorem exists_mark_float (x : Float) : ∃ c ∈ (float x).text.toList, isMark c = true := by
  rw [text, Layout.render]
  split
  · exact ⟨'N', by decide, rfl⟩
  · split
    · exact ⟨'i', by decide, rfl⟩
    · exact ⟨'i', by decide, rfl⟩
  · rename_i negative d _
    obtain ⟨c, hc, hmark⟩ := Decimal.exists_mark_magnitude d
    refine ⟨c, ?_, hmark⟩
    rw [String.toList_ofList]
    split
    · exact List.mem_cons_of_mem _ hc
    · exact hc

theorem text_ne_nil (n : Number) : n.text.toList ≠ [] := by
  cases n with
  | int i => exact toList_toString_ne_nil i
  | float x =>
    obtain ⟨c, hc, _⟩ := exists_mark_float x
    exact List.ne_nil_of_mem hc

theorem int_text_ne_float (i : Int) (x : Float) : (int i).text ≠ (float x).text := by
  intro h
  obtain ⟨c, hc, hmark⟩ := exists_mark_float x
  rw [← h] at hc
  rcases mem_toString_int hc with hdigit | rfl
  · simp only [isMark, Bool.or_eq_true, beq_iff_eq] at hmark
    rcases hmark with ((rfl | rfl) | rfl) | rfl <;> exact absurd hdigit (by decide)
  · exact absurd hmark (by decide)

theorem eq_of_text {m n : Number} (h : m.text = n.text)
    (hfloat : ∀ x y, m = float x → n = float y → x = y) : m = n := by
  cases m with
  | int i =>
    cases n with
    | int j => exact congrArg int (toString_int_injective h)
    | float y => exact absurd h (int_text_ne_float i y)
  | float x =>
    cases n with
    | int j => exact absurd h.symm (int_text_ne_float j x)
    | float y => exact congrArg float (hfloat x y rfl rfl)

end Number

end AddressMap
