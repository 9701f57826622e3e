import AddressMap.Proofs.Decimal.Quotient
import AddressMap.Proofs.Record.Right
import AddressMap.Proofs.Scalar.Steps
import AddressMap.Record.Scaling

set_option autoImplicit false

namespace AddressMap

variable {patterns : PatternReader}

namespace Scaling

open Decimal

/-- `w` is what doubles give for `v / f`: both integers go to their nearest doubles, the quotient of these to its
    own, and the fraction is dropped. -/
def IsDoubleQuotient (v f w : ℤ) : Prop :=
  ∃ a b q : ℚ, IsNearest v a ∧ IsNearest f b ∧ IsNearest (a / b) q ∧ w = towardZero q

section
variable {v f w x : ℤ}

theorem IsDoubleQuotient.unique (hw : IsDoubleQuotient v f w) (hx : IsDoubleQuotient v f x) : w = x := by
  obtain ⟨a, b, q, ha, hb, hq, rfl⟩ := hw
  obtain ⟨a', b', q', ha', hb', hq', rfl⟩ := hx
  obtain rfl := ha.unique ha'
  obtain rfl := hb.unique hb'
  rw [hq.unique hq']

theorem IsDoubleQuotient.eq_tdiv (h : IsDoubleQuotient v f w) (short : |v| < 2 ^ 53) (nonzero : f ≠ 0) :
    w = v.tdiv f := by
  obtain ⟨a, b, q, ha, hb, hq, rfl⟩ := h
  exact towardZero_nearest short nonzero ha hb hq

theorem divide_ints (low : -2 ^ 63 ≤ v) (high : v < 2 ^ 64) (hf : Scalar.fits f) (nonzero : f ≠ 0) :
    ∃ w, IsDoubleQuotient v f w ∧ divide (.int v) (.int f) true = .ok (.int w) := by
  have bound : f.natAbs < 2 ^ 128 := by
    have := Scalar.fits_iff.mp hf
    omega
  obtain ⟨a, b, q, ha, hb, hq, some, holds, holds'⟩ := holds_quotient (v := v) (by omega) bound nonzero
  refine ⟨towardZero q, ⟨a, b, q, ha, hb, hq, rfl⟩, ?_⟩
  have small : |q| ≤ 2 ^ 64 := by
    refine hq.abs_at_most (isDouble_two_pow (by norm_num)) ?_
    have numerator : |a| ≤ 2 ^ 64 := ha.abs_at_most (isDouble_two_pow (by norm_num)) (by
      have : |v| ≤ 2 ^ 64 := abs_le.mpr ⟨by omega, by omega⟩
      exact_mod_cast this)
    have denominator : 1 ≤ |b| := (hb.magnitude bound nonzero).1
    rw [abs_div]
    exact (div_le_self (abs_nonneg a) denominator).trans numerator
  have within : |towardZero q| ≤ 2 ^ 64 := by exact_mod_cast (abs_towardZero_le q).trans small
  rw [abs_le] at within
  have inside : max Scalar.minInt (min Scalar.maxInt (towardZero q)) = towardZero q := by
    simp only [Scalar.minInt, Scalar.maxInt]
    omega
  simp only [divide, Scalar.toFloat?, beq_zero holds some, Scalar.truncated, truncate_holds holds', inside]
  rfl

end

variable {env : Env} {r : Record} {key : String}

theorem scaledValue_eq_ok {factor : Option Scalar} {sv : ScaledValue} {x f : Scalar}
    (h : scaledValue env r factor key = .ok sv) (hx : sv.value = some x) (hf : factor = some f) :
    ∃ y, divide x f r.isIntegral = .ok y ∧ sv.scaled = some y := by
  subst hf
  obtain ⟨value, _, h⟩ := bind_eq_ok.mp h
  cases value with
  | none =>
    cases h
    cases hx
  | some z =>
    simp only at h
    split at h
    · rename_i y hy
      cases h
      cases hx
      exact ⟨y, hy, rfl⟩
    · cases h

theorem scaledValue_of_divide {x f y : Scalar} (hx : evaluateKey env r key = .ok (some x))
    (hy : divide x f r.isIntegral = .ok y) : scaledValue env r (some f) key = .ok ⟨some x, some y⟩ := by
  unfold scaledValue
  rw [hx]
  simp only [bind, Except.bind, hy]
  rfl

end Scaling

def Record.IsScaled (r : Record) : Prop :=
  ∀ sv ∈ [r.default, r.min, r.max], ∀ x f, sv.value = some x → r.scalingFactor = some f →
    ∃ y, Scaling.divide x f r.isIntegral = .ok y ∧ sv.scaled = some y

namespace Resolution

theorem finishRecord_scaled {users : Entries Nat} {env : Env} {r r' : Record}
    (h : finishRecord users env r = .done r') : r'.IsScaled := by
  obtain ⟨s, _, ht⟩ := finishRecord_steps h
  simp only [Scaling.resolve, bind_eq_ok] at ht
  obtain ⟨factor, _, default, hdefault, min, hmin, max, hmax, ht⟩ := ht
  cases ht
  intro sv hsv x f hx hf
  simp only [List.mem_cons, List.not_mem_nil, or_false] at hsv
  obtain rfl | rfl | rfl := hsv
  · exact Scaling.scaledValue_eq_ok hdefault hx hf
  · exact Scaling.scaledValue_eq_ok hmin hx hf
  · exact Scaling.scaledValue_eq_ok hmax hx hf

theorem resolve_scaled {d : Description} {c : ResolvedMap} (h : resolve d patterns = .ok c) :
    ∀ m ∈ c.maps, ∀ r ∈ m.records, r.IsScaled := by
  obtain ⟨r₈, _, hdone, _, _, maps⟩ := resolve_eq_finished h
  obtain ⟨_, _, _, _, _, _, r₇, _, _, _, _, _, _, _, h₈⟩ := finished_eq_done hdone
  obtain ⟨finished, hfin, rfl⟩ := finishRecords_eq_done h₈
  rw [maps]
  exact finishRecords_forall (fun _ _ => finishRecord_scaled) hfin

end Resolution

namespace Scaling

/-- Every integral record scales an integer `v` by an integer `f` to the same `w`, which doubles make of `v / f`.
    Scaling does not fail, and below `2 ^ 53` it rounds the exact quotient toward zero. -/
theorem scaled_ints {v f : ℤ} (low : -2 ^ 63 ≤ v) (high : v < 2 ^ 64) (hf : Scalar.fits f) (nonzero : f ≠ 0) :
    ∃ w, (∀ x, IsDoubleQuotient v f x ↔ x = w) ∧ (|v| < 2 ^ 53 → w = v.tdiv f) ∧
      (∀ env r key, r.isIntegral → evaluateKey env r key = .ok (some (.int v)) →
        scaledValue env r (some (.int f)) key = .ok ⟨some (.int v), some (.int w)⟩) ∧
      ∀ d c, AddressMap.resolve d = .ok c → ∀ m ∈ c.maps, ∀ r ∈ m.records, r.isIntegral →
        r.scalingFactor = some (.int f) → ∀ sv ∈ [r.default, r.min, r.max], sv.value = some (.int v) →
          sv.scaled = some (.int w) := by
  obtain ⟨w, quotient, hw⟩ := divide_ints low high hf nonzero
  refine ⟨w, fun x => ⟨fun hx => hx.unique quotient, ?_⟩, fun short => quotient.eq_tdiv short nonzero, ?_, ?_⟩
  · rintro rfl
    exact quotient
  · intro env r key integral hv
    exact scaledValue_of_divide hv (integral ▸ hw)
  · intro d c hc m hm r hr integral hfactor sv hsv hvalue
    obtain ⟨y, hy, hscaled⟩ := Resolution.resolve_scaled hc m hm r hr sv hsv _ _ hvalue hfactor
    rw [integral, hw] at hy
    cases hy
    exact hscaled

end Scaling

/-- A level that no double holds, and a speed in thirds. -/
def Description.gains : Description where
  sections := [
    ("metadata", .object [("app_name", .string "board"), ("default_type", .string "uint64_t")]),
    ("typedefs", .object [("root", .object [("elements", .array [
      .object [("name", .string "level"), ("default", .number (.int 9007199254740993)),
        ("scaling_factor", .number (.int 1))],
      .object [("name", .string "speed"), ("type", .string "int16_t"), ("default", .number (.int (-1000))),
        ("scaling_factor", .number (.int 3))]])])]),
    ("generated_maps", .object [("board", .object [("type", .string "root")])])]

namespace Scaling

open Resolution

theorem eq_some_of_toInt? {x : Option Scalar} {i : ℤ} (h : x.bind Scalar.toInt? = some i) :
    x = some (.int i) := by
  rcases x with _ | (j | _ | _) <;> cases h
  rfl

theorem finished_gains : (finished .gains).error.isNone ∧ (finished .gains).state.metadata.isSome ∧
    (finished .gains).state.maps.map (fun m => m.records.map fun r =>
      (r.isIntegral, [r.scalingFactor, r.default.value, r.default.scaled].map (·.bind Scalar.toInt?))) =
    [[(true, [some 1, some 9007199254740993, some 9007199254740992]),
      (true, [some 3, some (-1000), some (-333)])]] := by
  decide +kernel

theorem resolves_gains : ∃ c, AddressMap.resolve .gains = .ok c ∧ ∃ m ∈ c.maps, ∃ level speed,
    m.records = [level, speed] ∧ (level.isIntegral ∧ level.scalingFactor = some (.int 1) ∧
      level.default = ⟨some (.int 9007199254740993), some (.int 9007199254740992)⟩) ∧
    speed.isIntegral ∧ speed.scalingFactor = some (.int 3) ∧ speed.default.value = some (.int (-1000)) := by
  obtain ⟨hnone, hmeta, hmaps⟩ := finished_gains
  obtain ⟨c, _, hc, rfl⟩ := resolves_of_finished hnone hmeta
  obtain ⟨m, hm, hrows⟩ := List.map_eq_singleton_iff.mp hmaps
  obtain ⟨level, rest, hrecords, hlevel, hrest⟩ := List.map_eq_cons_iff.mp hrows
  obtain ⟨speed, rfl, hspeed⟩ := List.map_eq_singleton_iff.mp hrest
  simp only [List.map_cons, List.map_nil, Prod.mk.injEq, List.cons.injEq, and_true] at hlevel hspeed
  obtain ⟨integral, factor, value, scaled⟩ := hlevel
  obtain ⟨integral', factor', value', -⟩ := hspeed
  have hmem : m ∈ (finished .gains).state.maps := by simp [hm]
  refine ⟨_, hc, m, hmem, level, speed, hrecords, ⟨integral, eq_some_of_toInt? factor, ?_⟩, integral',
    eq_some_of_toInt? factor', eq_some_of_toInt? value'⟩
  rw [← eq_some_of_toInt? value, ← eq_some_of_toInt? scaled]

theorem scaled_ints_gains : ∃ c, AddressMap.resolve .gains = .ok c ∧ ∃ m ∈ c.maps, ∃ r ∈ m.records,
    r.scalingFactor = some (.int 3) ∧ r.default = ⟨some (.int (-1000)), some (.int (-333))⟩ := by
  obtain ⟨c, hc, m, hm, level, speed, hrecords, -, integral, hfactor, hvalue⟩ := resolves_gains
  obtain ⟨w, -, exact, -, published⟩ :=
    scaled_ints (v := -1000) (f := 3) (by decide) (by decide) (by decide) (by decide)
  obtain rfl : w = -333 := exact (by decide)
  have hspeed : speed ∈ m.records := by simp [hrecords]
  have hscaled := published _ c hc m hm speed hspeed integral hfactor speed.default (by simp) hvalue
  exact ⟨c, hc, m, hm, speed, hspeed, hfactor, by rw [← hvalue, ← hscaled]⟩

/-- No double is `2 ^ 53 + 1`, so that even a factor of one changes it. -/
theorem scaled_inexact : ¬ ∀ d c, AddressMap.resolve d = .ok c → ∀ m ∈ c.maps, ∀ r ∈ m.records, r.isIntegral →
    ∀ v f : ℤ, -2 ^ 63 ≤ v → v < 2 ^ 64 → f ≠ 0 → r.scalingFactor = some (.int f) → r.default.value = some (.int v) →
      r.default.scaled = some (.int (v.tdiv f)) := by
  intro h
  obtain ⟨c, hc, m, hm, level, _, hrecords, ⟨integral, hfactor, hdefault⟩, -⟩ := resolves_gains
  have := h _ c hc m hm level (by simp [hrecords]) integral 9007199254740993 1 (by decide) (by decide) (by decide)
    hfactor (by rw [hdefault])
  rw [hdefault] at this
  exact absurd this (by simp)

end Scaling

end AddressMap
