import AddressMap.Enumeration
import AddressMap.Proofs.Names
import AddressMap.Proofs.Scalar.Steps
import Mathlib.Tactic.NormNum
import Mathlib.Tactic.Positivity

set_option autoImplicit false

namespace AddressMap

namespace Primitive

def InRange (p : Primitive) (i : Int) : Prop :=
  if p.isSigned then -2 ^ (8 * p.size - 1) ≤ i ∧ i < 2 ^ (8 * p.size - 1) else 0 ≤ i ∧ i < 2 ^ (8 * p.size)

instance (p : Primitive) (i : Int) : Decidable (p.InRange i) := inferInstanceAs (Decidable (ite _ _ _))

theorem bounds?_eq_some {p : Primitive} {bounds : Int × Int} (h : p.bounds? = some bounds) :
    p.isInteger = true ∧ ∀ i, (i < bounds.1 || bounds.2 < i) = false ↔ p.InRange i := by
  have power (n : Nat) : ((Nat.pow 2 n : Nat) : Int) = 2 ^ n := by
    rw [Nat.pow_eq]
    norm_cast
  simp only [bounds?, power] at h
  split_ifs at h with integer signed
  · cases h
    refine ⟨by simpa using integer, fun i => ?_⟩
    rw [InRange, if_pos signed, Bool.or_eq_false_iff, decide_eq_false_iff_not, decide_eq_false_iff_not]
    omega
  · cases h
    refine ⟨by simpa using integer, fun i => ?_⟩
    rw [InRange, if_neg signed, Bool.or_eq_false_iff, decide_eq_false_iff_not, decide_eq_false_iff_not]
    omega

theorem exists_bounds {p : Primitive} (h : p.isInteger = true) : ∃ bounds, p.bounds? = some bounds := by
  cases p <;> first | exact ⟨_, rfl⟩ | cases h

theorem natAbs_lt_of_inRange {p : Primitive} {i : Int} (h : p.InRange i) : i.natAbs < 2 ^ 64 := by
  cases p <;> simp [InRange, isSigned, size] at h <;> omega

end Primitive

namespace Enumeration

/-- What counting on from the value of the member before gives. -/
def Continues (bitwise : Bool) : Option Int → Int → Prop
  | none, i => i = if bitwise then 1 else 0
  | some previous, i =>
    if bitwise then IsLeast {bit : Int | (∃ k : Nat, bit = 2 ^ k) ∧ |previous| < bit} i else i = previous + 1

def HasValue (env : Env) (bitwise : Bool) (previous : Option Int) (d : OptionDecl) (i : Int) : Prop :=
  match d.value with
  | some v => evaluateValue v env = .ok (.int i)
  | none => Continues bitwise previous i

/-- The values of members in their order, each after the one before. -/
inductive Counted (env : Env) (bitwise : Bool) : Option Int → List OptionDecl → List Int → Prop
  | nil {previous : Option Int} : Counted env bitwise previous [] []
  | cons {previous : Option Int} {d : OptionDecl} {i : Int} {ds : List OptionDecl} {is : List Int} :
    HasValue env bitwise previous d i → Counted env bitwise (some i) ds is →
      Counted env bitwise previous (d :: ds) (i :: is)

/-- The type of the enum is the integer `base`, all members have values of it, and no two have the same name. -/
structure Countable (env : Env) (fallback : Primitive) (d : EnumDecl) (base : Primitive) : Prop where
  given : ∀ type, d.head.type = some type → Primitive.ofName? type = some base
  missing : d.head.type = none → fallback = base
  integer : base.isInteger = true
  integers : ∀ m ∈ d.members, ∀ v, m.value = some v → ∃ i, evaluateValue v env = .ok (.int i)
  inRange : ∀ values, Counted env d.head.bitwise none d.members values → ∀ i ∈ values, base.InRange i
  names : (d.members.map (·.name)).Nodup

end Enumeration

def EnumMember.decl (m : EnumMember) : OptionDecl := ⟨m.name, m.value, m.description, m.props⟩

def Enumeration.decl (e : Enumeration) : List OptionDecl × EnumHead :=
  (e.members.map EnumMember.decl, ⟨e.type, e.bitwise, e.description, e.props⟩)

namespace Enumeration

theorem isLeast_bitLength (n : Nat) :
    IsLeast {bit : Int | (∃ k : Nat, bit = 2 ^ k) ∧ (n : Int) < bit} (2 ^ bitLength n) := by
  have above : n < 2 ^ bitLength n := by
    unfold bitLength
    split_ifs with zero
    · rw [zero]
      decide
    · exact Nat.lt_log2_self
  refine ⟨⟨⟨_, rfl⟩, by exact_mod_cast above⟩, ?_⟩
  rintro - ⟨⟨k, rfl⟩, hk⟩
  have lt : n < 2 ^ k := by exact_mod_cast hk
  have le : bitLength n ≤ k := by
    unfold bitLength
    split_ifs with zero
    · exact Nat.zero_le k
    · exact (Nat.log2_lt zero).mpr lt
  exact pow_le_pow_right₀ one_le_two le

theorem continues_bit (previous : Int) : Continues true (some previous) (2 ^ bitLength previous.natAbs) := by
  change IsLeast {bit : Int | (∃ k : Nat, bit = 2 ^ k) ∧ |previous| < bit} _
  rw [Int.abs_eq_natAbs]
  exact isLeast_bitLength previous.natAbs

theorem continues_unique {bitwise : Bool} {previous : Option Int} {i j : Int} (hi : Continues bitwise previous i)
    (hj : Continues bitwise previous j) : i = j := by
  cases previous with
  | none => exact hi.trans hj.symm
  | some previous =>
    unfold Continues at hi hj
    split_ifs at hi hj
    · exact hi.unique hj
    · exact hi.trans hj.symm

theorem hasValue_unique {env : Env} {bitwise : Bool} {previous : Option Int} {d : OptionDecl} {i j : Int}
    (hi : HasValue env bitwise previous d i) (hj : HasValue env bitwise previous d j) : i = j := by
  unfold HasValue at hi hj
  cases hv : d.value with
  | none =>
    simp only [hv] at hi hj
    exact continues_unique hi hj
  | some v =>
    simp only [hv] at hi hj
    cases hi.symm.trans hj
    rfl

theorem counted_unique {env : Env} {bitwise : Bool} {previous : Option Int} {ds : List OptionDecl} {is js : List Int}
    (hi : Counted env bitwise previous ds is) (hj : Counted env bitwise previous ds js) : is = js := by
  induction hi generalizing js with
  | nil =>
    cases hj
    rfl
  | cons first _ ih =>
    obtain _ | ⟨first', rest'⟩ := hj
    obtain rfl := hasValue_unique first first'
    rw [ih rest']

theorem exists_continues (bitwise : Bool) (previous : Option Int) : ∃ i, Continues bitwise previous i := by
  cases previous with
  | none => exact ⟨_, rfl⟩
  | some previous =>
    cases bitwise with
    | false => exact ⟨_, rfl⟩
    | true => exact ⟨_, continues_bit previous⟩

theorem exists_counted {env : Env} (bitwise : Bool) (previous : Option Int) {ds : List OptionDecl}
    (h : ∀ m ∈ ds, ∀ v, m.value = some v → ∃ i, evaluateValue v env = .ok (.int i)) :
    ∃ values, Counted env bitwise previous ds values := by
  induction ds generalizing previous with
  | nil => exact ⟨[], .nil⟩
  | cons d rest ih =>
    have value : ∃ i, HasValue env bitwise previous d i := by
      unfold HasValue
      split
      · rename_i v hv
        exact h d List.mem_cons_self v hv
      · exact exists_continues bitwise previous
    obtain ⟨i, hi⟩ := value
    obtain ⟨values, hvalues⟩ := ih (some i) fun m hm => h m (List.mem_cons_of_mem d hm)
    exact ⟨i :: values, .cons hi hvalues⟩

theorem integers_of_counted {env : Env} {bitwise : Bool} {previous : Option Int} {ds : List OptionDecl} {is : List Int}
    (h : Counted env bitwise previous ds is) {m : OptionDecl} (hm : m ∈ ds) {v : Value} (hv : m.value = some v) :
    ∃ i, evaluateValue v env = .ok (.int i) := by
  induction h with
  | nil => cases hm
  | @cons previous d i ds is first _ ih =>
    rcases List.mem_cons.mp hm with rfl | hm
    · rw [HasValue, hv] at first
      exact ⟨i, first⟩
    · exact ih hm

theorem exists_members {env : Env} {bitwise : Bool} {previous : Option Int} {ds : List OptionDecl} {is : List Int}
    (h : Counted env bitwise previous ds is) :
    ∃ ms : List EnumMember, ms.map (·.resolved) = is ∧ ms.map EnumMember.decl = ds := by
  induction h with
  | nil => exact ⟨[], rfl, rfl⟩
  | @cons previous d i ds is _ _ ih =>
    obtain ⟨ms, rfl, rfl⟩ := ih
    exact ⟨⟨d.name, d.value, i, d.description, d.props⟩ :: ms, rfl, rfl⟩

/-- Values of 64 bits. The values within a type are so, hence all that the loop counts on from. -/
def Small (previous : Option Int) : Prop := ∀ p, previous = some p → p.natAbs < 2 ^ 64

theorem small_none : Small none := fun _ => nofun

theorem small_of_inRange {base : Primitive} {i : Int} (h : base.InRange i) : Small (some i) :=
  fun _ hp => Option.some.inj hp ▸ Primitive.natAbs_lt_of_inRange h

theorem implied_exact (bitwise : Bool) {previous : Option Int} (h : Small previous) :
    ∃ i, implied bitwise previous = .ok i ∧ Continues bitwise previous i := by
  cases previous with
  | none => exact ⟨_, rfl, rfl⟩
  | some previous =>
    have small := h previous rfl
    cases bitwise with
    | false =>
      have fit : Scalar.fits (previous + 1) = true := by
        rw [Scalar.fits_iff]
        omega
      exact ⟨previous + 1, if_pos fit, rfl⟩
    | true =>
      have short : bitLength previous.natAbs ≤ 64 := by
        unfold bitLength
        split_ifs with zero
        · exact Nat.zero_le 64
        · exact (Nat.log2_lt zero).mpr small
      have fit : Scalar.fits (2 ^ bitLength previous.natAbs) = true := by
        have low : (0 : Int) < 2 ^ bitLength previous.natAbs := by positivity
        have high : (2 : Int) ^ bitLength previous.natAbs ≤ 2 ^ 64 := pow_le_pow_right₀ one_le_two short
        rw [Scalar.fits_iff]
        omega
      refine ⟨_, ?_, continues_bit previous⟩
      change Scalar.shiftedLeft 1 (bitLength previous.natAbs) = _
      rw [Scalar.shiftedLeft, if_pos (by omega), one_mul]
      exact congrArg Except.ok (Scalar.bmod_eq_of_fits fit)

theorem memberValue_eq_ok {env : Env} {name : String} {bitwise : Bool} {previous : Option Int} (h : Small previous)
    {d : OptionDecl} {i : Int} :
    memberValue env name bitwise previous d = .ok i ↔ HasValue env bitwise previous d i := by
  unfold memberValue HasValue
  cases d.value with
  | none =>
    obtain ⟨j, hj, exact⟩ := implied_exact bitwise h
    rw [hj]
    constructor
    · rintro ⟨⟩
      exact exact
    · intro hi
      exact congrArg Except.ok (continues_unique exact hi)
  | some v =>
    dsimp only
    cases evaluateValue v env with
    | error e => simp
    | ok x => cases x <;> simp [invalid]

section Members

variable {env : Env} {name : String} {base : Primitive} {bounds : Int × Int} {bitwise : Bool}

/-- Each member is counted on from the one before, and within the type it leaves the next one a small value. -/
theorem membersFrom_eq_ok (hbounds : base.bounds? = some bounds) {previous : Option Int} (h : Small previous)
    {ds : List OptionDecl} {ms : List EnumMember} :
    membersFrom env name base bounds bitwise previous ds = .ok ms ↔
      Counted env bitwise previous ds (ms.map (·.resolved)) ∧ (∀ m ∈ ms, base.InRange m.resolved) ∧
        ms.map EnumMember.decl = ds := by
  have within := (Primitive.bounds?_eq_some hbounds).2
  induction ds generalizing previous ms with
  | nil =>
    rw [membersFrom, Except.ok.injEq]
    constructor
    · rintro rfl
      exact ⟨.nil, nofun, rfl⟩
    · rintro ⟨-, -, hdecl⟩
      exact (List.map_eq_nil_iff.mp hdecl).symm
  | cons d rest ih =>
    constructor
    · intro hms
      simp only [membersFrom] at hms
      split at hms
      · cases hms
      · rename_i i hi
        rw [guard_eq_ok (by simp [invalid])] at hms
        obtain ⟨inside, hms⟩ := hms
        obtain ⟨tail, htail, rfl⟩ := map_eq_ok.mp hms
        have range := (within i).mp (Bool.eq_false_iff.mpr inside)
        obtain ⟨counted, ranges, decls⟩ := (ih (small_of_inRange range)).mp htail
        refine ⟨.cons ((memberValue_eq_ok h).mp hi) counted, List.forall_mem_cons.mpr ⟨range, ranges⟩, ?_⟩
        rw [List.map_cons, decls]
        rfl
    · rintro ⟨counted, ranges, decls⟩
      obtain ⟨m, tail, rfl, rfl, rfl⟩ := List.map_eq_cons_iff.mp decls
      obtain _ | ⟨value, counted⟩ := counted
      obtain ⟨range, ranges⟩ := List.forall_mem_cons.mp ranges
      have tailRead := (ih (small_of_inRange range)).mpr ⟨counted, ranges, rfl⟩
      rw [membersFrom, (memberValue_eq_ok h).mpr value]
      dsimp only
      rw [if_neg (Bool.eq_false_iff.mp ((within m.resolved).mpr range)), tailRead]
      rfl

theorem membersFrom_append {previous : Option Int} {before : List OptionDecl} {ms : List EnumMember}
    (h : membersFrom env name base bounds bitwise previous before = .ok ms) (after : List OptionDecl) :
    membersFrom env name base bounds bitwise previous (before ++ after) =
      (membersFrom env name base bounds bitwise ((ms.getLast?.map (·.resolved)).or previous) after).map (ms ++ ·) := by
  induction before generalizing previous ms with
  | nil =>
    cases h
    cases hafter : membersFrom env name base bounds bitwise previous after <;> simp [hafter, Except.map]
  | cons d rest ih =>
    simp only [membersFrom] at h
    split at h
    · cases h
    · rename_i i hi
      rw [guard_eq_ok (by simp [invalid])] at h
      obtain ⟨inside, h⟩ := h
      obtain ⟨tail, htail, rfl⟩ := map_eq_ok.mp h
      have last : (tail.getLast?.map (·.resolved)).or (some i) =
          ((⟨d.name, d.value, i, d.description, d.props⟩ :: tail : List EnumMember).getLast?.map (·.resolved)).or
            previous := by
        rw [List.getLast?_cons]
        cases tail.getLast? <;> rfl
      rw [List.cons_append, membersFrom, hi]
      dsimp only
      rw [if_neg inside, ih htail, last]
      cases membersFrom env name base bounds bitwise _ after <;> rfl

/-- Where the loop has come to a member, counting on from the members before is exact. -/
theorem implied_of_membersFrom (hbounds : base.bounds? = some bounds) {ds : List OptionDecl} {ms : List EnumMember}
    (h : membersFrom env name base bounds bitwise none ds = .ok ms) :
    ∃ i, implied bitwise (ms.getLast?.map (·.resolved)) = .ok i ∧
      Continues bitwise (ms.getLast?.map (·.resolved)) i := by
  obtain ⟨-, ranges, -⟩ := (membersFrom_eq_ok hbounds small_none).mp h
  cases hlast : ms.getLast? with
  | none => exact implied_exact bitwise small_none
  | some m => exact implied_exact bitwise (small_of_inRange (ranges m (List.mem_of_getLast? hlast)))

theorem membersFrom_ne_overflows (hbounds : base.bounds? = some bounds) {previous : Option Int} (h : Small previous)
    (ds : List OptionDecl) (member : String) : membersFrom env name base bounds bitwise previous ds ≠
      .error (.invalidDefinition .enumeration name (.overflows member)) := by
  have within := (Primitive.bounds?_eq_some hbounds).2
  induction ds generalizing previous with
  | nil => nofun
  | cons d rest ih =>
    intro herror
    simp only [membersFrom] at herror
    split at herror
    · rename_i e he
      cases herror
      obtain ⟨i, hi, -⟩ := implied_exact bitwise h
      unfold memberValue at he
      rw [hi] at he
      split at he
      · cases he
      · split at he <;> cases he
    · rename_i i _
      split at herror
      · cases herror
      · rename_i inside
        have range := (within i).mp (Bool.eq_false_iff.mpr inside)
        exact ih (small_of_inRange range) (map_eq_error.mp herror)

end Members

theorem baseType_eq_ok {fallback base : Primitive} {name : String} {type : Option String} :
    baseType fallback name type = .ok base ↔
      (∀ given, type = some given → Primitive.ofName? given = some base) ∧ (type = none → fallback = base) := by
  unfold baseType
  cases type with
  | none => simp
  | some given => cases hp : Primitive.ofName? given <;> simp [hp]

theorem resolve_eq_ok {env : Env} {fallback : Primitive} {name : String} {d : EnumDecl} {e : Enumeration} :
    resolve env fallback name d = .ok e ↔ ∃ base bounds members, baseType fallback name d.head.type = .ok base ∧
      base.bounds? = some bounds ∧ membersFrom env name base bounds d.head.bitwise none d.members = .ok members ∧
      checkUnique name (members.map (·.name)) = .ok () ∧
      e = ⟨members, d.head.type, base, d.head.bitwise, d.head.description, d.head.props⟩ := by
  unfold resolve
  constructor
  · intro h
    obtain ⟨base, hbase, h⟩ := bind_eq_ok.mp h
    cases hbounds : base.bounds? with
    | none =>
      rw [hbounds] at h
      cases h
    | some bounds =>
      rw [hbounds] at h
      obtain ⟨members, hmembers, h⟩ := bind_eq_ok.mp h
      obtain ⟨hunique, h⟩ := check_bind_eq_ok.mp h
      cases h
      exact ⟨base, bounds, members, hbase, hbounds, hmembers, hunique, rfl⟩
  · rintro ⟨base, bounds, members, hbase, hbounds, hmembers, hunique, rfl⟩
    refine bind_eq_ok.mpr ⟨base, hbase, ?_⟩
    rw [hbounds]
    exact bind_eq_ok.mpr ⟨members, hmembers, check_bind_eq_ok.mpr ⟨hunique, rfl⟩⟩

theorem names_of_decl {ms : List EnumMember} {ds : List OptionDecl} (h : ms.map EnumMember.decl = ds) :
    ms.map (·.name) = ds.map (·.name) := by
  rw [← h, List.map_map]
  rfl

theorem resolve_counted {env : Env} {fallback : Primitive} {name : String} {d : EnumDecl} {e : Enumeration}
    (h : resolve env fallback name d = .ok e) : Countable env fallback d e.base ∧
      Counted env d.head.bitwise none d.members (e.members.map (·.resolved)) ∧ e.decl = (d.members, d.head) := by
  obtain ⟨base, bounds, members, hbase, hbounds, hmembers, hunique, rfl⟩ := resolve_eq_ok.mp h
  obtain ⟨given, missing⟩ := baseType_eq_ok.mp hbase
  obtain ⟨counted, ranges, decls⟩ := (membersFrom_eq_ok hbounds small_none).mp hmembers
  refine ⟨⟨given, missing, (Primitive.bounds?_eq_some hbounds).1, ?_, ?_, ?_⟩, counted, ?_⟩
  · exact fun m hm v hv => integers_of_counted counted hm hv
  · intro values hvalues i hi
    rw [counted_unique hvalues counted] at hi
    obtain ⟨m, hm, rfl⟩ := List.mem_map.mp hi
    exact ranges m hm
  · rw [← names_of_decl decls]
    exact checkUnique_eq_ok.mp hunique
  · exact congrArg (·, d.head) decls

theorem resolve_of_countable {env : Env} {fallback base : Primitive} {d : EnumDecl}
    (h : Countable env fallback d base) (name : String) : ∃ e, resolve env fallback name d = .ok e := by
  obtain ⟨bounds, hbounds⟩ := Primitive.exists_bounds h.integer
  obtain ⟨values, counted⟩ := exists_counted d.head.bitwise none h.integers
  obtain ⟨ms, hvalues, decls⟩ := exists_members counted
  have ranges : ∀ m ∈ ms, base.InRange m.resolved := by
    intro m hm
    exact h.inRange values counted m.resolved (hvalues ▸ List.mem_map.mpr ⟨m, hm, rfl⟩)
  have hmembers : membersFrom env name base bounds d.head.bitwise none d.members = .ok ms :=
    (membersFrom_eq_ok hbounds small_none).mpr ⟨hvalues ▸ counted, ranges, decls⟩
  refine ⟨_, resolve_eq_ok.mpr ⟨base, bounds, ms, baseType_eq_ok.mpr ⟨h.given, h.missing⟩, hbounds, hmembers, ?_, rfl⟩⟩
  rw [checkUnique_eq_ok, names_of_decl decls]
  exact h.names

theorem resolve_ne_overflows (env : Env) (fallback : Primitive) (name : String) (d : EnumDecl) (member : String) :
    resolve env fallback name d ≠ .error (.invalidDefinition .enumeration name (.overflows member)) := by
  intro h
  unfold resolve at h
  obtain hbase | ⟨base, -, h⟩ := bind_eq_error.mp h
  · unfold baseType at hbase
    split at hbase
    · cases hbase
    · split at hbase <;> cases hbase
  · cases hbounds : base.bounds? with
    | none =>
      rw [hbounds] at h
      cases h
    | some bounds =>
      rw [hbounds] at h
      obtain hmembers | ⟨members, -, h⟩ := bind_eq_error.mp h
      · exact membersFrom_ne_overflows hbounds small_none d.members member hmembers
      · obtain hunique | ⟨_, -, h⟩ := bind_eq_error.mp h
        · obtain ⟨repeated, heq, -⟩ := duplicate_of_checkUnique hunique
          cases heq
        · cases h

/-- Counting is exact, up to the member at which the loop ends and whether it succeeds or not. -/
theorem counting_exact (env : Env) (fallback : Primitive) (name : String) (d : EnumDecl) :
    ((∃ e, resolve env fallback name d = .ok e) ↔ ∃ base, Countable env fallback d base) ∧
      (∀ e, resolve env fallback name d = .ok e → Countable env fallback d e.base ∧
        Counted env d.head.bitwise none d.members (e.members.map (·.resolved)) ∧ e.decl = (d.members, d.head)) ∧
      (∀ base bounds, base.bounds? = some bounds → ∀ before after ms, d.members = before ++ after →
        membersFrom env name base bounds d.head.bitwise none before = .ok ms →
          membersFrom env name base bounds d.head.bitwise none d.members =
            (membersFrom env name base bounds d.head.bitwise (ms.getLast?.map (·.resolved)) after).map (ms ++ ·) ∧
          ∃ i, implied d.head.bitwise (ms.getLast?.map (·.resolved)) = .ok i ∧
            Continues d.head.bitwise (ms.getLast?.map (·.resolved)) i) ∧
      ∀ member, resolve env fallback name d ≠ .error (.invalidDefinition .enumeration name (.overflows member)) := by
  refine ⟨⟨?_, ?_⟩, fun e he => resolve_counted he, ?_, resolve_ne_overflows env fallback name d⟩
  · rintro ⟨e, he⟩
    exact ⟨e.base, (resolve_counted he).1⟩
  · rintro ⟨base, countable⟩
    exact resolve_of_countable countable name
  · intro base bounds hbounds before after ms split hms
    refine ⟨?_, implied_of_membersFrom hbounds hms⟩
    rw [split, membersFrom_append hms after, Option.or_none]

/-- A bit after a given value that is negative: it lies above all bits of its magnitude. -/
def flags : EnumDecl where
  members := [⟨"ready", none, none, []⟩, ⟨"level", some (.string "n - 9"), none, []⟩, ⟨"fault", none, none, []⟩]
  reference := none
  head := ⟨some "int8_t", true, none, []⟩

def flagsEnv : Env := [("n", .int 4)]

theorem counted_flags : Counted flagsEnv true none flags.members [1, -5, 8] :=
  .cons rfl (.cons (by with_unfolding_all rfl) (.cons (continues_bit (-5)) .nil))

theorem countable_flags : Countable flagsEnv .u32 flags .i8 where
  given := by
    rintro type ⟨⟩
    decide
  missing := nofun
  integer := rfl
  integers _ hm _ hv := integers_of_counted counted_flags hm hv
  inRange values hvalues := by
    rw [counted_unique hvalues counted_flags]
    decide
  names := by decide

theorem counting_exact_flags :
    ∃ e, resolve flagsEnv .u32 "flags" flags = .ok e ∧ e.members.map (·.resolved) = [1, -5, 8] := by
  obtain ⟨resolves, counts, -⟩ := counting_exact flagsEnv .u32 "flags" flags
  obtain ⟨e, he⟩ := resolves.mpr ⟨_, countable_flags⟩
  exact ⟨e, he, counted_unique (counts e he).2.1 counted_flags⟩

end Enumeration

end AddressMap
