import AddressMap.Proofs.Bitfield.Packing
import AddressMap.Proofs.Names
import Mathlib.Algebra.Order.BigOperators.Group.List
import Mathlib.Algebra.Order.Ring.Nat

set_option autoImplicit false

namespace AddressMap

namespace Primitive

/-- An unsigned integer that holds the bits, and no smaller one does. -/
structure Least (p : Primitive) (bits : Nat) : Prop where
  integer : p.isInteger
  unsigned : p.isSigned = false
  holds : bits ≤ 8 * p.size
  least : ∀ q : Primitive, q.isInteger → q.isSigned = false → bits ≤ 8 * q.size → p.size ≤ q.size

theorem size_cases (p : Primitive) : p.size = 1 ∨ p.size = 2 ∨ p.size = 4 ∨ p.size = 8 := by
  cases p <;> decide

theorem size_smallestUnsigned (bits : Nat) : (smallestUnsigned bits).size =
    if 32 < bits then 8 else if 16 < bits then 4 else if 8 < bits then 2 else 1 := by
  unfold smallestUnsigned
  split_ifs <;> rfl

theorem smallestUnsigned_least {bits : Nat} (h : bits ≤ 64) : (smallestUnsigned bits).Least bits := by
  refine ⟨?_, ?_, smallestUnsigned_holds h, fun q _ _ holds => ?_⟩
  · unfold smallestUnsigned
    split_ifs <;> rfl
  · unfold smallestUnsigned
    split_ifs <;> rfl
  · have sizes := size_cases q
    rw [size_smallestUnsigned]
    split_ifs <;> omega

theorem eq_of_size {p q : Primitive} (hp : p.isInteger) (hp' : p.isSigned = false) (hq : q.isInteger)
    (hq' : q.isSigned = false) (h : p.size = q.size) : p = q := by
  cases p <;> cases q <;> simp_all [isInteger, isSigned, size]

theorem least_iff {p : Primitive} {bits : Nat} (h : bits ≤ 64) : p.Least bits ↔ smallestUnsigned bits = p := by
  have small := smallestUnsigned_least h
  constructor
  · intro hp
    have size := Nat.le_antisymm (small.least p hp.integer hp.unsigned hp.holds)
      (hp.least _ small.integer small.unsigned small.holds)
    exact eq_of_size small.integer small.unsigned hp.integer hp.unsigned size
  · rintro rfl
    exact small

end Primitive

namespace Bitfield

/-- What the width of a member evaluates to; a member that gives none is one bit wide. -/
def declaredWidth? (env : Env) (d : BitDecl) : Option Int :=
  match d.bits with
  | none => some 1
  | some v =>
    match evaluateValue v env with
    | .ok (.int i) => some i
    | _ => none

def Widths (env : Env) (ds : List BitDecl) (widths : List Nat) : Prop :=
  List.Forall₂ (fun (d : BitDecl) (width : Nat) => 0 < width ∧ declaredWidth? env d = some ↑width) ds widths

/-- All names in the bitfield: those of the members, and that of the padding if bits remain. -/
def namesWithin (base : Primitive) (ds : List BitDecl) (bits : Nat) : List String :=
  ds.map (·.name) ++ if bits < 8 * base.size then ["padding"] else []

/-- The widths fit into the type: the given one, which has to be an integer, else the least that holds them. -/
structure Packable (env : Env) (d : BitfieldDecl) (widths : List Nat) (base : Primitive) : Prop where
  integers : Widths env d.members widths
  total : widths.sum ≤ 64
  given : ∀ type, d.head.type = some type → Primitive.ofName? type = some base ∧ base.isInteger
  chosen : d.head.type = none → base.Least widths.sum
  capacity : widths.sum ≤ 8 * base.size
  names : (namesWithin base d.members widths.sum).Nodup

/-- The declared members have their names and widths, and padding of the rest stands behind them. -/
structure Holds (ds : List BitDecl) (widths : List Nat) (b : Bitfield) : Prop where
  packed : b.Packed
  sum : (b.members.map (·.width)).sum = 8 * b.base.size
  members : ∃ ms pads, b.members = ms ++ pads ∧ ms.map (·.name) = ds.map (·.name) ∧
    ms.map (·.width) = widths ∧ (∀ m ∈ ms, m.reserved = false) ∧
    pads = if widths.sum < 8 * b.base.size then [padding widths.sum (8 * b.base.size - widths.sum)] else []

theorem totalWidth_eq (ms : List BitfieldMember) : totalWidth ms = (ms.map (·.width)).sum := by
  induction ms with
  | nil => rfl
  | cons m rest ih => rw [totalWidth, ih, List.map_cons, List.sum_cons]

theorem packs_sum {start stop : Nat} {ms : List BitfieldMember} (h : Packs start stop ms) :
    start + (ms.map (·.width)).sum = stop := by
  induction ms generalizing start with
  | nil => exact h
  | cons m rest ih =>
    rw [List.map_cons, List.sum_cons, ← Nat.add_assoc]
    exact ih h.2.2

theorem memberWidth_eq_ok {env : Env} {name : String} {d : BitDecl} {width : Nat} :
    memberWidth env name d = .ok width ↔
      0 < width ∧ width < widthLimit ∧ declaredWidth? env d = some (width : Int) := by
  unfold memberWidth declaredWidth?
  cases d.bits with
  | none =>
    simp only [Except.ok.injEq, Option.some.injEq, widthLimit]
    omega
  | some v =>
    dsimp only
    cases evaluateValue v env with
    | error e => simp
    | ok x =>
      cases x with
      | int i =>
        simp only [guard_eq_ok (e := invalid name _) (by simp [invalid]), Except.ok.injEq, Option.some.injEq,
          Bool.or_eq_true, decide_eq_true_eq, not_or]
        simp only [widthLimit]
        omega
      | _ => simp [invalid]

theorem widths_unique {env : Env} {ds : List BitDecl} {widths widths' : List Nat} (h : Widths env ds widths)
    (h' : Widths env ds widths') : widths = widths' := by
  refine List.right_unique_forall₂' (fun d w w' hw hw' => ?_) h h'
  exact Int.ofNat_inj.mp (Option.some.inj (hw.2.symm.trans hw'.2))

theorem membersFrom_declared {env : Env} {name : String} {offset : Nat} {ds : List BitDecl}
    {ms : List BitfieldMember} (h : membersFrom env name offset ds = .ok ms) :
    Widths env ds (ms.map (·.width)) ∧ ms.map (·.name) = ds.map (·.name) ∧ ∀ m ∈ ms, m.reserved = false := by
  induction ds generalizing offset ms with
  | nil =>
    cases h
    exact ⟨.nil, rfl, by simp⟩
  | cons d rest ih =>
    simp only [membersFrom] at h
    split at h
    · cases h
    · rename_i width hw
      obtain ⟨tail, htail, rfl⟩ := map_eq_ok.mp h
      obtain ⟨widths, names, declared⟩ := ih htail
      obtain ⟨pos, _, value⟩ := memberWidth_eq_ok.mp hw
      refine ⟨.cons ⟨pos, value⟩ widths, ?_, List.forall_mem_cons.mpr ⟨rfl, declared⟩⟩
      rw [List.map_cons, List.map_cons, names]

theorem membersFrom_of_widths {env : Env} (name : String) {ds : List BitDecl} {widths : List Nat}
    (h : Widths env ds widths) (hlimit : ∀ w ∈ widths, w < widthLimit) (offset : Nat) :
    ∃ ms, membersFrom env name offset ds = .ok ms ∧ ms.map (·.width) = widths := by
  induction h generalizing offset with
  | nil => exact ⟨[], rfl, rfl⟩
  | @cons d width rest widths hd _ ih =>
    obtain ⟨hwidth, hrest⟩ := List.forall_mem_cons.mp hlimit
    obtain ⟨ms, hms, same⟩ := ih hrest (offset + width)
    have read : memberWidth env name d = .ok width := memberWidth_eq_ok.mpr ⟨hd.1, hwidth, hd.2⟩
    refine ⟨⟨d.name, d.bits, width, offset, false, d.description, d.props⟩ :: ms, ?_, ?_⟩
    · rw [membersFrom, read]
      exact map_eq_ok.mpr ⟨ms, hms, rfl⟩
    · rw [List.map_cons, same]

/-- Where no type is given, the smallest unsigned one holds all widths. -/
theorem baseType_eq_ok {name : String} {bits : Nat} {type : Option String} {base : Primitive} (h : bits ≤ 64) :
    baseType name bits type = .ok base ↔
      (∀ given, type = some given → Primitive.ofName? given = some base ∧ base.isInteger) ∧
        (type = none → base.Least bits) := by
  unfold baseType
  cases type with
  | none => simp [Primitive.least_iff h]
  | some given =>
    dsimp only
    cases hp : Primitive.ofName? given with
    | none => simp [hp]
    | some p =>
      simp only [Option.some.injEq, forall_eq', hp, reduceCtorEq, false_implies, and_true]
      by_cases integer : p.isInteger
      · rw [if_pos integer, Except.ok.injEq]
        exact ⟨fun heq => ⟨heq, heq ▸ integer⟩, fun hbase => hbase.1⟩
      · rw [if_neg integer]
        simp only [invalid, reduceCtorEq, false_iff, not_and]
        rintro rfl
        exact integer

theorem filled_names {base : Primitive} {ds : List BitDecl} {declared : List BitfieldMember}
    (h : declared.map (·.name) = ds.map (·.name)) :
    (filled base declared).map (·.name) = namesWithin base ds (totalWidth declared) := by
  unfold filled namesWithin
  dsimp only
  split
  · rw [List.map_append, h]
    rfl
  · rw [h, List.append_nil]

theorem resolve_holds {env : Env} {name : String} {d : BitfieldDecl} {b : Bitfield}
    (h : resolve env name d = .ok b) :
    ∃ widths, Packable env d widths b.base ∧ Holds d.members widths b := by
  obtain ⟨declared, base, hd, hbits, hbase, hfits, hunique, rfl⟩ := resolve_eq_ok.mp h
  obtain ⟨widths, names, unreserved⟩ := membersFrom_declared hd
  obtain ⟨given, chosen⟩ := (baseType_eq_ok hbits).mp hbase
  have packed := resolve_packed h
  have total := totalWidth_eq declared
  rw [checkUnique_eq_ok, filled_names names] at hunique
  refine ⟨declared.map (·.width), ⟨widths, ?_, given, ?_, ?_, ?_⟩, packed, ?_, declared, _, ?_, names, rfl,
    unreserved, rfl⟩
  · exact total ▸ hbits
  · exact total ▸ chosen
  · exact total ▸ hfits
  · exact total ▸ hunique
  · exact (Nat.zero_add _).symm.trans (packs_sum packed)
  · rw [← total]
    unfold filled
    dsimp only
    split <;> simp

theorem resolve_of_packable {env : Env} {d : BitfieldDecl} {widths : List Nat} {base : Primitive}
    (h : Packable env d widths base) (name : String) : ∃ b, resolve env name d = .ok b := by
  have small : ∀ w ∈ widths, w < widthLimit := by
    intro w hw
    have le := List.le_sum_of_mem hw
    have total := h.total
    unfold widthLimit
    omega
  obtain ⟨declared, hd, rfl⟩ := membersFrom_of_widths name h.integers small 0
  have total := totalWidth_eq declared
  have names := (membersFrom_declared hd).2.1
  refine ⟨_, resolve_eq_ok.mpr ⟨declared, base, hd, ?_, ?_, ?_, ?_, rfl⟩⟩
  · exact total ▸ h.total
  · exact (baseType_eq_ok (total ▸ h.total)).mpr ⟨h.given, total ▸ h.chosen⟩
  · exact total ▸ h.capacity
  · rw [checkUnique_eq_ok, filled_names names, total]
    exact h.names

/-- Too many bits are refused with their number, as far as 32 bits can tell it. -/
theorem resolve_tooManyBits {env : Env} {d : BitfieldDecl} {widths : List Nat} (h : Widths env d.members widths)
    (hlimit : ∀ w ∈ widths, w < widthLimit) (hsum : 64 < widths.sum) (name : String) :
    resolve env name d =
      .error (.invalidDefinition .bitfield name (.tooManyBits (min widths.sum (widthLimit - 1)))) := by
  obtain ⟨declared, hd, rfl⟩ := membersFrom_of_widths name h hlimit 0
  rw [← totalWidth_eq] at hsum ⊢
  have tooMany : maxBits < totalWidth declared := hsum
  unfold resolve
  rw [hd]
  exact if_pos tooMany

/-- A bitfield resolves exactly if its widths fit and its names differ, and then it holds its members. -/
theorem resolve_exact (env : Env) (name : String) (d : BitfieldDecl) :
    ((∃ b, resolve env name d = .ok b) ↔ ∃ widths base, Packable env d widths base) ∧
      (∀ b, resolve env name d = .ok b → ∃ widths, Packable env d widths b.base ∧ Holds d.members widths b) ∧
      ∀ widths, Widths env d.members widths → (∀ w ∈ widths, w < widthLimit) → 64 < widths.sum →
        resolve env name d =
          .error (.invalidDefinition .bitfield name (.tooManyBits (min widths.sum (widthLimit - 1)))) := by
  refine ⟨⟨?_, ?_⟩, fun b hb => resolve_holds hb, fun widths h hlimit hsum => resolve_tooManyBits h hlimit hsum name⟩
  · rintro ⟨b, hb⟩
    obtain ⟨widths, packable, _⟩ := resolve_holds hb
    exact ⟨widths, b.base, packable⟩
  · rintro ⟨widths, base, packable⟩
    exact resolve_of_packable packable name

def gauge : BitfieldDecl where
  members := [⟨"level", some (.string "n * 4 + 1"), none, []⟩, ⟨"alarm", none, none, []⟩]
  reference := none
  head := ⟨none, none, []⟩

def gaugeEnv : Env := [("n", .int 2)]

theorem packable_gauge : Packable gaugeEnv gauge [9, 1] .u16 where
  integers := .cons ⟨by decide, by decide +kernel⟩ (.cons ⟨by decide, rfl⟩ .nil)
  total := by decide
  given := nofun
  chosen _ := (Primitive.least_iff (by decide)).mpr rfl
  capacity := by decide
  names := by decide

/-- Two widths whose sum would wrap to a single bit in 32 bits. -/
def oversized : BitfieldDecl where
  members := [⟨"low", some (.ofNat 4294967295), none, []⟩, ⟨"high", some (.ofNat 2), none, []⟩]
  reference := none
  head := ⟨some "uint8_t", none, []⟩

theorem widths_oversized : Widths [] oversized.members [4294967295, 2] :=
  .cons ⟨by decide, rfl⟩ (.cons ⟨by decide, rfl⟩ .nil)

/-- Ten bits take two bytes, and six of them are left. -/
theorem resolve_exact_gauge :
    (∃ b, resolve gaugeEnv "gauge" gauge = .ok b ∧ b.Packed ∧ b.base.size = 2 ∧ b.members.length = 3) ∧
      resolve [] "oversized" oversized =
        .error (.invalidDefinition .bitfield "oversized" (.tooManyBits 4294967295)) := by
  obtain ⟨resolves, holds, _⟩ := resolve_exact gaugeEnv "gauge" gauge
  obtain ⟨b, hb⟩ := resolves.mpr ⟨_, _, packable_gauge⟩
  obtain ⟨widths, packable, packed, _, ms, pads, members, _, rfl, _, hpads⟩ := holds b hb
  have same := widths_unique packable.integers packable_gauge.integers
  have base : b.base = .u16 := by
    have least := packable.chosen rfl
    rw [same] at least
    exact ((Primitive.least_iff (by decide)).mp least).symm
  refine ⟨⟨b, hb, packed, by rw [base]; rfl, ?_⟩, ?_⟩
  · rw [members, hpads, same, base]
    have length := congrArg List.length same
    rw [List.length_map] at length
    simp [length, Primitive.size]
  · exact (resolve_exact [] "oversized" oversized).2.2 _ widths_oversized (by decide) (by decide)

end Bitfield

end AddressMap
