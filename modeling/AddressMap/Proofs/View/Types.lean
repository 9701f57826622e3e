import AddressMap.Proofs.Bitfield.Packing
import AddressMap.Proofs.View.Declaration
import AddressMap.Resolution

set_option autoImplicit false

namespace AddressMap

variable {keep : String → Bool}

def Enumeration.view (keep : String → Bool) (e : Enumeration) : Enumeration where
  members := []
  type := none
  base := e.base
  bitwise := false
  description := seen keep e.description
  props := e.props.view keep

def BitfieldMember.view (keep : String → Bool) (m : BitfieldMember) : BitfieldMember where
  name := m.name
  bits := m.bits.map Value.sortKeys
  width := m.width
  offset := m.offset
  reserved := m.reserved
  description := seen keep m.description
  props := m.props.view keep

def Bitfield.view (keep : String → Bool) (b : Bitfield) : Bitfield where
  members := b.members.map (BitfieldMember.view keep)
  type := none
  base := b.base
  description := none
  props := b.props.view keep

theorem evaluateValue_congr {v w : Value} (h : v.sortKeys = w.sortKeys) (env : Env) :
    (evaluateValue v env).toOption = (evaluateValue w env).toOption := by
  rw [← Value.evaluateValue_sortKeys, h, Value.evaluateValue_sortKeys]

theorem evaluated_congr {γ : Type} {x y : Option Value} (h : x.map Value.sortKeys = y.map Value.sortKeys)
    (env : Env) (absent : Option γ) (f : Scalar → Option γ) :
    x.elim absent (fun v => (evaluateValue v env).toOption.bind f) =
      y.elim absent (fun v => (evaluateValue v env).toOption.bind f) := by
  rcases both_of_views h with ⟨rfl, rfl⟩ | ⟨v, w, rfl, rfl, hview⟩
  · rfl
  · exact congrArg (Option.bind · f) (evaluateValue_congr hview env)

namespace Enumeration

section Members

variable (env : Env) (name : String)

theorem memberValue_toOption (bitwise : Bool) (previous : Option Int) (d : OptionDecl) :
    (memberValue env name bitwise previous d).toOption =
      d.value.elim (implied bitwise previous).toOption fun v =>
        (evaluateValue v env).toOption.bind Scalar.toInt? := by
  unfold memberValue
  cases d.value with
  | none => cases implied bitwise previous <;> rfl
  | some v =>
    cases h : evaluateValue v env with
    | error e => simp [h, Except.toOption]
    | ok x => cases x <;> simp [h, Except.toOption, Scalar.toInt?, invalid]

variable (base : Primitive) (bounds : Int × Int) (bitwise : Bool)

theorem membersFrom_toOption (previous : Option Int) (d : OptionDecl) (rest : List OptionDecl) :
    (membersFrom env name base bounds bitwise previous (d :: rest)).toOption =
      (memberValue env name bitwise previous d).toOption.bind fun value =>
        if value < bounds.1 || bounds.2 < value then none
        else (membersFrom env name base bounds bitwise (some value) rest).toOption.map
          (⟨d.name, d.value, value, d.description, d.props⟩ :: ·) := by
  rw [membersFrom]
  cases memberValue env name bitwise previous d with
  | error e => rfl
  | ok value =>
    dsimp only
    rw [toOption_ite, toOption_map]
    rfl

theorem membersFrom_congr (previous : Option Int) {ds ds' : List OptionDecl}
    (h : ds.map OptionDecl.view = ds'.map OptionDecl.view) :
    (membersFrom env name base bounds bitwise previous ds).toOption.map (List.map EnumMember.name) =
      (membersFrom env name base bounds bitwise previous ds').toOption.map (List.map EnumMember.name) := by
  induction ds generalizing previous ds' with
  | nil =>
    rw [List.map_nil, eq_comm, List.map_eq_nil_iff] at h
    rw [h]
  | cons d rest ih =>
    obtain ⟨d', rest', rfl, hd, hrest⟩ := List.map_eq_cons_iff.mp h.symm
    have values : (memberValue env name bitwise previous d).toOption =
        (memberValue env name bitwise previous d').toOption := by
      rw [memberValue_toOption, memberValue_toOption]
      exact evaluated_congr (congrArg OptionDecl.value hd).symm env _ _
    have hname : d.name = d'.name := (congrArg OptionDecl.name hd).symm
    rw [membersFrom_toOption, membersFrom_toOption, values]
    refine bind_map_same _ fun value => ?_
    split
    · rfl
    · have tail := congrArg (Option.map (d.name :: ·)) (ih (some value) hrest.symm)
      simpa only [Option.map_map, Function.comp_def, List.map_cons, ← hname] using tail

end Members

theorem resolve_toOption (env : Env) (fallback : Primitive) (name : String) (d : EnumDecl) :
    (resolve env fallback name d).toOption =
      (baseType fallback name d.head.type).toOption.bind fun base => base.bounds?.bind fun bounds =>
        (membersFrom env name base bounds d.head.bitwise none d.members).toOption.bind fun members =>
          (checkUnique name (members.map (·.name))).toOption.map fun _ =>
            ⟨members, d.head.type, base, d.head.bitwise, d.head.description, d.head.props⟩ := by
  unfold resolve
  rw [toOption_bind]
  refine congrArg _ (funext fun base => ?_)
  cases base.bounds? with
  | none => rfl
  | some bounds =>
    dsimp only
    rw [toOption_bind]
    refine congrArg _ (funext fun members => ?_)
    cases checkUnique name (members.map (·.name)) <;> rfl

theorem resolve_congr (env : Env) (fallback : Primitive) (name : String) {d d' : EnumDecl}
    (h : d.view keep = d'.view keep) : (resolve env fallback name d).toOption.map (view keep) =
      (resolve env fallback name d').toOption.map (view keep) := by
  have head : d.head.view keep = d'.head.view keep := congrArg Declared.head h
  simp only [EnumHead.view, EnumHead.mk.injEq] at head
  obtain ⟨htype, hbitwise, hdescription, hprops⟩ := head
  rw [resolve_toOption, resolve_toOption, htype, hbitwise]
  refine bind_map_same _ fun base => ?_
  refine bind_map_same _ fun bounds => ?_
  refine bind_map_congr (membersFrom_congr env name base bounds _ none (congrArg Declared.members h))
    fun members members' hnames => ?_
  rw [show members.map (·.name) = members'.map (·.name) from hnames, Option.map_map, Option.map_map]
  refine congrArg (Option.map · _) (funext fun _ => ?_)
  simp only [Function.comp_apply, view, Enumeration.mk.injEq, true_and]
  exact ⟨hdescription, hprops⟩

end Enumeration

namespace Bitfield

section Members

variable (env : Env) (name : String)

theorem memberWidth_toOption (d : BitDecl) : (memberWidth env name d).toOption =
    d.bits.elim (some 1) fun v => (evaluateValue v env).toOption.bind fun x => x.toInt?.bind fun i =>
      if i < 0 || widthLimit ≤ i then none else if i = 0 then none else some i.toNat := by
  unfold memberWidth
  cases d.bits with
  | none => rfl
  | some v =>
    cases h : evaluateValue v env with
    | error e => simp [h, Except.toOption]
    | ok x =>
      cases x with
      | int i =>
        simp only [toOption_ite, h, Option.elim_some]
        rfl
      | float f => simp [h, Except.toOption, Scalar.toInt?, invalid]
      | text s => simp [h, Except.toOption, Scalar.toInt?, invalid]

theorem membersFrom_toOption (offset : Nat) (d : BitDecl) (rest : List BitDecl) :
    (membersFrom env name offset (d :: rest)).toOption =
      (memberWidth env name d).toOption.bind fun width =>
        (membersFrom env name (offset + width) rest).toOption.map
          (⟨d.name, d.bits, width, offset, false, d.description, d.props⟩ :: ·) := by
  rw [membersFrom]
  cases memberWidth env name d with
  | error e => rfl
  | ok width => exact toOption_map _ _

theorem membersFrom_congr (offset : Nat) {ds ds' : List BitDecl}
    (h : ds.map (BitDecl.view keep) = ds'.map (BitDecl.view keep)) :
    (membersFrom env name offset ds).toOption.map (List.map (BitfieldMember.view keep)) =
      (membersFrom env name offset ds').toOption.map (List.map (BitfieldMember.view keep)) := by
  induction ds generalizing offset ds' with
  | nil =>
    rw [List.map_nil, eq_comm, List.map_eq_nil_iff] at h
    rw [h]
  | cons d rest ih =>
    obtain ⟨d', rest', rfl, hd, hrest⟩ := List.map_eq_cons_iff.mp h.symm
    have widths : (memberWidth env name d).toOption = (memberWidth env name d').toOption := by
      rw [memberWidth_toOption, memberWidth_toOption]
      exact evaluated_congr (congrArg BitDecl.bits hd).symm env _ _
    rw [membersFrom_toOption, membersFrom_toOption, widths]
    refine bind_map_same _ fun width => ?_
    have first : BitfieldMember.view keep ⟨d.name, d.bits, width, offset, false, d.description, d.props⟩ =
        BitfieldMember.view keep ⟨d'.name, d'.bits, width, offset, false, d'.description, d'.props⟩ := by
      simp only [BitDecl.view, BitDecl.mk.injEq] at hd
      simp only [BitfieldMember.view, hd]
    have tail := congrArg (Option.map (BitfieldMember.view keep
      ⟨d.name, d.bits, width, offset, false, d.description, d.props⟩ :: ·)) (ih (offset + width) hrest.symm)
    simpa only [Option.map_map, Function.comp_def, List.map_cons, ← first] using tail

end Members

theorem totalWidth_view (keep : String → Bool) (ms : List BitfieldMember) :
    totalWidth (ms.map (BitfieldMember.view keep)) = totalWidth ms := by
  induction ms with
  | nil => rfl
  | cons m rest ih => rw [List.map_cons, totalWidth, totalWidth, ih, BitfieldMember.view]

theorem filled_congr {ms ms' : List BitfieldMember} (base : Primitive)
    (h : ms.map (BitfieldMember.view keep) = ms'.map (BitfieldMember.view keep)) :
    (filled base ms).map (BitfieldMember.view keep) = (filled base ms').map (BitfieldMember.view keep) := by
  unfold filled
  rw [← totalWidth_view keep ms, h, totalWidth_view]
  dsimp only
  split
  · rw [List.map_append, List.map_append, h]
  · exact h

theorem resolve_toOption (env : Env) (name : String) (d : BitfieldDecl) :
    (resolve env name d).toOption =
      (membersFrom env name 0 d.members).toOption.bind fun declared =>
        if maxBits < totalWidth declared then none
        else (baseType name (totalWidth declared) d.head.type).toOption.bind fun base =>
          if 8 * base.size < totalWidth declared then none
          else (checkUnique name ((filled base declared).map (·.name))).toOption.map fun _ =>
            ⟨filled base declared, d.head.type, base, d.head.description, d.head.props⟩ := by
  unfold resolve
  rw [toOption_bind]
  refine congrArg _ (funext fun declared => ?_)
  dsimp only
  split
  · rfl
  · rw [toOption_bind]
    refine congrArg _ (funext fun base => ?_)
    split
    · rfl
    · change (checkUnique name ((filled base declared).map (·.name)) >>= _).toOption = _
      cases checkUnique name ((filled base declared).map (·.name)) <;> rfl

theorem resolve_congr (env : Env) (name : String) {d d' : BitfieldDecl}
    (h : d.view keep = d'.view keep) : (resolve env name d).toOption.map (view keep) =
      (resolve env name d').toOption.map (view keep) := by
  have head : d.head.view keep = d'.head.view keep := congrArg Declared.head h
  simp only [BitfieldHead.view, BitfieldHead.mk.injEq, true_and] at head
  obtain ⟨htype, hprops⟩ := head
  rw [resolve_toOption, resolve_toOption, htype]
  refine bind_map_congr (membersFrom_congr env name 0 (congrArg Declared.members h))
    fun declared declared' hdeclared => ?_
  have hwidth : totalWidth declared = totalWidth declared' := by
    rw [← totalWidth_view keep declared, hdeclared, totalWidth_view]
  rw [hwidth]
  split
  · rfl
  · refine bind_map_same _ fun base => ?_
    split
    · rfl
    · have members := filled_congr base hdeclared
      have names := congrArg (List.map BitfieldMember.name) members
      rw [List.map_map, List.map_map] at names
      rw [show (filled base declared).map (·.name) = (filled base declared').map (·.name)
        from names, Option.map_map, Option.map_map]
      refine congrArg (Option.map · _) (funext fun _ => ?_)
      simp only [Function.comp_apply, view, members, Bitfield.mk.injEq, true_and]
      exact hprops

end Bitfield

theorem Resolution.resolveInto_congr {α β γ δ : Type} {resolve resolve' : String → α → Except Error β}
    {v : α → γ} {w : β → δ} (hr : ∀ name x x', v x = v x' →
      (resolve name x).toOption.map w = (resolve' name x').toOption.map w)
    {table table' : Entries β} (ht : table.mapValues w = table'.mapValues w) {es es' : Entries α}
    (he : es.mapValues v = es'.mapValues v) :
    (resolveInto resolve table es).reached.map (Entries.mapValues · w) =
      (resolveInto resolve' table' es').reached.map (Entries.mapValues · w) := by
  induction es generalizing table table' es' with
  | nil =>
    cases es' with
    | nil => exact congrArg some ht
    | cons e' rest' => cases he
  | cons e rest ih =>
    obtain ⟨name, x⟩ := e
    obtain ⟨x', rest', rfl, hx, hrest⟩ := Entries.mapValues_eq_cons he.symm
    unfold resolveInto
    rcases both_of_results (hr name x x' hx.symm) with ⟨_, _, hy, hy'⟩ | ⟨y, y', hy, hy', hview⟩
    · rw [hy, hy']
      rfl
    · rw [hy, hy']
      refine ih ?_ hrest.symm
      rw [Entries.insert_mapValues, Entries.insert_mapValues, ht, hview]

end AddressMap
