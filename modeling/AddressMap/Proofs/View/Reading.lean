import AddressMap.Proofs.View.Stages

set_option autoImplicit false

namespace AddressMap

open Resolution

theorem get?_every (es : Props) (key : String) :
    (Props.view every es).get? key = (Entries.get? es key).map Value.sortKeys :=
  Props.get?_view es rfl

theorem mapM_views {α β γ : Type} {f : α → Option β} {s : α → α} {v : β → γ}
    (h : ∀ x, (f (s x)).map v = (f x).map v) (xs : List α) :
    ((xs.map s).mapM f).map (List.map v) = (xs.mapM f).map (List.map v) := by
  induction xs with
  | nil => rfl
  | cons x xs ih =>
    simp only [List.map_cons, List.mapM_cons, Option.bind_eq_bind]
    refine bind_map_congr (h x) fun y y' hy => ?_
    refine bind_map_congr ih fun ys ys' hys => ?_
    simp only [Option.pure_def, Option.map_some, List.map_cons, hy, hys]

namespace Declaration

variable (es : Props) (key : String)

theorem text?_view : text? (Props.view every es) key = text? es key := by
  unfold text?
  rw [get?_every]
  cases Entries.get? es key with
  | none => rfl
  | some v => cases v <;> rfl

theorem optionalText?_view : optionalText? (Props.view every es) key = optionalText? es key := by
  unfold optionalText?
  rw [get?_every]
  cases Entries.get? es key with
  | none => rfl
  | some v => cases v <;> rfl

theorem optionalValue_view :
    optionalValue (Props.view every es) key = (optionalValue es key).map Value.sortKeys := by
  unfold optionalValue
  rw [get?_every]
  cases Entries.get? es key with
  | none => rfl
  | some v => cases v <;> rfl

theorem optionalSize?_view : optionalSize? (Props.view every es) key = optionalSize? es key := by
  unfold optionalSize?
  rw [get?_every]
  cases Entries.get? es key with
  | none => rfl
  | some v => cases v <;> rfl

theorem flag?_view : flag? (Props.view every es) key = flag? es key := by
  unfold flag?
  rw [get?_every]
  cases Entries.get? es key with
  | none => rfl
  | some v => cases v <;> rfl

theorem others_view (known : List String) :
    others (Props.view every es) known = Props.view every (others es known) := by
  change Entries.only (Props.view every es) (fun k => !known.contains k) =
    Props.view every (Entries.only es fun k => !known.contains k)
  unfold Props.view
  rw [Entries.only_sortByKey, Entries.only_mapValues, Entries.only_only, Entries.only_only]
  simp only [every, Bool.and_true, Bool.true_and]

theorem texts?_view : texts? (Props.view every es) key = texts? es key := by
  unfold texts?
  rw [get?_every]
  cases Entries.get? es key with
  | none => rfl
  | some v =>
    cases v with
    | array xs =>
      simp only [Option.map_some, Value.sortKeys_array, List.mapM_map]
      refine congrArg (List.mapM · xs) (funext fun x => ?_)
      cases x <;> rfl
    | _ => rfl

theorem members?_view {μ ν : Type} {ofName : String → μ} {ofEntries? : Props → Option μ} {v : μ → ν}
    (h : ∀ es, (ofEntries? (Props.view every es)).map v = (ofEntries? es).map v) (es : Props) :
    (members? ofName ofEntries? (Props.view every es)).map (List.map v) =
      (members? ofName ofEntries? es).map (List.map v) := by
  unfold members?
  rw [get?_every]
  cases Entries.get? es "elements" with
  | none => rfl
  | some w =>
    cases w with
    | array xs =>
      simp only [Option.map_some, Value.sortKeys_array]
      refine mapM_views (fun x => ?_) xs
      cases x with
      | object es =>
        rw [Props.sortKeys_object]
        exact h es
      | _ => rfl
    | _ => rfl

section Entries

variable (es : Props)

theorem element?_view : (element? (Props.view every es)).map (ElementDecl.view every) =
    (element? es).map (ElementDecl.view every) := by
  simp only [element?, text?_view, optionalText?_view, optionalValue_view, others_view]
  cases text? es "name" <;> cases optionalText? es "type" <;> cases optionalText? es "description" <;>
    simp [ElementDecl.view, Props.view_view, Function.comp_def, Value.sortKeys_sortKeys]

theorem bit?_view : (bit? (Props.view every es)).map (BitDecl.view every) =
    (bit? es).map (BitDecl.view every) := by
  simp only [bit?, text?_view, optionalText?_view, optionalValue_view, others_view]
  cases text? es "name" <;> cases optionalText? es "description" <;>
    simp [BitDecl.view, Props.view_view, Function.comp_def, Value.sortKeys_sortKeys]

theorem option?_view :
    (option? (Props.view every es)).map OptionDecl.view = (option? es).map OptionDecl.view := by
  simp only [option?, text?_view, optionalText?_view, optionalValue_view, others_view]
  cases text? es "name" <;> cases optionalText? es "description" <;>
    simp [OptionDecl.view, Function.comp_def, Value.sortKeys_sortKeys]

end Entries

theorem typedef?_sortKeys (v : Value) :
    (typedef? v.sortKeys).map (TypedefDecl.view every) = (typedef? v).map (TypedefDecl.view every) := by
  cases v with
  | object es =>
    rw [Props.sortKeys_object]
    simp only [typedef?, entries?, Option.bind_eq_bind, Option.bind_some, optionalText?_view,
      optionalValue_view, others_view]
    refine bind_map_congr (members?_view element?_view es) fun ms ms' hms => ?_
    cases optionalText? es "reference" <;> cases optionalText? es "description" <;>
      simp [TypedefDecl.view, Declared.map, TypedefHead.view, hms, Props.view_view, Function.comp_def,
        Value.sortKeys_sortKeys]
  | _ => rfl

theorem bitfield?_sortKeys (v : Value) :
    (bitfield? v.sortKeys).map (BitfieldDecl.view every) = (bitfield? v).map (BitfieldDecl.view every) := by
  cases v with
  | object es =>
    rw [Props.sortKeys_object]
    simp only [bitfield?, entries?, Option.bind_eq_bind, Option.bind_some, optionalText?_view, others_view]
    refine bind_map_congr (members?_view bit?_view es) fun ms ms' hms => ?_
    cases optionalText? es "type" <;> cases optionalText? es "reference" <;>
      cases optionalText? es "description" <;>
      simp [BitfieldDecl.view, Declared.map, BitfieldHead.view, hms, Props.view_view]
  | _ => rfl

theorem enum?_sortKeys (v : Value) :
    (enum? v.sortKeys).map (EnumDecl.view every) = (enum? v).map (EnumDecl.view every) := by
  cases v with
  | object es =>
    rw [Props.sortKeys_object]
    simp only [enum?, entries?, Option.bind_eq_bind, Option.bind_some, optionalText?_view, flag?_view,
      others_view]
    refine bind_map_congr (members?_view option?_view es) fun ms ms' hms => ?_
    cases optionalText? es "type" <;> cases flag? es "bitwise" <;> cases optionalText? es "reference" <;>
      cases optionalText? es "description" <;>
      simp [EnumDecl.view, Declared.map, EnumHead.view, hms, Props.view_view]
  | _ => rfl

theorem map?_sortKeys (v : Value) : (map? v.sortKeys).map MapDecl.type = (map? v).map MapDecl.type := by
  cases v with
  | object es =>
    rw [Props.sortKeys_object]
    simp only [map?, entries?, Option.bind_eq_bind, Option.bind_some, text?_view]
    cases text? es "type" <;> rfl
  | _ => rfl

end Declaration

def Metadata.ofDecl (d : MetadataDecl) (parts : Nat × Nat × Nat) (type : Primitive) : Metadata where
  appName := d.appName
  version := d.version.getD "0.0.0"
  major := parts.1
  minor := parts.2.1
  patch := parts.2.2
  align := d.align
  structAlign := d.structAlign
  defaultMap := d.defaultMap
  defaultType := type
  users := d.users
  fullHash := ""
  fwHash := ""
  swHash := ""
  props := d.props

/-- The checks that remain once version and type are read come in this order. -/
def MetadataDecl.checked (d : MetadataDecl) (parts : Nat × Nat × Nat) (type : Primitive) :
    Except Error Metadata := do
  if d.align = some 0 then Metadata.invalid "align" .zeroAlignment
  if d.structAlign = some 0 then Metadata.invalid "struct_align" .zeroAlignment
  if Metadata.maxUsers < d.users.length then
    Metadata.invalid "permission_users" (.tooManyUsers Metadata.maxUsers d.users.length)
  checkUnique "permission_users" d.users
  return .ofDecl d parts type

theorem MetadataDecl.checked_eq_ok {d : MetadataDecl} {parts : Nat × Nat × Nat} {type : Primitive}
    {m : Metadata} : d.checked parts type = .ok m ↔
      d.align ≠ some 0 ∧ d.structAlign ≠ some 0 ∧ d.users.length ≤ Metadata.maxUsers ∧
        checkUnique "permission_users" d.users = .ok () ∧ Metadata.ofDecl d parts type = m := by
  unfold checked
  by_cases ha : d.align = some 0
  · simp [ha, Metadata.invalid, bind, Except.bind]
  by_cases hs : d.structAlign = some 0
  · simp [ha, hs, Metadata.invalid, bind, Except.bind]
  by_cases hu : Metadata.maxUsers < d.users.length
  · simp [ha, hs, hu, Metadata.invalid, bind, Except.bind, Nat.not_le.mpr hu]
  cases checkUnique "permission_users" d.users <;>
    simp [ha, hs, hu, bind, Except.bind, pure, Except.pure, Nat.not_lt.mp hu]

theorem Metadata.resolve_eq_ok {es : Props} {m : Metadata} : resolve es = .ok m ↔
    ∃ d, Declaration.metadata? es = some d ∧ ∃ parts, version? (d.version.getD "0.0.0") = some parts ∧
      ∃ type, d.defaultType.elim (some .fallback) Primitive.ofName? = some type ∧
        d.checked parts type = .ok m := by
  unfold resolve
  cases Declaration.metadata? es with
  | none => simp
  | some d =>
    obtain ⟨app, version, align, structAlign, defaultMap, defaultType, users, props⟩ := d
    simp only [Option.some.injEq, exists_eq_left']
    cases version? (version.getD "0.0.0") with
    | none => simp [invalid]
    | some parts =>
      simp only [Option.some.injEq, exists_eq_left']
      cases defaultType with
      | none =>
        simp only [Option.elim, Option.some.injEq, exists_eq_left']
        rfl
      | some name =>
        cases hp : Primitive.ofName? name with
        | none => simp [hp, invalid, bind, Except.bind]
        | some type =>
          simp only [Option.elim, hp, Option.some.injEq, exists_eq_left']
          rfl

/-- Free keys of the metadata shape no record. -/
def MetadataDecl.view (d : MetadataDecl) : MetadataDecl := { d with props := [] }

def Metadata.view (m : Metadata) : Metadata := { m with props := [] }

theorem Declaration.metadata?_view (es : Props) : (metadata? (Props.view every es)).map MetadataDecl.view =
    (metadata? es).map MetadataDecl.view := by
  simp only [metadata?, text?_view, optionalText?_view, optionalSize?_view, texts?_view]
  cases text? es "app_name" <;> cases optionalText? es "version" <;> cases optionalSize? es "align" <;>
    cases optionalSize? es "struct_align" <;> cases optionalText? es "default_map" <;>
    cases optionalText? es "default_type" <;> cases texts? es "permission_users" <;> rfl

theorem Metadata.resolve_congr {es fs : Props} (h : Props.view every es = Props.view every fs) :
    (Metadata.resolve es).toOption.map Metadata.view = (Metadata.resolve fs).toOption.map Metadata.view := by
  have onto : ∀ {es fs : Props}, Props.view every es = Props.view every fs → ∀ m, Metadata.resolve es = .ok m →
      ∃ m', Metadata.resolve fs = .ok m' ∧ m'.view = m.view := by
    intro es fs h m hm
    obtain ⟨d, hd, parts, hparts, type, htype, checked⟩ := Metadata.resolve_eq_ok.mp hm
    obtain ⟨ha, hs, hu, hq, rfl⟩ := MetadataDecl.checked_eq_ok.mp checked
    have read : (Declaration.metadata? fs).map MetadataDecl.view = some d.view := by
      rw [← Declaration.metadata?_view, ← h, Declaration.metadata?_view, hd, Option.map_some]
    obtain ⟨d', hd', hview⟩ := Option.map_eq_some_iff.mp read
    obtain ⟨app, version, align, structAlign, defaultMap, defaultType, users, props⟩ := d
    obtain ⟨app', version', align', structAlign', defaultMap', defaultType', users', props'⟩ := d'
    obtain ⟨rfl, rfl, rfl, rfl, rfl, rfl, rfl, -⟩ := MetadataDecl.mk.inj hview
    exact ⟨_, Metadata.resolve_eq_ok.mpr ⟨_, hd', parts, hparts, type, htype,
      MetadataDecl.checked_eq_ok.mpr ⟨ha, hs, hu, hq, rfl⟩⟩, rfl⟩
  exact views_eq_of_partners (onto h) (onto h.symm)

section Sections

variable {es fs : Props} (h : Props.view every es = Props.view every fs)

theorem Resolution.readEntries_toOption {α : Type} (kind : Section) (read : Value → Option α) (es : Props) :
    (readEntries kind read es).toOption = (Entries.mapValues es read).whole := by
  induction es with
  | nil => rfl
  | cons e rest ih =>
    obtain ⟨name, v⟩ := e
    rw [Entries.mapValues_cons, Entries.whole, ← ih, readEntries]
    cases read v with
    | none => rfl
    | some x => exact toOption_map _ _

include h

/-- Values that are read up to the order of keys, by name. -/
theorem whole_views {α β : Type} {read : Value → Option α} {w : α → β}
    (hread : ∀ v, (read v.sortKeys).map w = (read v).map w) :
    (Entries.mapValues es read).whole.map (byName w) = (Entries.mapValues fs read).whole.map (byName w) := by
  have sorted : ∀ gs : Props, (Entries.mapValues gs read).whole.map (byName w) =
      (Entries.mapValues gs fun v => (read v).map w).sortByKey.whole := by
    intro gs
    have split := Entries.whole_mapValues (Entries.mapValues gs read) w
    rw [← Entries.whole_sortByKey]
    simp only [Entries.mapValues, List.map_map, Function.comp_def] at split ⊢
    rw [← split, Option.map_map]
    rfl
  rw [sorted, sorted]
  refine congrArg Entries.whole (Entries.sortByKey_of_views (v := Value.sortKeys) (fun v v' hv => ?_) ?_)
  · rw [← hread, hv, hread]
  · rwa [Props.view_every, Props.view_every] at h

theorem Resolution.readAlike_of_view {α β : Type} (kind : Section) {read : Value → Option α} {w : α → β}
    (hread : ∀ v, (read v.sortKeys).map w = (read v).map w) : ReadAlike kind read w es fs := by
  unfold ReadAlike
  rw [readEntries_toOption, readEntries_toOption]
  exact whole_views h hread

end Sections

theorem Define.pending_toOption (name : String) (v : Value) :
    (pending name v).toOption = (pending "" v).toOption := by
  cases v with
  | object es =>
    unfold pending
    dsimp only
    cases Entries.get? es "value" <;> rfl
  | _ => rfl

theorem Define.pendingAll_toOption (es : Props) : (pendingAll es).toOption =
    (Entries.mapValues es fun v => (pending "" v).toOption).whole := by
  induction es with
  | nil => rfl
  | cons e rest ih =>
    obtain ⟨name, v⟩ := e
    rw [Entries.mapValues_cons, Entries.whole, ← ih, ← pending_toOption name, pendingAll]
    cases pending name v with
    | error e => rfl
    | ok d => exact toOption_map _ _

theorem Define.pending_sortKeys (v : Value) : (pending "" v.sortKeys).toOption.map PendingDefine.view =
    (pending "" v).toOption.map PendingDefine.view := by
  cases v with
  | object es =>
    rw [Props.sortKeys_object]
    unfold pending
    dsimp only
    rw [get?_every]
    cases Entries.get? es "value" with
    | none => rfl
    | some value => simp [Except.toOption, PendingDefine.view, Value.sortKeys_sortKeys]
  | array xs =>
    simp [pending, Except.toOption, PendingDefine.view, Value.sortKeys_array, Value.sortKeys_sortKeys,
      Function.comp_def]
  | _ => rfl

theorem Define.pendingAll_congr {es fs : Props} (h : Props.view every es = Props.view every fs) :
    (pendingAll es).toOption.map pendingView = (pendingAll fs).toOption.map pendingView := by
  rw [pendingAll_toOption, pendingAll_toOption]
  exact whole_views h pending_sortKeys

end AddressMap
