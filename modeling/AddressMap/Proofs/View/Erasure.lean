import AddressMap.Proofs.View.Reading

set_option autoImplicit false

namespace AddressMap

open Resolution

/-- The keys that an entry knows, and its free keys under the names of layout keys. -/
def Props.shaping (known : List String) (es : Props) : Props :=
  Entries.only es fun key => known.contains key || isLayoutKey key

namespace Value

def memberLayout (known : List String) : Value → Value
  | .string name => .object [("name", .string name)]
  | .object es => .object (Props.shaping known es)
  | v => v

def membersLayout (known : List String) : Value → Value
  | .array xs => .array (xs.map (memberLayout known))
  | v => v

def shapingEntries (known members : List String) (es : Props) : Props :=
  (Props.shaping known es).map fun e => (e.1, if e.1 = "elements" then membersLayout members e.2 else e.2)

def entryLayout (known members : List String) : Value → Value
  | .object es => .object (shapingEntries known members es)
  | v => v

def defineLayout : Value → Value
  | .object es => .object (Props.shaping ["value"] es)
  | v => .object [("value", v)]

end Value

def elementKeys : List String := ["name", "type", "array_size"]

def typedefKeys : List String := ["elements", "reference", "total_size"]

def bitKeys : List String := ["name", "bits"]

def bitfieldKeys : List String := ["elements", "type", "reference"]

def optionKeys : List String := ["name", "value"]

def enumKeys : List String := ["elements", "type", "bitwise", "reference"]

def metadataKeys : List String := ["align", "struct_align", "default_type"]

def Section.layout : Section → Props → Props
  | .metadata, es => Entries.only es fun key => metadataKeys.contains key
  | .defines, es => es.mapValues Value.defineLayout
  | .enums, es => es.mapValues (Value.entryLayout enumKeys optionKeys)
  | .bitfields, es => es.mapValues (Value.entryLayout bitfieldKeys bitKeys)
  | .typedefs, es => es.mapValues (Value.entryLayout typedefKeys elementKeys)
  | .maps, es => es.mapValues (Value.entryLayout ["type"] [])
  | .overrides, _ => []

/-- Descriptions that differ in nothing but what their layouts do without. -/
def Description.SameLayout (d d' : Description) : Prop :=
  ∀ s : Section, s.layout (d.entries s) = s.layout (d'.entries s)

section Fields

variable (known members : List String) (es : Props) (key : String)

theorem Props.get?_shaping (h : known.contains key) : (Props.shaping known es).get? key = Entries.get? es key := by
  rw [shaping, Entries.get?_only, h, Bool.true_or, if_pos rfl]

theorem Props.get?_shaping_none (h : known.contains key = false) (hk : isLayoutKey key = false) :
    (Props.shaping known es).get? key = none := by
  rw [shaping, Entries.get?_only, h, hk, Bool.or_self, if_neg Bool.false_ne_true]

theorem Props.only_shaping : Entries.only (Props.shaping known es) isLayoutKey = Entries.only es isLayoutKey := by
  rw [shaping, Entries.only_only]
  refine congrArg _ (funext fun key => ?_)
  cases isLayoutKey key <;> simp

theorem Value.get?_shapingEntries : (shapingEntries known members es).get? key =
    ((Props.shaping known es).get? key).map fun v => if key = "elements" then membersLayout members v else v := by
  unfold shapingEntries
  induction Props.shaping known es with
  | nil => rfl
  | cons e rest ih =>
    obtain ⟨k, v⟩ := e
    rw [List.map_cons, Entries.get?, Entries.get?]
    by_cases hk : k = key
    · rw [if_pos hk, if_pos hk, hk]
      rfl
    · rw [if_neg hk, if_neg hk, ih]

theorem Value.get?_shapingEntries_kept (h : known.contains key) (hne : key ≠ "elements") :
    (shapingEntries known members es).get? key = Entries.get? es key := by
  rw [get?_shapingEntries, Props.get?_shaping known es key h]
  simp [hne]

theorem Value.get?_shapingEntries_none (h : known.contains key = false) (hk : isLayoutKey key = false) :
    (shapingEntries known members es).get? key = none := by
  rw [get?_shapingEntries, Props.get?_shaping_none known es key h hk, Option.map_none]

theorem Value.only_shapingEntries :
    Entries.only (shapingEntries known members es) isLayoutKey = Entries.only es isLayoutKey := by
  rw [← Props.only_shaping known es, shapingEntries]
  induction Props.shaping known es with
  | nil => rfl
  | cons e rest ih =>
    obtain ⟨k, v⟩ := e
    rw [List.map_cons, Entries.only_cons, Entries.only_cons, ih]
    by_cases hk : k = "elements"
    · subst hk
      rfl
    · rw [if_neg hk]

end Fields

namespace Declaration

section Congr

variable {es fs : Props} {key : String} (h : Entries.get? es key = Entries.get? fs key)
include h

theorem text?_congr : text? es key = text? fs key := by
  rw [text?, text?, h]

theorem optionalText?_congr : optionalText? es key = optionalText? fs key := by
  rw [optionalText?, optionalText?, h]

theorem optionalValue_congr : optionalValue es key = optionalValue fs key := by
  rw [optionalValue, optionalValue, h]

theorem flag?_congr : flag? es key = flag? fs key := by
  rw [flag?, flag?, h]

end Congr

theorem optionalText?_of_none {es : Props} {key : String} (h : Entries.get? es key = none) :
    optionalText? es key = some none := by
  rw [optionalText?, h]

/-- Free keys are seen alike wherever the layout keys are the same. -/
theorem others_layout {es fs : Props} (h : Entries.only es isLayoutKey = Entries.only fs isLayoutKey)
    (known : List String) :
    Props.view isLayoutKey (others es known) = Props.view isLayoutKey (others fs known) := by
  have swap : ∀ gs : Props, Entries.only (others gs known) isLayoutKey =
      others (Entries.only gs isLayoutKey) known := by
    intro gs
    change Entries.only (Entries.only gs fun key => !known.contains key) isLayoutKey =
      Entries.only (Entries.only gs isLayoutKey) fun key => !known.contains key
    rw [Entries.only_only, Entries.only_only]
    exact congrArg _ (funext fun key => Bool.and_comm ..)
  rw [Props.view, Props.view, swap, swap, h]

theorem seen_layout (description : Option String) : seen isLayoutKey description = none := rfl

section Members

variable {es : Props}

theorem element?_layout {x : ElementDecl} (h : element? es = some x) :
    (element? (Props.shaping elementKeys es)).map (ElementDecl.view isLayoutKey) =
      some (x.view isLayoutKey) := by
  have name := text?_congr (Props.get?_shaping elementKeys es "name" rfl)
  have type := optionalText?_congr (Props.get?_shaping elementKeys es "type" rfl)
  have size := optionalValue_congr (Props.get?_shaping elementKeys es "array_size" rfl)
  have description := optionalText?_of_none (Props.get?_shaping_none elementKeys es "description" rfl rfl)
  have free := others_layout (Props.only_shaping elementKeys es)
  simp only [element?, Option.bind_eq_bind, Option.bind_eq_some_iff] at h
  obtain ⟨_, hname, _, htype, _, _, h⟩ := h
  cases h
  simp [element?, name, type, size, description, free, hname, htype, ElementDecl.view, seen_layout]

theorem bit?_layout {x : BitDecl} (h : bit? es = some x) :
    (bit? (Props.shaping bitKeys es)).map (BitDecl.view isLayoutKey) = some (x.view isLayoutKey) := by
  have name := text?_congr (Props.get?_shaping bitKeys es "name" rfl)
  have bits := optionalValue_congr (Props.get?_shaping bitKeys es "bits" rfl)
  have description := optionalText?_of_none (Props.get?_shaping_none bitKeys es "description" rfl rfl)
  have free := others_layout (Props.only_shaping bitKeys es)
  simp only [bit?, Option.bind_eq_bind, Option.bind_eq_some_iff] at h
  obtain ⟨_, hname, _, _, h⟩ := h
  cases h
  simp [bit?, name, bits, description, free, hname, BitDecl.view, seen_layout]

theorem option?_layout {x : OptionDecl} (h : option? es = some x) :
    (option? (Props.shaping optionKeys es)).map OptionDecl.view = some x.view := by
  have name := text?_congr (Props.get?_shaping optionKeys es "name" rfl)
  have value := optionalValue_congr (Props.get?_shaping optionKeys es "value" rfl)
  have description := optionalText?_of_none (Props.get?_shaping_none optionKeys es "description" rfl rfl)
  simp only [option?, Option.bind_eq_bind, Option.bind_eq_some_iff] at h
  obtain ⟨_, hname, _, _, h⟩ := h
  cases h
  simp [option?, name, value, description, hname, OptionDecl.view]

end Members

theorem mapM_layout {α β γ : Type} {f : α → Option β} {s : α → α} {w : β → γ}
    (h : ∀ x y, f x = some y → (f (s x)).map w = some (w y)) {xs : List α} {ys : List β}
    (hxs : xs.mapM f = some ys) : ((xs.map s).mapM f).map (List.map w) = some (ys.map w) := by
  induction xs generalizing ys with
  | nil =>
    cases hxs
    rfl
  | cons x xs ih =>
    simp only [List.mapM_cons, Option.bind_eq_bind, Option.bind_eq_some_iff] at hxs
    obtain ⟨y, hy, ys, hys, hxs⟩ := hxs
    cases hxs
    obtain ⟨y', hy', hview⟩ := Option.map_eq_some_iff.mp (h x y hy)
    obtain ⟨ys', hys', hviews⟩ := Option.map_eq_some_iff.mp (ih hys)
    simp [hy', hys', hview, hviews]

theorem members?_layout {μ ν : Type} {ofName : String → μ} {ofEntries? : Props → Option μ} {w : μ → ν}
    {es : Props} {ms : List μ} (h : members? ofName ofEntries? es = some ms) (known : List String)
    {members : List String} (helements : known.contains "elements")
    (hname : ∀ s, ofEntries? [("name", .string s)] = some (ofName s))
    (hentries : ∀ es x, ofEntries? es = some x → (ofEntries? (Props.shaping members es)).map w = some (w x)) :
    (members? ofName ofEntries? (Value.shapingEntries known members es)).map (List.map w) = some (ms.map w) := by
  unfold members? at h ⊢
  rw [Value.get?_shapingEntries, Props.get?_shaping known es "elements" helements]
  cases hes : Entries.get? es "elements" with
  | none =>
    rw [hes] at h
    cases h
    rfl
  | some v =>
    rw [hes] at h
    cases v with
    | array xs =>
      refine mapM_layout (fun x y hx => ?_) h
      cases x with
      | string s =>
        cases hx
        simp only [Value.memberLayout, hname, Option.map_some]
      | object es => exact hentries es y hx
      | _ => cases hx
    | _ => cases h

theorem typedef?_layout {v : Value} {x : TypedefDecl} (h : typedef? v = some x) :
    (typedef? (v.entryLayout typedefKeys elementKeys)).map (TypedefDecl.view isLayoutKey) =
      some (x.view isLayoutKey) := by
  cases v with
  | object es =>
    have reference := optionalText?_congr
      (Value.get?_shapingEntries_kept typedefKeys elementKeys es "reference" rfl (by decide))
    have size := optionalValue_congr
      (Value.get?_shapingEntries_kept typedefKeys elementKeys es "total_size" rfl (by decide))
    have description := optionalText?_of_none
      (Value.get?_shapingEntries_none typedefKeys elementKeys es "description" rfl rfl)
    have free := others_layout (Value.only_shapingEntries typedefKeys elementKeys es)
    simp only [typedef?, entries?, Option.bind_eq_bind, Option.bind_some, Option.bind_eq_some_iff] at h
    obtain ⟨ms, hms, _, hreference, _, _, h⟩ := h
    cases h
    obtain ⟨ms', hms', hviews⟩ := Option.map_eq_some_iff.mp
      (members?_layout hms typedefKeys rfl (fun _ => rfl) fun _ _ => element?_layout)
    simp [typedef?, entries?, Value.entryLayout, hms', reference, hreference, size, description, free,
      TypedefDecl.view, Declared.map, TypedefHead.view, hviews]
  | _ => cases h

theorem bitfield?_layout {v : Value} {x : BitfieldDecl} (h : bitfield? v = some x) :
    (bitfield? (v.entryLayout bitfieldKeys bitKeys)).map (BitfieldDecl.view isLayoutKey) =
      some (x.view isLayoutKey) := by
  cases v with
  | object es =>
    have type := optionalText?_congr
      (Value.get?_shapingEntries_kept bitfieldKeys bitKeys es "type" rfl (by decide))
    have reference := optionalText?_congr
      (Value.get?_shapingEntries_kept bitfieldKeys bitKeys es "reference" rfl (by decide))
    have description := optionalText?_of_none
      (Value.get?_shapingEntries_none bitfieldKeys bitKeys es "description" rfl rfl)
    have free := others_layout (Value.only_shapingEntries bitfieldKeys bitKeys es)
    simp only [bitfield?, entries?, Option.bind_eq_bind, Option.bind_some, Option.bind_eq_some_iff] at h
    obtain ⟨ms, hms, _, htype, _, hreference, _, _, h⟩ := h
    cases h
    obtain ⟨ms', hms', hviews⟩ := Option.map_eq_some_iff.mp
      (members?_layout hms bitfieldKeys rfl (fun _ => rfl) fun _ _ => bit?_layout)
    simp [bitfield?, entries?, Value.entryLayout, hms', type, htype, reference, hreference, description, free,
      BitfieldDecl.view, Declared.map, BitfieldHead.view, hviews]
  | _ => cases h

theorem enum?_layout {v : Value} {x : EnumDecl} (h : enum? v = some x) :
    (enum? (v.entryLayout enumKeys optionKeys)).map (EnumDecl.view isLayoutKey) = some (x.view isLayoutKey) := by
  cases v with
  | object es =>
    have type := optionalText?_congr
      (Value.get?_shapingEntries_kept enumKeys optionKeys es "type" rfl (by decide))
    have bitwise := flag?_congr
      (Value.get?_shapingEntries_kept enumKeys optionKeys es "bitwise" rfl (by decide))
    have reference := optionalText?_congr
      (Value.get?_shapingEntries_kept enumKeys optionKeys es "reference" rfl (by decide))
    have description := optionalText?_of_none
      (Value.get?_shapingEntries_none enumKeys optionKeys es "description" rfl rfl)
    have free := others_layout (Value.only_shapingEntries enumKeys optionKeys es)
    simp only [enum?, entries?, Option.bind_eq_bind, Option.bind_some, Option.bind_eq_some_iff] at h
    obtain ⟨ms, hms, _, htype, _, hbitwise, _, hreference, _, _, h⟩ := h
    cases h
    obtain ⟨ms', hms', hviews⟩ := Option.map_eq_some_iff.mp
      (members?_layout hms enumKeys rfl (fun _ => rfl) fun _ _ => option?_layout)
    simp [enum?, entries?, Value.entryLayout, hms', type, htype, bitwise, hbitwise, reference, hreference,
      description, free, EnumDecl.view, Declared.map, EnumHead.view, hviews, seen_layout]
  | _ => cases h

theorem map?_layout {v : Value} {x : MapDecl} (h : map? v = some x) :
    (map? (v.entryLayout ["type"] [])).map MapDecl.type = some x.type := by
  cases v with
  | object es =>
    have type := text?_congr (Value.get?_shapingEntries_kept ["type"] [] es "type" rfl (by decide))
    simp only [map?, entries?, Option.bind_eq_bind, Option.bind_some, Option.bind_eq_some_iff] at h
    obtain ⟨_, htype, h⟩ := h
    cases h
    simp [map?, entries?, Value.entryLayout, type, htype]
  | _ => cases h

end Declaration

/-- Entries that are read have the same views if their layouts are the same. -/
theorem views_of_layout {α β : Type} {read : Value → Option α} {es fs : Props} {entries entries' : Entries α}
    (hes : Entries.mapValues es read = entries.mapValues some)
    (hfs : Entries.mapValues fs read = entries'.mapValues some) {layout : Value → Value}
    (h : Entries.mapValues es layout = Entries.mapValues fs layout) {w : α → β}
    (hread : ∀ v x, read v = some x → (read (layout v)).map w = some (w x)) :
    entries.mapValues w = entries'.mapValues w := by
  have views : ∀ {es : Props} {entries : Entries α}, Entries.mapValues es read = entries.mapValues some →
      Entries.mapValues (Entries.mapValues es layout) (fun v => (read v).map w) =
        (entries.mapValues w).mapValues some := by
    intro es entries hes
    induction es generalizing entries with
    | nil =>
      cases entries with
      | nil => rfl
      | cons e rest => cases hes
    | cons e rest ih =>
      obtain ⟨name, v⟩ := e
      obtain ⟨x, tail, rfl, hx, htail⟩ := Entries.mapValues_eq_cons hes.symm
      simp only [Entries.mapValues_cons, hread v x hx.symm, ih htail.symm]
  exact Entries.mapValues_some_injective ((views hes).symm.trans ((congrArg _ h).trans (views hfs)))

theorem Resolution.readAlike_of_layout {α β : Type} {kind : Section} {read : Value → Option α} {es fs : Props}
    {entries entries' : Entries α} (hes : readEntries kind read es = .ok entries)
    (hfs : readEntries kind read fs = .ok entries') {layout : Value → Value}
    (h : Entries.mapValues es layout = Entries.mapValues fs layout) {w : α → β}
    (hread : ∀ v x, read v = some x → (read (layout v)).map w = some (w x)) : ReadAlike kind read w es fs := by
  have whole : ∀ {es : Props} {entries : Entries α}, readEntries kind read es = .ok entries →
      Entries.mapValues es read = entries.mapValues some := by
    intro es entries hes
    rw [← Entries.whole_eq_some, ← readEntries_toOption kind, hes]
    rfl
  unfold ReadAlike
  rw [hes, hfs]
  exact congrArg (fun views => some (Entries.sortByKey views)) (views_of_layout (whole hes) (whole hfs) h hread)

namespace Define

theorem pending_layout {v : Value} {x : PendingDefine} (h : (pending "" v).toOption = some x) :
    (pending "" v.defineLayout).toOption.map PendingDefine.view = some x.view := by
  cases v with
  | object es =>
    unfold pending at h
    rw [Value.defineLayout, pending]
    dsimp only at h ⊢
    rw [Props.get?_shaping ["value"] es "value" rfl]
    cases hv : Entries.get? es "value" with
    | none =>
      rw [hv] at h
      cases h
    | some value =>
      rw [hv] at h
      cases h
      rfl
  | _ =>
    cases h
    rfl

theorem pendingAll_layout {es fs : Props}
    (h : Entries.mapValues es Value.defineLayout = Entries.mapValues fs Value.defineLayout)
    {ds ds' : Entries PendingDefine} (hes : pendingAll es = .ok ds) (hfs : pendingAll fs = .ok ds') :
    (pendingAll es).toOption.map pendingView = (pendingAll fs).toOption.map pendingView := by
  have whole : ∀ {es : Props} {ds : Entries PendingDefine}, pendingAll es = .ok ds →
      Entries.mapValues es (fun v => (pending "" v).toOption) = ds.mapValues some := by
    intro es ds hes
    rw [← Entries.whole_eq_some, ← pendingAll_toOption, hes]
    rfl
  rw [hes, hfs]
  exact congrArg (fun views => some (Entries.sortByKey views))
    (views_of_layout (whole hes) (whole hfs) h fun _ _ => pending_layout)

end Define

namespace Metadata

variable {es fs : Props} {m m' : Metadata}

theorem resolve_fields (h : resolve es = .ok m) : Declaration.optionalSize? es "align" = some m.align ∧
    Declaration.optionalSize? es "struct_align" = some m.structAlign ∧
    ∃ name, Declaration.optionalText? es "default_type" = some name ∧
      name.elim (some .fallback) Primitive.ofName? = some m.defaultType := by
  obtain ⟨d, hd, parts, _, type, htype, checked⟩ := resolve_eq_ok.mp h
  obtain ⟨_, _, _, _, rfl⟩ := MetadataDecl.checked_eq_ok.mp checked
  simp only [Declaration.metadata?, Option.bind_eq_bind, Option.bind_eq_some_iff] at hd
  obtain ⟨_, _, _, _, _, halign, _, hstruct, _, _, _, hname, _, _, hd⟩ := hd
  cases hd
  exact ⟨halign, hstruct, _, hname, htype⟩

theorem resolve_layout (h : Section.metadata.layout es = Section.metadata.layout fs) (hm : resolve es = .ok m)
    (hm' : resolve fs = .ok m') :
    m.align = m'.align ∧ m.structAlign = m'.structAlign ∧ m.defaultType = m'.defaultType := by
  have field : ∀ key, metadataKeys.contains key → Entries.get? es key = Entries.get? fs key := by
    intro key hkey
    have found := congrArg (Entries.get? · key) h
    simpa only [Section.layout, Entries.get?_only, hkey, if_true] using found
  obtain ⟨align, struct, name, hname, type⟩ := resolve_fields hm
  obtain ⟨align', struct', name', hname', type'⟩ := resolve_fields hm'
  unfold Declaration.optionalSize? at align struct align' struct'
  rw [field "align" rfl, align'] at align
  rw [field "struct_align" rfl, struct'] at struct
  rw [Declaration.optionalText?_congr (field "default_type" rfl), hname'] at hname
  cases hname
  rw [type'] at type
  exact ⟨(Option.some.inj align).symm, (Option.some.inj struct).symm, (Option.some.inj type).symm⟩

end Metadata

end AddressMap
