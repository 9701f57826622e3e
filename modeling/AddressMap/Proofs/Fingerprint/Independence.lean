import AddressMap.Proofs.Record.Patch
import AddressMap.Proofs.View.Erasure
import AddressMap.Proofs.View.Record

set_option autoImplicit false

namespace AddressMap

variable {patterns : PatternReader}

namespace Override

theorem isComputed_of_isLayoutKey {key : String} (h : isComputed key = false) :
    Resolution.isLayoutKey key = false := by
  by_contra hk
  rw [Bool.not_eq_false, Resolution.isLayoutKey, List.contains_iff_mem] at hk
  have all : ∀ k ∈ Resolution.layoutKeys, isComputed k = true := by decide
  rw [all key hk] at h
  cases h

end Override

namespace Record

def computedLayout (r : Record) : Props :=
  let item (f : ItemShape → Option Value) : Option Value := r.item?.bind f
  [("name", .string r.name)] ++
  Entries.ofOption "resolved_type" (item fun s => some (.string s.itemType)) ++
  [("resolved_type_size", .ofNat r.unitSize)] ++
  Entries.ofOption "resolved_total_size" (item fun s => some (.ofNat s.totalSize)) ++
  Entries.ofOption "resolved_offset" (item fun s => some (.ofNat s.offset)) ++
  Entries.ofOption "resolved_array_size" (item fun s => s.count.map .ofNat)

theorem only_computed (r : Record) : Entries.only r.computed Resolution.isLayoutKey = r.computedLayout := by
  unfold computed toProps computedLayout
  dsimp only [Entries.merge, List.foldl_nil]
  have flag : Entries.only (Value.flag "reserved" r.reserved) Resolution.isLayoutKey = [] := by
    cases r.reserved <;> rfl
  simp [Entries.only_append, Entries.only_ofOption, Entries.only_cons, flag,
    Resolution.isLayoutKey, Resolution.layoutKeys, item?]

/-- They are fixed where the walk places a record. -/
theorem computedLayout_congr {r s : Record} (h : r.placement = s.placement) :
    r.computedLayout = s.computedLayout := by
  obtain ⟨hname, _, hshape, hunit, _⟩ := Placement.mk.inj h
  unfold computedLayout
  rw [hname, hunit, item?, item?, hshape]

end Record

namespace Resolution

theorem row_layout {r s : Record} (h : r.placement = s.placement)
    (hp : r.props.only isLayoutKey = s.props.only isLayoutKey) : row isLayoutKey r = row isLayoutKey s := by
  have keys : ∀ r : Record, row isLayoutKey r =
      .object ((Entries.only r.computed isLayoutKey).merge (r.props.only isLayoutKey)) := by
    intro r
    rw [← Entries.only_merge, ← Record.toProps_eq]
    rfl
  rw [keys, keys, Record.only_computed, Record.only_computed, Record.computedLayout_congr h, hp]

theorem addOverrides_rows {r r' : Resolution} {es : Props} (h : r.addOverrides es patterns = .done r') :
    rows isLayoutKey r'.maps = rows isLayoutKey r.maps := by
  obtain ⟨maps, happly, rfl⟩ := addOverrides_eq_done h
  refine Override.applyAll_map (fun key v e he m => ?_) happly
  obtain ⟨_, _, _, _, free, _, _⟩ := Override.read_eq_ok.mp he
  have patched : ∀ r, row isLayoutKey (e.patchRecord r) = row isLayoutKey r := by
    intro r
    refine row_layout (Override.patchRecord_placement e r) ?_
    unfold Override.Entry.patchRecord
    split
    · exact Override.patch_only (fun k hk => Override.isComputed_of_isLayoutKey (free k hk)) r
    · rfl
  simp only [Override.Entry.applyTo, List.map_map, Function.comp_def, patched]

theorem finishRecords_rows {r r' : Resolution} (h : r.finishRecords = .done r') :
    rows isLayoutKey r'.maps = rows isLayoutKey r.maps := by
  obtain ⟨maps, hfinish, rfl⟩ := finishRecords_eq_done h
  refine finishAll_map (fun m m' hm => ?_) hfinish
  obtain ⟨rs, hrs, rfl⟩ := finishMap_eq_done hm
  have same : rs.map (row isLayoutKey) = m.records.map (row isLayoutKey) := finishAll_map (fun s t hst => ?_) hrs
  · simp only [same]
  · obtain ⟨_, _, _, _, _, _, rfl⟩ := finishRecord_eq_done hst
    exact row_layout rfl rfl

section Stages

variable {r s : Resolution}

theorem scope_of_done {o o' : Outcome Resolution} (h : o = .done r) (h' : o' = .done s)
    (hscope : o.reached.map (fun r => r.scope.view isLayoutKey) =
      o'.reached.map fun r => r.scope.view isLayoutKey) :
    r.scope.view isLayoutKey = s.scope.view isLayoutKey := by
  subst h h'
  exact Option.some.inj hscope

theorem addDefines_layout {es fs : Props} (hes : Section.defines.layout es = Section.defines.layout fs)
    (h : start.addDefines es = .done r) (h' : start.addDefines fs = .done s) :
    r.scope.view isLayoutKey = s.scope.view isLayoutKey := by
  have read : ∀ {es : Props} {r : Resolution}, start.addDefines es = .done r →
      ∃ ds, Define.pendingAll es = .ok ds := by
    intro es r h
    obtain ⟨t, ht, _⟩ := addDefines_eq_done h
    have reached := Outcome.reached_eq_some.mpr ht
    rw [Define.resolve_reached] at reached
    obtain ⟨ds, hds, _⟩ := Option.bind_eq_some_iff.mp reached
    exact ⟨ds, toOption_eq_some.mp hds⟩
  obtain ⟨ds, hds⟩ := read h
  obtain ⟨ds', hds'⟩ := read h'
  exact scope_of_done h h' (addDefines_congr rfl (Define.pendingAll_layout hes hds hds'))

theorem addMetadata_layout {r₁ s₁ : Resolution} (hscope : r₁.scope.view isLayoutKey = s₁.scope.view isLayoutKey)
    {es fs : Props} (hes : Section.metadata.layout es = Section.metadata.layout fs)
    (h : r₁.addMetadata es = .done r) (h' : s₁.addMetadata fs = .done s) (hr : r.metadata ≠ r₁.metadata)
    (hs : s.metadata ≠ s₁.metadata) : r.scope.view isLayoutKey = s.scope.view isLayoutKey := by
  rcases addMetadata_eq_done h with rfl | ⟨m, hm, rfl⟩
  · exact absurd rfl hr
  rcases addMetadata_eq_done h' with rfl | ⟨m', hm', rfl⟩
  · exact absurd rfl hs
  obtain ⟨align, struct, type⟩ := Metadata.resolve_layout hes hm hm'
  have scopes := congrArg (fun t : Scope => { t with
    fallback := m.defaultType, align := m.align, structAlign := m.structAlign : Scope }) hscope
  refine scopes.trans ?_
  rw [align, struct, type]
  rfl

end Stages

/-- Where both of them resolve, the same layout gives the same rows of layout keys. -/
theorem rows_of_layout {d d' : Description} (hlayout : d.SameLayout d') {r s : Resolution}
    (hr : finished d patterns = .done r) (hs : finished d' patterns = .done s) (hm : r.metadata ≠ none)
    (hm' : s.metadata ≠ none) :
    byName Value.sortKeys (rows isLayoutKey r.maps) = byName Value.sortKeys (rows isLayoutKey s.maps) := by
  obtain ⟨r₁, r₂, r₃, r₄, r₅, r₆, r₇, h₁, h₂, h₃, h₄, h₅, h₆, h₇, h₈⟩ := finished_eq_done hr
  obtain ⟨s₁, s₂, s₃, s₄, s₅, s₆, s₇, g₁, g₂, g₃, g₄, g₅, g₆, g₇, g₈⟩ := finished_eq_done hs
  rw [finishRecords_rows h₈, addOverrides_rows h₇, finishRecords_rows g₈, addOverrides_rows g₇]
  -- Up to the maps, the scopes of both runs have the same view behind every stage.
  have defines := addDefines_layout (hlayout .defines) h₁ g₁
  have metadata := addMetadata_layout defines (hlayout .metadata) h₂ g₂
    (by rwa [← finished_metadata h₃ h₄ h₅ h₆ h₇ h₈, (addDefines_beside h₁).metadata])
    (by rwa [← finished_metadata g₃ g₄ g₅ g₆ g₇ g₈, (addDefines_beside g₁).metadata])
  have enums : r₃.scope.view isLayoutKey = s₃.scope.view isLayoutKey := by
    obtain ⟨_, _, _, read, _⟩ := addEnums_eq_done h₃
    obtain ⟨_, _, _, read', _⟩ := addEnums_eq_done g₃
    exact scope_of_done h₃ g₃ (addEnums_congr metadata
      (readAlike_of_layout read read' (hlayout .enums) fun _ _ => Declaration.enum?_layout))
  have bitfields : r₄.scope.view isLayoutKey = s₄.scope.view isLayoutKey := by
    obtain ⟨_, _, _, read, _⟩ := addBitfields_eq_done h₄
    obtain ⟨_, _, _, read', _⟩ := addBitfields_eq_done g₄
    exact scope_of_done h₄ g₄ (addBitfields_congr enums
      (readAlike_of_layout read read' (hlayout .bitfields) fun _ _ => Declaration.bitfield?_layout))
  have typedefs : r₅.scope.view isLayoutKey = s₅.scope.view isLayoutKey := by
    obtain ⟨_, _, _, _, read, _⟩ := addTypedefs_eq_done h₅
    obtain ⟨_, _, _, _, read', _⟩ := addTypedefs_eq_done g₅
    exact scope_of_done h₅ g₅ (addTypedefs_congr bitfields
      (readAlike_of_layout read read' (hlayout .typedefs) fun _ _ => Declaration.typedef?_layout))
  have empty : r₅.maps = s₅.maps := by
    rw [(published_of_stages h₁ h₂ h₃ h₄ h₅).2, (published_of_stages g₁ g₂ g₃ g₄ g₅).2]
  obtain ⟨entries, maps, _, read, _, walked, rfl⟩ := addMaps_eq_done h₆
  obtain ⟨entries', maps', _, read', _, walked', rfl⟩ := addMaps_eq_done g₆
  have named : byName MapDecl.type entries = byName MapDecl.type entries' := by
    have alike := readAlike_of_layout read read' (hlayout .maps) fun _ _ => Declaration.map?_layout
    unfold ReadAlike at alike
    rw [read, read'] at alike
    exact Option.some.inj alike
  have tables : TypeTable.view isLayoutKey ⟨r₅.typedefs, r₅.bitfields⟩ =
      TypeTable.view isLayoutKey ⟨s₅.typedefs, s₅.bitfields⟩ :=
    congrArg (fun t : Scope => (⟨t.typedefs, t.bitfields⟩ : TypeTable)) typedefs
  have seen := flattenAll_congr tables 1 1 (congrArg (seenMaps isLayoutKey) empty) named
  rw [walked, walked'] at seen
  exact rows_of_seenMaps (fun _ hk => hk) (Option.some.inj seen)

/-- What the layouts of two descriptions do without has no part in the layout fingerprint. -/
theorem fwHash_of_layout {d d' : Description} {c c' : ResolvedMap} (h : resolve d patterns = .ok c)
    (h' : resolve d' patterns = .ok c') (hlayout : d.SameLayout d') : c.metadata.fwHash = c'.metadata.fwHash := by
  obtain ⟨r, r', hr, hprint, rfl⟩ := resolve_eq_ok.mp h
  obtain ⟨s, s', hs, hprint', rfl⟩ := resolve_eq_ok.mp h'
  obtain ⟨m, hm, rfl⟩ := addFingerprints_eq_done hprint
  obtain ⟨m', hm', rfl⟩ := addFingerprints_eq_done hprint'
  have rows := rows_of_layout hlayout hr hs (by simp [hm]) (by simp [hm'])
  exact fingerprint_of_rows rows

end Resolution

/-- Two members without anything that could be left out. -/
def Description.plain : Description where
  sections := [
    ("metadata", .object [("app_name", .string "board"), ("default_type", .string "uint8_t")]),
    ("typedefs", .object [("root", .object [("elements", .array [
      .string "state", .object [("name", .string "level"), ("type", .string "uint16_t")]])])]),
    ("generated_maps", .object [("board", .object [("type", .string "root")])])]

/-- The same members with descriptions, free keys and an override. -/
def Description.annotated : Description where
  sections := [
    ("metadata", .object [("app_name", .string "panel"), ("version", .string "1.2.0"),
      ("default_type", .string "uint8_t")]),
    ("typedefs", .object [("root", .object [("description", .string "all"), ("elements", .array [
      .object [("name", .string "state"), ("description", .string "on or off")],
      .object [("name", .string "level"), ("type", .string "uint16_t"), ("default", .ofNat 1)]])])]),
    ("generated_maps", .object [("board", .object [("type", .string "root"), ("file", .string "board.h")])]),
    ("overrides", .object [("level", .object [("default", .ofNat 2), ("unit", .string "V")])])]

namespace Resolution

theorem sameLayout_annotated : Description.plain.SameLayout .annotated := by
  intro s
  cases s <;> decide +kernel

theorem finished_plain : (finished .plain).error.isNone ∧ (finished .plain).state.metadata.isSome := by
  decide +kernel

theorem finished_annotated :
    (finished .annotated).error.isNone ∧ (finished .annotated).state.metadata.isSome := by
  decide +kernel

theorem fwHash_annotated : Description.plain.SameLayout .annotated ∧ ∃ c c', resolve .plain = .ok c ∧
    resolve .annotated = .ok c' ∧ c.metadata.fwHash = c'.metadata.fwHash := by
  obtain ⟨hnone, hmeta⟩ := finished_plain
  obtain ⟨hnone', hmeta'⟩ := finished_annotated
  obtain ⟨c, _, hc, _⟩ := resolves_of_finished hnone hmeta
  obtain ⟨c', _, hc', _⟩ := resolves_of_finished hnone' hmeta'
  exact ⟨sameLayout_annotated, c, c', hc, hc', fwHash_of_layout hc hc' sameLayout_annotated⟩

end Resolution

end AddressMap
