import AddressMap.Proofs.Bitfield.Packing
import AddressMap.Proofs.Record.Placement
import AddressMap.Proofs.Reference.Expansion
import AddressMap.Proofs.Typedef.Layout

set_option autoImplicit false

namespace AddressMap

variable {patterns : PatternReader}

/-- A table in which every type that a walk can look up has been resolved. -/
structure TypeTable.Resolved (table : TypeTable) : Prop where
  packed : ∀ name b, table.bitfields.get? name = some b → b.Packed
  chained : ∀ name t, table.typedefs.get? name = some t → Element.Chained 0 t.size t.elements
  sized : ∀ name t, table.typedefs.get? name = some t →
    ∀ e ∈ t.elements, e.Sized table.bitfields table.typedefs

namespace Resolution

def types (r : Resolution) : TypeTable := ⟨r.typedefs, r.bitfields⟩

theorem readEntries_keys {α : Type} {kind : Section} {parse : Value → Option α} {es : Props}
    {entries : Entries α} (h : readEntries kind parse es = .ok entries) : entries.keys = es.keys := by
  induction es generalizing entries with
  | nil =>
    cases h
    rfl
  | cons e rest ih =>
    obtain ⟨name, v⟩ := e
    simp only [readEntries] at h
    split at h
    · cases h
    · obtain ⟨tail, ht, rfl⟩ := map_eq_ok.mp h
      have ih := ih ht
      simp only [Entries.keys] at ih
      simp only [Entries.keys, List.map_cons, ih]

theorem mem_keys_sortByKey {α : Type} {es : Entries α} {name : String} :
    name ∈ es.sortByKey.keys ↔ name ∈ es.keys :=
  ((Entries.sortByKey_perm es).map (·.1)).mem_iff

theorem expandFrom_keys {μ η : Type} {kind : Section} {table es : Entries (Declared μ η)}
    {expanded : Entries (Declared μ η)} (h : Reference.expandFrom kind table es = .ok expanded) :
    expanded.keys = es.keys := by
  have names := (Reference.expandFrom_eq_ok.mp h).imp fun _ _ he => he.1.symm
  exact (List.forall₂_eq_eq_eq ▸ List.forall₂_map_left_iff.mpr (List.forall₂_map_right_iff.mpr names)).symm

theorem resolveInto_get? {α β : Type} {resolve : String → α → Except Error β} {table table' : Entries β}
    {es : Entries α} (h : resolveInto resolve table es = .done table') {name : String} {y : β}
    (hy : table'.get? name = some y) :
    table.get? name = some y ∨ ∃ x, (name, x) ∈ es ∧ resolve name x = .ok y := by
  induction es generalizing table with
  | nil =>
    cases h
    exact .inl hy
  | cons e rest ih =>
    obtain ⟨key, x⟩ := e
    simp only [resolveInto] at h
    split at h
    · cases h
    · rename_i z hz
      rcases ih h with hin | ⟨x', hx', hr⟩
      · rw [Entries.get?_insert] at hin
        by_cases hk : name = key
        · simp only [hk, if_true, Option.some.injEq] at hin
          subst hin hk
          exact .inr ⟨x, List.mem_cons_self, hz⟩
        · simp only [hk, if_false] at hin
          exact .inl hin
      · exact .inr ⟨x', List.mem_cons_of_mem _ hx', hr⟩

theorem mem_inOrder {α : Type} {order : List String} {table : Entries α} {name : String} {x : α} :
    (name, x) ∈ inOrder order table ↔ name ∈ order ∧ table.get? name = some x := by
  simp only [inOrder, List.mem_filterMap, Option.map_eq_some_iff, Prod.mk.injEq]
  constructor
  · rintro ⟨_, hm, _, hx, rfl, rfl⟩
    exact ⟨hm, hx⟩
  · rintro ⟨hm, hx⟩
    exact ⟨name, hm, x, hx, rfl, rfl⟩

end Resolution

namespace Typedef

theorem layoutAll_keys {s : Scope} {table : Entries TypedefDecl} {order : List String}
    {ts : Entries Typedef} (h : layoutAll s table order = .done ts) {name : String}
    (hn : name ∈ ts.keys) : name ∈ s.typedefs.keys ∨ name ∈ order := by
  induction order generalizing s with
  | nil =>
    cases h
    exact .inl hn
  | cons first rest ih =>
    simp only [layoutAll] at h
    split at h
    · rcases ih h with h | h
      · exact .inl h
      · exact .inr (List.mem_cons_of_mem _ h)
    · split at h
      · cases h
      · rcases ih h with h | h
        · rcases Entries.mem_keys_insert.mp h with rfl | h
          · exact .inr List.mem_cons_self
          · exact .inl h
        · exact .inr (List.mem_cons_of_mem _ h)

end Typedef

def FlatMap.WalkedIn (table : TypeTable) (m : FlatMap) : Prop :=
  ∃ root records uid next, table.typedefs.get? m.type = some root ∧ m.size = root.size ∧
    Walk.flatten table root uid = .ok (records, next) ∧
    m.records.map Record.placement = records.map Record.placement

def FlatMap.FlattenedIn (table : TypeTable) (m : FlatMap) : Prop :=
  ∃ root uid next, table.typedefs.get? m.type = some root ∧ m.size = root.size ∧
    Walk.flatten table root uid = .ok (m.records, next)

theorem FlatMap.FlattenedIn.walkedIn {table : TypeTable} {m : FlatMap} (h : m.FlattenedIn table) :
    m.WalkedIn table := by
  obtain ⟨root, uid, next, hroot, hsize, hwalk⟩ := h
  exact ⟨root, m.records, uid, next, hroot, hsize, hwalk, rfl⟩

theorem walkedIn_of_frame {table : TypeTable} {m m' : FlatMap} (h : m.frame = m'.frame)
    (hw : m'.WalkedIn table) : m.WalkedIn table := by
  simp only [FlatMap.frame, FlatMap.Frame.mk.injEq] at h
  obtain ⟨_, htype, hsize, hrecords⟩ := h
  unfold FlatMap.WalkedIn
  rw [htype, hsize, hrecords]
  exact hw

theorem Resolution.flattenAll_eq_done {table : TypeTable} {uid : Nat} {maps flat : List FlatMap}
    {entries : Entries MapDecl} (h : flattenAll table uid maps entries = .done flat) :
    flat.map (·.name) = maps.map (·.name) ++ entries.keys ∧
      ∀ m ∈ flat, m ∈ maps ∨ m.FlattenedIn table := by
  induction entries generalizing uid maps with
  | nil =>
    cases h
    exact ⟨by simp [Entries.keys], fun _ hm => .inl hm⟩
  | cons e rest ih =>
    obtain ⟨name, d⟩ := e
    simp only [flattenAll] at h
    split at h
    · cases h
    rename_i root hroot
    split at h
    · cases h
    rename_i records next hwalk
    obtain ⟨names, hm⟩ := ih h
    refine ⟨by simpa [Entries.keys] using names, ?_⟩
    intro m hmem
    rcases hm m hmem with hin | hin
    · rcases List.mem_append.mp hin with hin | hin
      · exact .inl hin
      · refine .inr ⟨root, uid, next, ?_⟩
        rw [List.mem_singleton.mp hin]
        exact ⟨hroot, rfl, hwalk⟩
    · exact .inr hin

/-- What a resolved description takes over from a walk over its tables. -/
structure ResolvedMap.WalkedFrom (d : Description) (c : ResolvedMap) (table : TypeTable) : Prop where
  resolved : table.Resolved
  typedefs : ∀ name t, table.typedefs.get? name = some t → (name, t) ∈ c.typedefs
  bitfields : ∀ name b, table.bitfields.get? name = some b → (name, b) ∈ c.bitfields
  names : c.maps.map (·.name) = (d.entries .maps).keys
  walked : ∀ m ∈ c.maps, m.WalkedIn table
  folded : ∀ m ∈ c.maps, m.folded = LoopNest.fold m.records

namespace Resolution

theorem addBitfields_packed {r r' : Resolution} {es : Props} (h : r.addBitfields es = .done r')
    (hb : r.bitfields = []) : ∀ name b, r'.bitfields.get? name = some b →
      b.Packed ∧ name ∈ r'.bitfieldOrder := by
  obtain ⟨entries, expanded, table, hread, hexp, hinto, rfl⟩ := addBitfields_eq_done h
  intro name b hget
  rw [hb] at hinto
  rcases resolveInto_get? hinto hget with hnil | ⟨x, hx, hres⟩
  · cases hnil
  refine ⟨Bitfield.resolve_packed hres, ?_⟩
  have hmem : name ∈ expanded.keys := List.mem_map.mpr ⟨(name, x), hx, rfl⟩
  rw [expandFrom_keys hexp, mem_keys_sortByKey, readEntries_keys hread] at hmem
  exact hmem

theorem addTypedefs_resolved {r r' : Resolution} {es : Props} (h : r.addTypedefs es = .done r')
    (hp : ∀ name b, r.bitfields.get? name = some b → b.Packed) (ht : r.typedefs = []) :
    (⟨r'.typedefs, r'.bitfields⟩ : TypeTable).Resolved ∧
      ∀ name t, r'.typedefs.get? name = some t → name ∈ r'.typedefOrder := by
  obtain ⟨entries, table, order, ts, _, _, _, hlay, rfl, _⟩ := addTypedefs_eq_done h
  have empty : r.scope.typedefs = [] := ht
  have none : Typedef.Laid r.scope table := by
    intro name t hget
    rw [empty] at hget
    cases hget
  have laid := Typedef.layoutAll_laid none hlay
  refine ⟨⟨hp, ?_, ?_⟩, ?_⟩
  · intro name t hget
    obtain ⟨d, _, hd⟩ := laid name t hget
    exact (Typedef.layout_chained hd).1
  · intro name t hget
    obtain ⟨d, _, hd⟩ := laid name t hget
    exact (Typedef.layout_chained hd).2
  · intro name t hget
    rcases Typedef.layoutAll_keys hlay (Entries.mem_keys_of_get? hget) with hn | hn
    · rw [empty] at hn
      cases hn
    · exact hn

theorem addEnums_listed {r r' : Resolution} {es : Props} (h : r.addEnums es = .done r')
    (he : r.enums = []) : ∀ name e, r'.enums.get? name = some e → name ∈ r'.enumOrder := by
  obtain ⟨entries, expanded, table, hread, hexp, hinto, rfl⟩ := addEnums_eq_done h
  intro name e hget
  rw [he] at hinto
  rcases resolveInto_get? hinto hget with hnil | ⟨x, hx, _⟩
  · cases hnil
  have hmem : name ∈ expanded.keys := List.mem_map.mpr ⟨(name, x), hx, rfl⟩
  rw [expandFrom_keys hexp, mem_keys_sortByKey, readEntries_keys hread] at hmem
  exact hmem

theorem addTypedefs_enumeration {r r' : Resolution} {es : Props} (h : r.addTypedefs es = .done r')
    (ht : r.typedefs = []) {name : String} {t : Typedef} (hget : r'.typedefs.get? name = some t)
    {e : Element} (he : e ∈ t.elements) {enum : String} (hk : e.kind = .enumeration enum) :
    (r.enums.get? enum).isSome := by
  obtain ⟨entries, table, order, ts, _, _, _, hlay, rfl, _⟩ := addTypedefs_eq_done h
  have empty : r.scope.typedefs = [] := ht
  have none : Typedef.Laid r.scope table := by
    intro name t hget
    rw [empty] at hget
    cases hget
  obtain ⟨d, _, hd⟩ := Typedef.layoutAll_laid none hlay name t hget
  exact Typedef.layout_enumeration hd he hk

/-- All types are resolved, and each of them is to be published. -/
structure Published (r : Resolution) : Prop where
  resolved : (⟨r.typedefs, r.bitfields⟩ : TypeTable).Resolved
  typedefs : ∀ name t, r.typedefs.get? name = some t → name ∈ r.typedefOrder
  bitfields : ∀ name b, r.bitfields.get? name = some b → name ∈ r.bitfieldOrder
  enums : ∀ name e, r.enums.get? name = some e → name ∈ r.enumOrder
  enumerations : ∀ name t, r.typedefs.get? name = some t → ∀ e ∈ t.elements,
    ∀ enum, e.kind = .enumeration enum → (r.enums.get? enum).isSome

theorem empty_of_stages {r₁ r₂ : Resolution} {defines metadata : Props}
    (h₁ : start.addDefines defines = .done r₁) (h₂ : r₁.addMetadata metadata = .done r₂) :
    r₂.enums = [] ∧ r₂.bitfields = [] ∧ r₂.typedefs = [] ∧ r₂.maps = [] := by
  obtain ⟨_, _, rfl⟩ := addDefines_eq_done h₁
  rcases addMetadata_eq_done h₂ with rfl | ⟨_, _, rfl⟩ <;> exact ⟨rfl, rfl, rfl, rfl⟩

theorem published_of_stages {r₁ r₂ r₃ r₄ r₅ : Resolution} {defines metadata enums bitfields typedefs : Props}
    (h₁ : start.addDefines defines = .done r₁) (h₂ : r₁.addMetadata metadata = .done r₂)
    (h₃ : r₂.addEnums enums = .done r₃) (h₄ : r₃.addBitfields bitfields = .done r₄)
    (h₅ : r₄.addTypedefs typedefs = .done r₅) : r₅.Published ∧ r₅.maps = [] := by
  have tables₂ := empty_of_stages h₁ h₂
  have tables₃ : r₃.bitfields = [] ∧ r₃.typedefs = [] ∧ r₃.maps = [] := by
    obtain ⟨_, _, _, _, _, _, rfl⟩ := addEnums_eq_done h₃
    exact tables₂.2
  have tables₄ : r₄.typedefs = [] ∧ r₄.maps = [] ∧ r₄.enums = r₃.enums ∧ r₄.enumOrder = r₃.enumOrder := by
    obtain ⟨_, _, _, _, _, _, rfl⟩ := addBitfields_eq_done h₄
    exact ⟨tables₃.2.1, tables₃.2.2, rfl, rfl⟩
  have listed := addEnums_listed h₃ tables₂.1
  have packed := addBitfields_packed h₄ tables₃.1
  obtain ⟨resolved, ordered⟩ :=
    addTypedefs_resolved h₅ (fun name b hb => (packed name b hb).1) tables₄.1
  have enumerations := @addTypedefs_enumeration _ _ _ h₅ tables₄.1
  obtain ⟨_, _, _, _, _, _, _, _, rfl, _⟩ := addTypedefs_eq_done h₅
  refine ⟨⟨resolved, ordered, fun name b hb => (packed name b hb).2, fun name e he => ?_, ?_⟩, tables₄.2.1⟩
  · change r₄.enums.get? name = some e at he
    rw [tables₄.2.2.1] at he
    exact tables₄.2.2.2 ▸ listed name e he
  · exact fun name t ht e he enum hk => enumerations ht he hk

/-- Every map is flattened in the tables of the very resolution that it is in. -/
theorem flattened_in {d : Description} {r : Resolution} (h : flattened d = .done r) :
    (⟨r.typedefs, r.bitfields⟩ : TypeTable).Resolved ∧
      ∀ m ∈ r.maps, m.FlattenedIn ⟨r.typedefs, r.bitfields⟩ := by
  obtain ⟨r₁, r₂, r₃, r₄, r₅, h₁, h₂, h₃, h₄, h₅, h₆⟩ := flattened_eq_done h
  obtain ⟨published, empty⟩ := published_of_stages h₁ h₂ h₃ h₄ h₅
  obtain ⟨entries, flat, _, _, _, hflat, rfl⟩ := addMaps_eq_done h₆
  rw [empty] at hflat
  refine ⟨published.resolved, fun m hm => ?_⟩
  rcases (flattenAll_eq_done hflat).2 m hm with hnil | hflattened
  · cases hnil
  · exact hflattened

theorem resolve_walkedFrom {d : Description} {c : ResolvedMap} (h : resolve d patterns = .ok c) :
    ∃ table, c.WalkedFrom d table := by
  obtain ⟨r₈, r₉, hdone, h₉, rfl⟩ := resolve_eq_ok.mp h
  obtain ⟨r₁, r₂, r₃, r₄, r₅, r₆, r₇, h₁, h₂, h₃, h₄, h₅, h₆, h₇, h₈⟩ := finished_eq_done hdone
  obtain ⟨published, empty⟩ := published_of_stages h₁ h₂ h₃ h₄ h₅
  obtain ⟨entries, flat, _, hread, _, hflat, rfl⟩ := addMaps_eq_done h₆
  obtain ⟨overridden, hover, rfl⟩ := addOverrides_eq_done h₇
  obtain ⟨finished, hfin, rfl⟩ := finishRecords_eq_done h₈
  obtain ⟨_, _, rfl⟩ := addFingerprints_eq_done h₉
  obtain ⟨framed, folded⟩ := finishRecords_frame hfin
  rw [Override.applyAll_frame hover] at framed
  rw [empty] at hflat
  obtain ⟨names, walked⟩ := flattenAll_eq_done hflat
  refine ⟨⟨r₅.typedefs, r₅.bitfields⟩, published.resolved, ?_, ?_, ?_, ?_, folded⟩
  · exact fun name t ht => mem_inOrder.mpr ⟨published.typedefs name t ht, ht⟩
  · exact fun name b hb => mem_inOrder.mpr ⟨published.bitfields name b hb, hb⟩
  · change finished.map (·.name) = _
    rw [← readEntries_keys hread]
    exact (names_of_frames framed).trans names
  · intro m hm
    have hframe : m.frame ∈ flat.map FlatMap.frame := framed ▸ List.mem_map_of_mem hm
    obtain ⟨m', hm', heq⟩ := List.mem_map.mp hframe
    rcases walked m' hm' with hnil | hw
    · cases hnil
    · exact walkedIn_of_frame heq.symm hw.walkedIn

end Resolution

end AddressMap
