import AddressMap.Proofs.Record.Report
import AddressMap.Proofs.Record.Stack
import AddressMap.Proofs.Resolution.Keys

set_option autoImplicit false

namespace AddressMap

/-- The layers of an element: its own keys, and over them those of the typedef or bitfield that it is of. -/
def Element.layers (table : TypeTable) (e : Element) : List Props :=
  match e.kind with
  | .primitive _ | .enumeration _ => [e.props]
  | .bitfield name => e.props :: ((table.bitfields.get? name).map (·.props)).toList
  | .typedef name => e.props :: ((table.typedefs.get? name).map (·.props)).toList

theorem Element.layers_item (table : TypeTable) {e : Element} (h : e.isItem) : e.layers table = [e.props] := by
  unfold isItem at h
  unfold layers
  split at h
  · rename_i hkind
    rw [hkind]
  · rename_i hkind
    rw [hkind]
  · cases h

namespace Route

/-- The layers on the route, those of the record last. -/
def layers (table : TypeTable) (route : Route) : List Props :=
  route.hops.flatMap (fun h => h.element.layers table) ++ (route.member.map (·.props)).toList

def inherited (table : TypeTable) (props : Props) (route : Route) : Props :=
  (route.layers table).foldl Entries.merge props

theorem inherited_behind (table : TypeTable) (props : Props) (h : Hop) (route : Route) :
    (route.behind [h]).inherited table props =
      route.inherited table ((h.element.layers table).foldl Entries.merge props) := by
  simp [inherited, layers, behind]

end Route

namespace Walk

/-- Whatever records the step makes have these keys. -/
def Yields (step : Cursor → Step) (keys : List Props) : Prop :=
  ∀ c rs c', step c = .ok (rs, c') → rs.map (·.props) = keys

theorem inherits (table : TypeTable) : Reports table (·.props) (Route.inherited table) where
  item {e} hk i q := by
    intro c rs c' h
    cases h
    simp [Route.inherited, Route.layers, Element.layers_item table hk]
  bits {e name b} hk hget i props q hq := by
    intro c rs c' h
    cases h
    have own : e.layers table = [e.props, b.props] := by simp [Element.layers, hk, hget]
    rw [List.map_map]
    refine List.map_congr_left fun m _ => ?_
    simp [Route.inherited, Route.layers, own, hq]
  typedef {e name t} hk hget i props route _ := by
    have own : e.layers table = [e.props, t.props] := by simp [Element.layers, hk, hget]
    rw [Route.inherited_behind, own]
    rfl

/-- A walk through the elements of a tour gives every record the keys of its route. -/
theorem sequence_yields {table : TypeTable} {es : List Element} {tour : List Route} (htour : Tour table es tour)
    (depth : Nat) (p : Place) : Yields (sequence (visit table depth p) es) (tour.map (Route.inherited table p.props)) :=
  sequence_reports (inherits table) htour depth p

end Walk

/-- Every key of the record is that of the topmost layer with the key, and there are no other keys. -/
def Record.Layered (r : Record) (layers : List Props) : Prop :=
  ∀ key, r.props.get? key = Entries.topmost layers key ∧
    (r.props.get? key = none ↔ ∀ layer ∈ layers, key ∉ layer.keys)

theorem Record.layered_of_merge {r : Record} {below : Props} {layers : List Props}
    (h : ∀ layer ∈ layers, layer.keys.Nodup) (hr : r.props = layers.foldl Entries.merge below) :
    r.Layered (below :: layers) := by
  intro key
  have value : r.props.get? key = Entries.topmost (below :: layers) key := by
    rw [hr, Entries.get?_foldl_merge below h]
  exact ⟨value, value ▸ Entries.topmost_eq_none_iff⟩

theorem TypeTable.Keyed.layers {table : TypeTable} (ht : table.Keyed) {es : List Element}
    (hes : ∀ e ∈ es, e.props.keys.Nodup) {route : Route} (h : Reaches table es route) :
    ∀ layer ∈ route.layers table, layer.keys.Nodup := by
  induction h with
  | @item es e i he _ hk =>
    have own : e.layers table = [e.props] := Element.layers_item table hk
    simpa [Route.layers, own] using hes e he
  | @bits es e i name b m he _ hk hb hm =>
    have own : e.layers table = [e.props, b.props] := by simp [Element.layers, hk, hb]
    have keyed := ht.bitfields name b hb
    simpa [Route.layers, own] using ⟨hes e he, keyed.1, keyed.2 m hm⟩
  | @typedef es e i name t route he _ hk hget _ ih =>
    have own : e.layers table = [e.props, t.props] := by simp [Element.layers, hk, hget]
    have keyed := ht.typedefs name t hget
    have inside := ih keyed.2
    simp only [Route.layers, Route.behind, List.flatMap_append, List.flatMap_singleton, own,
      List.append_assoc] at inside ⊢
    intro layer hlayer
    rcases List.mem_append.mp hlayer with hlayer | hlayer
    · rcases List.mem_pair.mp hlayer with rfl | rfl
      · exact hes e he
      · exact keyed.1
    · exact inside layer hlayer

/-- The records of a root typedef lie at the end of their routes, with the keys of all layers on them. -/
theorem Walk.flatten_layered {table : TypeTable} (ht : table.Resolved) (hk : table.Keyed) {name : String}
    {root : Typedef} (hroot : table.typedefs.get? name = some root) {uid next : Nat} {rs : List Record}
    (h : flatten table root uid = .ok (rs, next)) : ∃ tour, Tour table root.elements tour ∧
      List.Forall₂ (fun r route => r.Ends route ∧ r.Layered (root.props :: route.layers table)) rs tour := by
  obtain ⟨tour, htour, hends⟩ := flatten_tour ht hroot h
  obtain ⟨⟨records, c⟩, hwalk, heq⟩ := map_eq_ok.mp h
  cases heq
  have keys := forall₂_of_views (sequence_yields htour _ _ _ _ _ hwalk)
  refine ⟨tour, htour, List.forall₂_iff_zip.mpr ⟨hends.length_eq, fun {r route} hmem => ?_⟩⟩
  have reached := (htour.mem_iff route).mp (List.of_mem_zip hmem).2
  have distinct := hk.layers (hk.typedefs name root hroot).2 reached
  exact ⟨List.forall₂_zip hends hmem, Record.layered_of_merge distinct (List.forall₂_zip keys hmem)⟩

namespace Resolution

/-- Every record has the keys of the layers on its route. The walk that keeps the layers on a stack makes the
    same records, and drops from the stack all that it has pushed. -/
theorem records_inherit_layers {d : Description} (hd : d.WellFormed) {r : Resolution} (h : flattened d = .done r)
    {m : FlatMap} (hm : m ∈ r.maps) :
    (∃ root tour, r.typedefs.get? m.type = some root ∧ Tour r.types root.elements tour ∧
      List.Forall₂ (fun record route => record.Ends route ∧ record.Layered (root.props :: route.layers r.types))
        m.records tour ∧
      ∃ uid t, StackWalk.flatten r.types root uid = .ok t ∧ t.records = m.records ∧
        t.path = none ∧ t.layers = [root.props] ∧ t.arrays = []) ∧
    (∀ depth e s t, StackWalk.visit r.types depth e s = .ok t →
      t.path = s.path ∧ t.layers = s.layers ∧ t.arrays = s.arrays) ∧
    ∃ enums bitfields typedefs, d.declared .enums Declaration.enum? = .ok enums ∧
      d.declared .bitfields Declaration.bitfield? = .ok bitfields ∧
      d.declared .typedefs Declaration.typedef? = .ok typedefs ∧ r.TakesKeys enums bitfields typedefs := by
  obtain ⟨resolved, flat⟩ := flattened_in h
  obtain ⟨enums, bitfields, typedefs, henums, hbitfields, htypedefs, takes⟩ := flattened_keys h
  have keyed : r.types.Keyed := takes.keyed hd henums hbitfields htypedefs
  obtain ⟨root, uid, next, hroot, _, hwalk⟩ := flat m hm
  obtain ⟨tour, htour, layered⟩ := Walk.flatten_layered resolved keyed hroot hwalk
  obtain ⟨t, ht, records, _, path, layers, arrays⟩ :=
    StackWalk.flatten_mirrors (keyed.typedefs _ root hroot).1 hwalk
  refine ⟨⟨root, tour, hroot, htour, layered, uid, t, ht, records, path, layers, arrays⟩, ?_,
    enums, bitfields, typedefs, henums, hbitfields, htypedefs, takes⟩
  intro depth e s t hvisit
  obtain ⟨path, layers, arrays, _⟩ := StackWalk.visit_restores hvisit
  exact ⟨path, layers, arrays⟩

end Resolution

/-- Two cells, each of a mode and of a bitfield, with keys of their own on every level. -/
def Description.cells : Description where
  sections := [
    ("metadata", .object [("app_name", .string "board"), ("default_type", .string "uint8_t")]),
    ("enums", .object [("modes", .object [("elements", .array [.string "idle", .string "busy"]),
      ("group", .string "modes"), ("unit", .string "mode")])]),
    ("bitfields", .object [("flags", .object [("group", .string "flags"), ("elements", .array [
      .object [("name", .string "low"), ("bits", .ofNat 8), ("level", .ofNat 4)]])])]),
    ("typedefs", .object [
      ("cell", .object [("group", .string "cell"), ("level", .ofNat 3), ("elements", .array [
        .object [("name", .string "mode"), ("type", .string "modes"), ("group", .string "mode")],
        .object [("name", .string "state"), ("type", .string "flags")]])]),
      ("root", .object [("group", .string "root"), ("level", .ofNat 1), ("elements", .array [
        .object [("name", .string "cells"), ("type", .string "cell"), ("array_size", .ofNat 2),
          ("level", .ofNat 2)],
        .string "value"])])]),
    ("generated_maps", .object [("board", .object [("type", .string "root")])])]

namespace Resolution

def groupLevelUnit (r : Record) : List (Option Value) := ["group", "level", "unit"].map r.props.get?

theorem flattened_cells : (flattened .cells).error.isNone ∧
    (flattened .cells).state.maps.map (fun m => m.records.map groupLevelUnit) = [[
      [some (.string "mode"), some (.ofNat 3), some (.string "mode")],
      [some (.string "flags"), some (.ofNat 4), none],
      [some (.string "mode"), some (.ofNat 3), some (.string "mode")],
      [some (.string "flags"), some (.ofNat 4), none],
      [some (.string "root"), some (.ofNat 1), none]]] := by
  decide +kernel

theorem wellFormed_cells : Description.cells.WellFormed := by
  unfold Description.WellFormed
  decide +kernel

/-- The value behind the cells has nothing of what they have put on the stack. -/
theorem records_inherit_cells : ∃ r, flattened .cells = .done r ∧ Description.cells.WellFormed ∧ ∃ m ∈ r.maps,
    (m.records.map groupLevelUnit).getLast? = some [some (.string "root"), some (.ofNat 1), none] ∧
      ∃ root tour, r.typedefs.get? m.type = some root ∧ Tour r.types root.elements tour ∧
        List.Forall₂ (fun record route => record.Ends route ∧ record.Layered (root.props :: route.layers r.types))
          m.records tour := by
  obtain ⟨hnone, hkeys⟩ := flattened_cells
  have done := Outcome.eq_done_of_error_eq_none (Option.isNone_iff_eq_none.mp hnone)
  obtain ⟨m, hm, keys⟩ := List.map_eq_singleton_iff.mp hkeys
  have hmem : m ∈ (flattened .cells).state.maps := hm ▸ List.mem_singleton_self m
  obtain ⟨⟨root, tour, hroot, htour, layered, _⟩, _⟩ := records_inherit_layers wellFormed_cells done hmem
  exact ⟨_, done, wellFormed_cells, m, hmem, keys ▸ rfl, root, tour, hroot, htour, layered⟩

end Resolution

end AddressMap
