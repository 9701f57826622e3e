import AddressMap.Proofs.Record.Inheritance
import AddressMap.Proofs.Record.Patch
import AddressMap.Proofs.View.Record

set_option autoImplicit false

namespace AddressMap

variable {patterns : PatternReader}

open Override (isComputed)

namespace Record

/-- The free keys of a record that lie over computed ones. -/
def shadow (r : Record) : Props := r.props.only isComputed

/-- What a record publishes under computed keys, if these are the layers on its route. -/
structure Shows (r : Record) (layers : List Props) : Prop where
  /-- The value of the topmost layer with the key, and the computed one only where no layer has the key. -/
  value : ∀ key, isComputed key → r.toProps.get? key = (Entries.topmost layers key).or (r.computed.get? key)
  /-- That is the computed one exactly if no layer has another value on top. -/
  faithful : ∀ key, isComputed key → (r.toProps.get? key = r.computed.get? key ↔
    ∀ v, Entries.topmost layers key = some v → r.computed.get? key = some v)

theorem shows_of_shadow {r : Record} {layers : List Props} (hkeys : r.shadow.keys.Nodup)
    (h : ∀ key, isComputed key → r.shadow.get? key = Entries.topmost layers key) : r.Shows layers := by
  have value : ∀ key, isComputed key →
      r.toProps.get? key = (Entries.topmost layers key).or (r.computed.get? key) := by
    intro key hkey
    have kept : ∀ es : Props, (es.only isComputed).get? key = es.get? key := fun es =>
      Entries.get?_filter es isComputed hkey
    have merged := Entries.get?_merge (r.computed.only isComputed) hkeys key
    rw [kept r.computed] at merged
    rw [← h key hkey, ← kept r.toProps, toProps_eq, Entries.only_merge]
    exact merged
  refine ⟨value, fun key hkey => ?_⟩
  rw [value key hkey]
  cases Entries.topmost layers key with
  | none => simp
  | some v => simp [eq_comm]

end Record

/-- The keys at the end of a route are distinct if those of the root are. -/
theorem Route.inherited_keyed (table : TypeTable) {props : Props} (h : props.keys.Nodup) (route : Route) :
    (route.inherited table props).keys.Nodup := by
  unfold inherited
  induction route.layers table generalizing props with
  | nil => exact h
  | cons layer rest ih => exact ih (Entries.nodup_keys_merge h layer)

def Route.shadow (table : TypeTable) (props : Props) (route : Route) : Props :=
  (route.inherited table props).only isComputed

/-- A record with the shadow of a route shows the layers on the route. -/
theorem Record.shows_of_route {table : TypeTable} {props : Props} (hprops : props.keys.Nodup) {route : Route}
    (hlayers : ∀ layer ∈ route.layers table, layer.keys.Nodup) {r : Record} (h : r.shadow = route.shadow table props) :
    r.Shows (props :: route.layers table) := by
  refine shows_of_shadow ?_ fun key hkey => ?_
  · rw [h]
    exact (route.inherited_keyed table hprops).sublist (List.filter_sublist.map _)
  · rw [h]
    exact (Entries.get?_filter _ isComputed hkey).trans (Entries.get?_foldl_merge props hlayers key)

def Record.footing (r : Record) : Placement × Props := (r.placement, r.shadow)

namespace Walk

theorem flatten_inherited {table : TypeTable} {root : Typedef} {tour : List Route} {uid next : Nat} {rs : List Record}
    (htour : Tour table root.elements tour) (h : flatten table root uid = .ok (rs, next)) :
    rs.map (·.props) = tour.map (Route.inherited table root.props) := by
  obtain ⟨⟨records, c⟩, hwalk, heq⟩ := map_eq_ok.mp h
  cases heq
  exact sequence_yields htour _ _ _ _ _ hwalk

/-- Records on the footings of a walk lie at the end of its routes, with their shadows. -/
theorem flatten_footings {table : TypeTable} (ht : table.Resolved) {name : String} {root : Typedef}
    (hroot : table.typedefs.get? name = some root) {uid next : Nat} {walked rs : List Record}
    (h : flatten table root uid = .ok (walked, next)) (same : rs.map Record.footing = walked.map Record.footing) :
    ∃ tour, Tour table root.elements tour ∧ List.Forall₂ Record.Ends rs tour ∧
      rs.map Record.shadow = tour.map (Route.shadow table root.props) := by
  obtain ⟨tour, htour, hends⟩ := flatten_tour ht hroot h
  have placements := congrArg (List.map Prod.fst) same
  have shadows := congrArg (List.map Prod.snd) same
  have inherited := congrArg (List.map fun es => Entries.only es isComputed) (flatten_inherited htour h)
  rw [List.map_map, List.map_map] at placements shadows inherited
  exact ⟨tour, htour, ends_of_placements placements hends, shadows.trans inherited⟩

end Walk

def FlatMap.footings (m : FlatMap) : String × List (Placement × Props) := (m.type, m.records.map Record.footing)

namespace Override

theorem patchRecord_footing {e : Entry} (h : ∀ k ∈ e.changes.keys, isComputed k = false) (r : Record) :
    (e.patchRecord r).footing = r.footing := by
  refine Prod.ext (patchRecord_placement e r) ?_
  change (e.patchRecord r).shadow = r.shadow
  unfold Entry.patchRecord
  split
  · exact patch_only h r
  · rfl

theorem applyAll_footings {defaultMap : Option String} {maps maps' : List FlatMap} {es : Props}
    (h : applyAll patterns defaultMap maps es = .done maps') :
    maps'.map FlatMap.footings = maps.map FlatMap.footings := by
  refine applyAll_map (fun key v e he m => ?_) h
  obtain ⟨_, _, _, _, free, _, _⟩ := read_eq_ok.mp he
  simp only [FlatMap.footings, Entry.applyTo, List.map_map, Function.comp_def, patchRecord_footing free]

end Override

namespace LoopNest

theorem mem_fold_view {α : Type} {view : Record → α}
    (h : ∀ (r : Record) (name : String) (loopOffset : Option String) (loops : List LoopLevel),
      view { r with name, loopOffset, loops } = view r)
    {rs : List Record} {s : Record} (hs : s ∈ fold rs) : ∃ r ∈ rs, view s = view r := by
  have marked : ∀ (before : Option Record) (ss : List Record), (markAll before ss).map view = ss.map view := by
    intro before ss
    induction ss generalizing before with
    | nil => rfl
    | cons r rest ih =>
      rw [markAll, List.map_cons, List.map_cons, ih]
      exact congrArg (· :: rest.map view) (h r r.name r.loopOffset _)
  have hmem : view s ∈ (fold rs).map view := List.mem_map_of_mem hs
  rw [fold, marked, List.map_map] at hmem
  obtain ⟨r, hr, heq⟩ := List.mem_map.mp hmem
  exact ⟨r, List.mem_of_mem_filter hr, heq.symm.trans (h r _ _ _)⟩

theorem mem_fold_shadow {rs : List Record} {s : Record} (h : s ∈ fold rs) : ∃ r ∈ rs, s.shadow = r.shadow :=
  mem_fold_view (fun _ _ _ _ => rfl) h

end LoopNest

namespace Resolution

theorem finishRecords_footings {users : Entries Nat} {env : Env} {maps maps' : List FlatMap}
    (h : finishAll (finishMap users env) maps = .done maps') :
    maps'.map FlatMap.footings = maps.map FlatMap.footings := by
  refine finishAll_map (fun m m' hm => ?_) h
  obtain ⟨rs, hrs, rfl⟩ := finishMap_eq_done hm
  have same : rs.map Record.footing = m.records.map Record.footing := by
    refine finishAll_map (fun s t hst => ?_) hrs
    obtain ⟨_, _, _, _, _, _, rfl⟩ := finishRecord_eq_done hst
    rfl
  simp only [FlatMap.footings, same]

/-- The maps of the result have the footings that the walks have given them. -/
theorem resolve_footings {d : Description} {c : ResolvedMap} (h : resolve d patterns = .ok c) :
    ∃ r, flattened d = .done r ∧ c.maps.map FlatMap.footings = r.maps.map FlatMap.footings ∧
      ∀ m ∈ c.maps, m.folded = LoopNest.fold m.records := by
  obtain ⟨r₈, r₉, hdone, hprint, rfl⟩ := resolve_eq_ok.mp h
  rw [finished_eq] at hdone
  obtain ⟨r₇, hdone, h₈⟩ := Outcome.andThen_eq_done.mp hdone
  obtain ⟨r₆, hflat, h₇⟩ := Outcome.andThen_eq_done.mp hdone
  obtain ⟨overridden, hover, rfl⟩ := addOverrides_eq_done h₇
  obtain ⟨finished, hfin, rfl⟩ := finishRecords_eq_done h₈
  obtain ⟨_, _, rfl⟩ := addFingerprints_eq_done hprint
  refine ⟨r₆, hflat, ?_, (finishRecords_frame hfin).2⟩
  exact (finishRecords_footings hfin).trans (Override.applyAll_footings hover)

/-- Every record, folded or not, shows the layers on its route. -/
theorem records_show_layers {d : Description} (hd : d.WellFormed) {c : ResolvedMap} (h : resolve d patterns = .ok c) :
    ∃ r, flattened d = .done r ∧ ∀ m ∈ c.maps, ∃ root tour, r.typedefs.get? m.type = some root ∧
      Tour r.types root.elements tour ∧
      List.Forall₂ (fun record route => record.Ends route ∧ record.Shows (root.props :: route.layers r.types))
        m.records tour ∧
      ∀ record ∈ m.folded, ∃ route ∈ tour, record.Shows (root.props :: route.layers r.types) := by
  obtain ⟨r, hflat, footings, folds⟩ := resolve_footings h
  obtain ⟨resolved, flat⟩ := flattened_in hflat
  obtain ⟨enums, bitfields, typedefs, henums, hbitfields, htypedefs, takes⟩ := flattened_keys hflat
  have keyed : r.types.Keyed := takes.keyed hd henums hbitfields htypedefs
  refine ⟨r, hflat, fun m hm => ?_⟩
  obtain ⟨m', hm', same⟩ := List.mem_map.mp (footings ▸ List.mem_map_of_mem hm)
  have type : m'.type = m.type := congrArg Prod.fst same
  obtain ⟨root, uid, next, hroot, _, hwalk⟩ := flat m' hm'
  have rootKeyed := keyed.typedefs _ root hroot
  obtain ⟨tour, htour, ends, shadows⟩ := Walk.flatten_footings resolved hroot hwalk (congrArg Prod.snd same).symm
  have shows : ∀ route ∈ tour, ∀ record : Record, record.shadow = route.shadow r.types root.props →
      record.Shows (root.props :: route.layers r.types) := fun route hroute record hrecord =>
    Record.shows_of_route rootKeyed.1 (keyed.layers rootKeyed.2 ((htour.mem_iff route).mp hroute)) hrecord
  refine ⟨root, tour, type ▸ hroot, htour, ?_, fun record hrecord => ?_⟩
  · refine List.forall₂_iff_zip.mpr ⟨ends.length_eq, fun {record route} hmem => ?_⟩
    exact ⟨List.forall₂_zip ends hmem,
      shows route (List.of_mem_zip hmem).2 record (List.forall₂_zip (forall₂_of_views shadows) hmem)⟩
  · rw [folds m hm] at hrecord
    obtain ⟨source, hsource, heq⟩ := LoopNest.mem_fold_shadow hrecord
    obtain ⟨route, hroute, hshadow⟩ := List.mem_map.mp (shadows ▸ List.mem_map_of_mem hsource)
    exact ⟨route, hroute, shows route hroute record (heq.trans hshadow.symm)⟩

end Resolution

/-- Two bytes, one of them with a free key of the name under which its size is published. -/
def Description.mislabeled : Description where
  sections := [
    ("metadata", .object [("app_name", .string "board"), ("default_type", .string "uint8_t")]),
    ("typedefs", .object [("root", .object [("elements", .array [
      .object [("name", .string "level"), ("resolved_type_size", .ofNat 9)], .string "mode"])])]),
    ("generated_maps", .object [("board", .object [("type", .string "root")])])]

namespace Resolution

def sizes (r : Record) : Option Value × Option Value :=
  (r.computed.get? "resolved_type_size", r.toProps.get? "resolved_type_size")

theorem finished_mislabeled : (finished .mislabeled).error.isNone ∧ (finished .mislabeled).state.metadata.isSome ∧
    (finished .mislabeled).state.maps.map (fun m => m.records.map sizes) =
      [[(some (.ofNat 1), some (.ofNat 9)), (some (.ofNat 1), some (.ofNat 1))]] := by
  decide +kernel

theorem wellFormed_mislabeled : Description.mislabeled.WellFormed := by
  unfold Description.WellFormed
  decide +kernel

/-- The first record publishes the free key, the second one what was computed. -/
theorem records_show_mislabeled : ∃ c, resolve .mislabeled = .ok c ∧ Description.mislabeled.WellFormed ∧
    ∃ m ∈ c.maps, m.records.map sizes = [(some (.ofNat 1), some (.ofNat 9)), (some (.ofNat 1), some (.ofNat 1))] ∧
      ∃ r root tour, flattened .mislabeled = .done r ∧ r.typedefs.get? m.type = some root ∧
        Tour r.types root.elements tour ∧ List.Forall₂ (fun record route =>
          record.Ends route ∧ record.Shows (root.props :: route.layers r.types)) m.records tour := by
  obtain ⟨hnone, hmeta, hsizes⟩ := finished_mislabeled
  obtain ⟨c, _, hc, heq⟩ := resolves_of_finished hnone hmeta
  have listed : c.maps.map (fun m => m.records.map sizes) =
      [[(some (.ofNat 1), some (.ofNat 9)), (some (.ofNat 1), some (.ofNat 1))]] := by
    rw [heq]
    exact hsizes
  obtain ⟨m, hm, records⟩ := List.map_eq_singleton_iff.mp listed
  have hmem : m ∈ c.maps := hm ▸ List.mem_singleton_self m
  obtain ⟨r, hflat, shows⟩ := records_show_layers wellFormed_mislabeled hc
  obtain ⟨root, tour, hroot, htour, layered, _⟩ := shows m hmem
  exact ⟨c, hc, wellFormed_mislabeled, m, hmem, records, r, root, tour, hflat, hroot, htour, layered⟩

end Resolution

end AddressMap
