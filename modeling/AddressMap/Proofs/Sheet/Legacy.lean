import AddressMap.Proofs.Entries.Layer
import AddressMap.Proofs.Record.Shape
import AddressMap.Proofs.Sheet.Reading
import AddressMap.Proofs.Value.Number

set_option autoImplicit false

namespace AddressMap

variable {patterns : PatternReader}

theorem Sheet.arrayName?_eq_some {name base : String} : arrayName? name = some base ↔ name = base ++ "[0]" := by
  have chars : name = base ++ "[0]" ↔ name.toList.reverse = ']' :: '0' :: '[' :: base.toList.reverse := by
    rw [← String.toList_inj, ← List.reverse_inj, String.toList_append, List.reverse_append]
    rfl
  rw [chars, arrayName?]
  split
  · rename_i rest hrest
    rw [hrest, Option.some.injEq, ← String.toList_inj, String.toList_ofList, ← List.reverse_inj, List.reverse_reverse]
    simp
  · rename_i hother
    refine ⟨nofun, fun heq => absurd heq (hother base.toList.reverse)⟩

/-- Of all indices only that of the first item ends a name like an index of a first item. -/
theorem Sheet.arrayName?_index {stem base : String} {i : Nat} (h : s!"{stem}[{i}]" = base ++ "[0]") : i = 0 := by
  have digits : ∀ c ∈ (toString i).toList.reverse, (c != '[') = true := by
    intro c hc
    have digit := mem_toString_nat (List.mem_reverse.mp hc)
    refine bne_iff_ne.mpr fun heq => ?_
    rw [heq] at digit
    exact absurd digit (by decide)
  have chars := congrArg String.toList h
  rw [show (s!"{stem}[{i}]" : String).toList = _ from Mark.toList_text_some stem i, String.toList_append] at chars
  -- Read backwards, the digits go up to the bracket, and so does the zero.
  have ends : ']' :: ((toString i).toList.reverse ++ '[' :: stem.toList.reverse) =
      ']' :: (['0'] ++ '[' :: base.toList.reverse) := by
    simpa using congrArg List.reverse chars
  have single : ∀ c ∈ ['0'], (c != '[') = true := by simp
  have stop : ∀ cs : List Char, ('[' :: cs).takeWhile (· != '[') = [] := fun _ => rfl
  have zero := congrArg (List.takeWhile (· != '[')) (List.cons.inj ends).2
  rw [List.takeWhile_append_of_pos digits, List.takeWhile_append_of_pos single, stop, stop, List.append_nil,
    List.append_nil] at zero
  have printed : toString i = Nat.repr 0 := by
    apply String.toList_inj.mp
    rw [← List.reverse_reverse (toString i).toList, zero]
    rfl
  exact toString_nat_injective printed

/-- Whether the route ends elsewhere than in a later item of an array. -/
def Route.listed (route : Route) : Bool := route.itemIndex?.all (· == 0)

theorem Route.name_toItem (hops : List Hop) {e : Element} {size : Nat} (h : e.count = some size) (i : Nat) :
    ∃ stem : String, (toItem hops e i).name = s!"{stem}[{i}]" := by
  have last : Hop.name ⟨e, i⟩ = s!"{e.name}[{i}]" := by simp [Hop.name, h]
  unfold Route.name toItem
  rw [List.map_append, Option.toList_none, List.map_nil, List.append_nil, List.map_singleton, last]
  by_cases hhops : hops = []
  · exact ⟨e.name, by simp [hhops]⟩
  · rw [String.intercalate_append_of_ne_nil (by simpa using hhops) (List.cons_ne_nil _ _),
      String.intercalate_singleton]
    refine ⟨".".intercalate (hops.map Hop.name) ++ "." ++ e.name, ?_⟩
    simp [toString, String.append_assoc]

namespace Sheet

def legacyKeys : List String :=
  ["map_offset", "resolved_total_size", "resolved_type_size", "type", "description", "resolved_access",
    "resolved_array_size", "resolved_bit_offset", "resolved_bits", "default", "flag", "max", "min"]

theorem cell_getD_null (v : Option Value) : cell (some (v.getD .null)) = cell v := by
  cases v <;> rfl

theorem cellsOf_legacyRenamed (es : Props) :
    cellsOf legacyColumns (legacyRenamed es) = cellsOf ("name" :: legacyKeys) es := by
  simp [cellsOf, legacyColumns, legacyKeys, legacyRenamed, legacyRenames, Entries.get?_set, cell_getD_null]

theorem cellsOf_legacyNamed (es : Props) (name : String) :
    cellsOf legacyColumns ((legacyRenamed es).set "name" (.string name)) = name :: cellsOf legacyKeys es := by
  have named : cell (some (.string name)) = name := rfl
  simp [cellsOf, legacyColumns, legacyKeys, legacyRenamed, legacyRenames, Entries.get?_set, cell_getD_null, named]

/-- The row of a record that is no item of an array, or of the first item of one. -/
inductive LegacyRow (r : Record) (route : Route) : List String → Prop
  | own (h : route.itemIndex? = none) : LegacyRow r route (cellsOf ("name" :: legacyKeys) r.toProps)
  | first {name : String} (h : route.itemIndex? = some 0) (hname : r.name = name ++ "[0]") :
    LegacyRow r route (name :: cellsOf legacyKeys r.toProps)

/-- An array size is that of an array around the record itself, with at least the item of the record in it. -/
theorem counted_iff {table : TypeTable} {es : List Element} {r : Record} {route : Route}
    (hshape : some r.shape = route.shape?) (h : Reaches table es route) :
    0 < ((r.item?.bind (·.count)).getD 0) ↔ route.itemIndex?.isSome := by
  rcases h.item_or_member with hmember | ⟨hops, e, i, rfl, hi⟩
  · obtain ⟨m, hm⟩ := Option.isSome_iff_exists.mp hmember
    have bits : r.shape = m.shape := by simpa [Route.shape?, hm] using hshape
    simp [Record.item?, bits, BitfieldMember.shape, Route.itemIndex?, hm]
  · have item : r.shape = e.shape := by simpa [Route.shape?, Route.toItem] using hshape
    have count : r.item?.bind (·.count) = e.count := by simp [Record.item?, item, Element.shape]
    rw [count, Route.itemIndex?_toItem, Option.isSome_map]
    cases hcount : e.count with
    | none => simp
    | some size =>
      have inside : i < size := by simpa [Element.indices, hcount] using hi
      simpa using Nat.zero_lt_of_lt inside

section Rows

variable {table : TypeTable} {es : List Element} {r : Record} {route : Route}

theorem legacyRow_of_listed (hends : r.Ends route) (hshape : some r.shape = route.shape?)
    (h : Reaches table es route) (hlisted : route.listed) :
    ∃ object, legacyRow r = some object ∧ LegacyRow r route (cellsOf legacyColumns object) := by
  unfold legacyRow
  dsimp only
  cases hindex : route.itemIndex? with
  | none =>
    rw [if_neg fun hcount => by simpa [hindex] using (counted_iff hshape h).mp hcount]
    exact ⟨_, rfl, cellsOf_legacyRenamed r.toProps ▸ .own hindex⟩
  | some i =>
    obtain rfl : i = 0 := by simpa [Route.listed, hindex] using hlisted
    obtain ⟨hops, e, size, rfl, hcount, _⟩ := h.itemIndex?_eq hindex
    obtain ⟨stem, hstem⟩ := Route.name_toItem hops hcount 0
    have hname : r.name = stem ++ "[0]" := by
      rw [hends.name, hstem, String.append_assoc, String.append_assoc]
      rfl
    rw [if_pos ((counted_iff hshape h).mpr (by simp [hindex])), arrayName?_eq_some.mpr hname]
    exact ⟨_, rfl, cellsOf_legacyNamed r.toProps stem ▸ .first hindex hname⟩

theorem legacyRow_of_not_listed (hends : r.Ends route) (hshape : some r.shape = route.shape?)
    (h : Reaches table es route) (hlisted : route.listed = false) : legacyRow r = none := by
  unfold legacyRow
  dsimp only
  cases hindex : route.itemIndex? with
  | none => simp [Route.listed, hindex] at hlisted
  | some i =>
    have later : i ≠ 0 := by simpa [Route.listed, hindex] using hlisted
    obtain ⟨hops, e, size, rfl, hcount, _⟩ := h.itemIndex?_eq hindex
    obtain ⟨stem, hstem⟩ := Route.name_toItem hops hcount i
    have unnamed : arrayName? r.name = none := by
      by_contra hsome
      obtain ⟨base, hbase⟩ := Option.ne_none_iff_exists'.mp hsome
      have same := arrayName?_eq_some.mp hbase
      rw [hends.name, hstem] at same
      exact later (arrayName?_index same)
    rw [if_pos ((counted_iff hshape h).mpr (by simp [hindex])), unnamed]
    rfl

end Rows

theorem legacyRows_of_tour {table : TypeTable} {es : List Element} {rs : List Record} {tour : List Route}
    (hends : List.Forall₂ Record.Ends rs tour) (hshapes : rs.map (fun r => some r.shape) = tour.map Route.shape?)
    (h : ∀ route ∈ tour, Reaches table es route) :
    List.Forall₂ (fun p cells => LegacyRow p.1 p.2 cells) ((rs.zip tour).filter fun p => p.2.listed)
      ((rs.filterMap legacyRow).map (cellsOf legacyColumns)) := by
  induction hends with
  | nil => exact .nil
  | @cons r route rs tour hend _ ih =>
    obtain ⟨hshape, hrest⟩ := List.cons.inj hshapes
    obtain ⟨hreach, hreaches⟩ := List.forall_mem_cons.mp h
    rw [List.zip_cons_cons, List.filter_cons, List.filterMap_cons]
    cases hlisted : route.listed with
    | false =>
      rw [legacyRow_of_not_listed hend hshape hreach hlisted]
      exact ih hrest hreaches
    | true =>
      obtain ⟨object, hrow, hcells⟩ := legacyRow_of_listed hend hshape hreach hlisted
      rw [hrow]
      exact .cons hcells (ih hrest hreaches)

theorem rows?_legacy (rs : List Record) :
    rows? (legacy rs) = some (legacyColumns :: (rs.filterMap legacyRow).map (cellsOf legacyColumns)) := by
  have header : shown legacyColumns = legacyColumns := shown_of_ne_nil (List.cons_ne_nil _ _)
  have data : ∀ es, shown (cellsOf legacyColumns es) = cellsOf legacyColumns es :=
    fun es => shown_of_ne_nil (List.cons_ne_nil _ _)
  rw [legacy, rows?_table, header, List.map_congr_left fun es _ => data es]

variable {d : Description} {c : ResolvedMap} {m : FlatMap}

/-- Behind its columns the sheet has a row for each record whose route is listed. Of the items of an array, whatever
    items the array itself is in, that is the first one and no other. -/
theorem legacy_folds_arrays (h : resolve d patterns = .ok c) (hm : m ∈ c.maps) : ∃ root tour rows,
    c.typedefs.get? m.type = some root ∧ tour.Nodup ∧
    (∀ route, route ∈ tour ↔ Reaches c.types root.elements route) ∧ List.Forall₂ Record.Ends m.records tour ∧
    rows? (legacy m.records) = some (legacyColumns :: rows) ∧
    List.Forall₂ (fun p cells => LegacyRow p.1 p.2 cells) ((m.records.zip tour).filter fun p => p.2.listed) rows ∧
    ∀ hops e i, e.count.isSome → Route.toItem hops e i ∈ tour →
      ∀ j, Route.toItem hops e j ∈ tour.filter Route.listed ↔ j = 0 := by
  obtain ⟨root, tour, hroot, htour, hmarks, hends, hshapes⟩ := Resolution.records_shaped h hm
  have reached := htour.mem_iff
  refine ⟨root, tour, _, hroot, hmarks.of_map _, reached, hends, rows?_legacy m.records,
    legacyRows_of_tour hends hshapes fun route hroute => (reached route).mp hroute, ?_⟩
  intro hops e i hcount hitem j
  obtain ⟨size, hsize⟩ := Option.isSome_iff_exists.mp hcount
  have index : ∀ k, (Route.toItem hops e k).listed ↔ k = 0 := by
    intro k
    simp [Route.listed, Route.itemIndex?_toItem, hsize]
  rw [List.mem_filter, index]
  refine and_iff_right_of_imp ?_
  rintro rfl
  have reach := (reached _).mp hitem
  have ends : (Route.toItem hops e i).itemIndex? = some i := by rw [Route.itemIndex?_toItem, hsize, Option.map_some]
  obtain ⟨_, _, _, heq, hcount', hlt⟩ := reach.itemIndex?_eq ends
  obtain ⟨-, hlast⟩ := List.append_inj' (congrArg Route.hops heq) rfl
  obtain ⟨rfl, -⟩ := Hop.mk.inj (List.cons.inj hlast).1
  have first : 0 ∈ e.indices := by simpa [Element.indices, hcount'] using Nat.zero_lt_of_lt hlt
  exact (reached _).mpr (reach.sibling first)

open Resolution in
theorem finished_pairs_rows : (finished .pairs).state.maps.map (fun m => (m.records.filterMap legacyRow).map fun row =>
    (cellsOf legacyColumns row).take 3) = [[
      ["pairs[0].state.mode", "0", ""], ["pairs[0].state.padding", "0", ""], ["pairs[0].values", "1", "2"],
      ["pairs[1].state.mode", "3", ""], ["pairs[1].state.padding", "3", ""], ["pairs[1].values", "4", "2"]]] := by
  decide +kernel

open Resolution in
/-- The two bytes of each pair have one row, the members of each bitfield one each. -/
theorem legacy_folds_pairs : ∃ c, resolve .pairs = .ok c ∧ ∃ m ∈ c.maps, ∃ root tour rows,
    c.typedefs.get? m.type = some root ∧ (∀ route, route ∈ tour ↔ Reaches c.types root.elements route) ∧
    rows? (legacy m.records) = some (legacyColumns :: rows) ∧
    List.Forall₂ (fun p cells => LegacyRow p.1 p.2 cells) ((m.records.zip tour).filter fun p => p.2.listed) rows ∧
    rows.map (·.take 3) = [
      ["pairs[0].state.mode", "0", ""], ["pairs[0].state.padding", "0", ""], ["pairs[0].values", "1", "2"],
      ["pairs[1].state.mode", "3", ""], ["pairs[1].state.padding", "3", ""], ["pairs[1].values", "4", "2"]] := by
  obtain ⟨hnone, hmeta, _⟩ := finished_pairs
  obtain ⟨c, metadata, hc, rfl⟩ := resolves_of_finished hnone hmeta
  obtain ⟨m, hm, hrows⟩ := List.map_eq_singleton_iff.mp finished_pairs_rows
  have hmem : m ∈ (finished .pairs).state.maps := by simp [hm]
  obtain ⟨root, tour, rows, hroot, _, reached, _, hread, listed, _⟩ := legacy_folds_arrays hc hmem
  refine ⟨_, hc, m, hmem, root, tour, rows, hroot, reached, hread, listed, ?_⟩
  rw [rows?_legacy] at hread
  rw [← (List.cons.inj (Option.some.inj hread)).2, List.map_map, ← hrows]
  rfl

end Sheet

end AddressMap
