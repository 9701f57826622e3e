import AddressMap.Proofs.Record.Identity
import AddressMap.Proofs.Record.Report

set_option autoImplicit false

namespace AddressMap

variable {patterns : PatternReader}

def Element.shape (e : Element) : Shape :=
  .item {
    type := e.type
    arraySize := e.arraySize
    enumName := e.enumName
    itemType := e.itemType
    totalSize := e.size
    offset := e.offset
    count := e.count }

def BitfieldMember.shape (m : BitfieldMember) : Shape := .bits ⟨m.bits, m.width, m.offset⟩

namespace Route

def shape? (route : Route) : Option Shape :=
  match route.member with
  | some m => some m.shape
  | none => route.hops.getLast?.map fun h => h.element.shape

def itemIndex? (route : Route) : Option Nat :=
  match route.member with
  | some _ => none
  | none => route.hops.getLast?.bind fun h => h.element.count.map fun _ => h.index

def toItem (hops : List Hop) (e : Element) (i : Nat) : Route := ⟨hops ++ [⟨e, i⟩], none⟩

theorem itemIndex?_toItem (hops : List Hop) (e : Element) (i : Nat) :
    (toItem hops e i).itemIndex? = e.count.map fun _ => i := by
  simp [itemIndex?, toItem]

theorem shape?_behind {route : Route} (h : route.hops ≠ []) (hop : Hop) :
    (route.behind [hop]).shape? = route.shape? := by
  obtain ⟨first, rest, hhops⟩ := List.exists_cons_of_ne_nil h
  simp [shape?, behind, hhops]

theorem behind_toItem (hop : Hop) (hops : List Hop) (e : Element) (i : Nat) :
    (toItem hops e i).behind [hop] = toItem (hop :: hops) e i := rfl

end Route

section Routes

variable {table : TypeTable} {es : List Element}

theorem Reaches.hops_ne_nil {route : Route} (h : Reaches table es route) : route.hops ≠ [] := by
  cases h <;> exact List.cons_ne_nil _ _

theorem Reaches.item_or_member {route : Route} (h : Reaches table es route) :
    route.member.isSome ∨ ∃ hops e i, route = .toItem hops e i ∧ i ∈ e.indices := by
  induction h with
  | @item es e i _ hi _ => exact .inr ⟨[], e, i, rfl, hi⟩
  | bits _ _ _ _ _ => exact .inl rfl
  | @typedef es e i name t route _ _ _ _ _ ih =>
    rcases ih with hmember | ⟨hops, e', i', rfl, hi'⟩
    · exact .inl hmember
    · exact .inr ⟨⟨e, i⟩ :: hops, e', i', Route.behind_toItem _ _ _ _, hi'⟩

theorem Reaches.sibling {hops : List Hop} {e : Element} {i j : Nat} (h : Reaches table es (.toItem hops e i))
    (hj : j ∈ e.indices) : Reaches table es (.toItem hops e j) := by
  induction hops generalizing es with
  | nil =>
    generalize hroute : Route.toItem [] e i = route at h
    cases h with
    | item he _ hk =>
      cases hroute
      exact .item he hj hk
    | bits _ _ _ _ _ => cases hroute
    | typedef _ _ _ _ inner =>
      -- There is nothing behind the only hop.
      exact absurd (List.cons.inj (congrArg Route.hops hroute)).2.symm inner.hops_ne_nil
  | cons hop hops ih =>
    generalize hroute : Route.toItem (hop :: hops) e i = route at h
    cases h with
    | item _ _ _ =>
      have short := congrArg List.length (congrArg Route.hops hroute)
      simp [Route.toItem] at short
    | bits _ _ _ _ _ => cases (congrArg Route.member hroute : none = some _)
    | @typedef _ f k _ _ inner hf hk hkind ht hinner =>
      obtain ⟨rfl, rfl⟩ : hop = ⟨f, k⟩ ∧ inner = .toItem hops e i := by
        obtain ⟨hhop, hrest⟩ := List.cons.inj (congrArg Route.hops hroute)
        obtain ⟨_, member⟩ := inner
        cases (congrArg Route.member hroute : none = member)
        exact ⟨hhop, congrArg (Route.mk · none) hrest.symm⟩
      rw [← Route.behind_toItem]
      exact .typedef hf hk hkind ht (ih hinner)

theorem Reaches.itemIndex?_eq {route : Route} (h : Reaches table es route) {i : Nat} (hi : route.itemIndex? = some i) :
    ∃ hops e size, route = .toItem hops e i ∧ e.count = some size ∧ i < size := by
  rcases h.item_or_member with hmember | ⟨hops, e, j, rfl, hj⟩
  · obtain ⟨m, hm⟩ := Option.isSome_iff_exists.mp hmember
    simp [Route.itemIndex?, hm] at hi
  · rw [Route.itemIndex?_toItem] at hi
    obtain ⟨size, hcount, rfl⟩ := Option.map_eq_some_iff.mp hi
    exact ⟨hops, e, size, rfl, hcount, by simpa [Element.indices, hcount] using hj⟩

end Routes

theorem Walk.shapes (table : TypeTable) : Reports table (fun r => some r.shape) fun _ => Route.shape? where
  item _ _ _ := by
    intro c rs c' h
    cases h
    rfl
  bits _ _ _ _ _ _ := by
    intro c rs c' h
    cases h
    rw [List.map_map]
    rfl
  typedef _ _ _ _ _ hroute := Route.shape?_behind hroute.hops_ne_nil _

namespace Resolution

variable {d : Description} {c : ResolvedMap} {m : FlatMap}

/-- The records of a map end the tour of its root, each with the shape of what its route leads to. -/
theorem records_shaped (h : resolve d patterns = .ok c) (hm : m ∈ c.maps) : ∃ root tour,
    c.typedefs.get? m.type = some root ∧ Tour c.types root.elements tour ∧ (tour.map Route.marks).Nodup ∧
      List.Forall₂ Record.Ends m.records tour ∧ m.records.map (fun r => some r.shape) = tour.map Route.shape? := by
  obtain ⟨table, walked⟩ := resolve_walkedFrom h
  obtain ⟨_, typedefs, bitfields⟩ := resolve_found h
  obtain ⟨root, records, uid, next, hroot, _, hflat, hplace⟩ := walked.walked m hm
  obtain ⟨tour, htour, hends⟩ := Walk.flatten_tour walked.resolved hroot hflat
  have published : Tour c.types root.elements tour :=
    htour.extend (fun name t ht => typedefs name t (walked.typedefs name t ht))
      fun name b hb => bitfields name b (walked.bitfields name b hb)
  have found : c.typedefs.get? m.type = some root := typedefs _ _ (walked.typedefs _ _ hroot)
  have distinct := types_distinct h
  obtain ⟨⟨_, last⟩, hwalk, heq⟩ := map_eq_ok.mp hflat
  cases heq
  have shapes := Walk.sequence_reports (Walk.shapes table) htour _ _ _ _ _ hwalk
  have same := congrArg (List.map fun p : Placement => some p.shape) hplace
  rw [List.map_map, List.map_map] at same
  exact ⟨root, tour, found, published, published.nodup_marks distinct (distinct.elements _ root found),
    ends_of_placements hplace hends, same.trans shapes⟩

end Resolution

end AddressMap
