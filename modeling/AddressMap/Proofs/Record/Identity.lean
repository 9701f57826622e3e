import AddressMap.Proofs.Record.Route
import AddressMap.Proofs.Resolution.Scope
import AddressMap.Proofs.Value.Number

set_option autoImplicit false

namespace AddressMap

variable {patterns : PatternReader}

/-- Neither a point nor an opening bracket is in the name. -/
def PlainName (name : String) : Prop := '.' ∉ name.toList ∧ '[' ∉ name.toList

/-- What a route prints of an element or a member: its name, and the index if it is an array. -/
abbrev Mark := String × Option Nat

def Mark.text : Mark → String
  | (name, none) => name
  | (name, some i) => s!"{name}[{i}]"

def Hop.mark (h : Hop) : Mark := (h.element.name, h.element.count.map fun _ => h.index)

def Route.marks (r : Route) : List Mark :=
  r.hops.map Hop.mark ++ r.member.toList.map fun m => (m.name, none)

theorem Hop.name_eq (h : Hop) : h.name = h.mark.text := by
  unfold Hop.name Hop.mark
  cases h.element.count <;> rfl

theorem Route.name_eq (r : Route) : r.name = ".".intercalate (r.marks.map Mark.text) := by
  have hops : r.hops.map Hop.name = (r.hops.map Hop.mark).map Mark.text := by
    rw [List.map_map]
    exact List.map_congr_left fun h _ => h.name_eq
  have member : r.member.toList.map (·.name) =
      (r.member.toList.map fun m => ((m.name, none) : Mark)).map Mark.text := by
    rw [List.map_map]
    rfl
  rw [Route.name, Route.marks, List.map_append, hops, member]

theorem Route.marks_behind (h : Hop) (r : Route) : (r.behind [h]).marks = h.mark :: r.marks := rfl

namespace Mark

theorem toList_text_some (name : String) (i : Nat) :
    (text (name, some i)).toList = name.toList ++ '[' :: ((toString i).toList ++ [']']) := by
  simp [text, String.toList_append, toString]

theorem not_point_text {mark : Mark} (h : PlainName mark.1) : '.' ∉ mark.text.toList := by
  obtain ⟨name, index⟩ := mark
  cases index with
  | none => exact h.1
  | some i =>
    have digits : '.' ∉ (toString i).toList := fun hin => absurd (mem_toString_nat hin) (by decide)
    rw [toList_text_some]
    simp only [List.mem_append, List.mem_cons, List.not_mem_nil, or_false, not_or]
    exact ⟨h.1, by decide, digits, by decide⟩

theorem text_injective {a b : Mark} (ha : PlainName a.1) (hb : PlainName b.1) (h : a.text = b.text) : a = b := by
  obtain ⟨name, index⟩ := a
  obtain ⟨name', index'⟩ := b
  have stem : ∀ {name : String} {rest : List Char}, '[' ∉ name.toList →
      (name.toList ++ '[' :: rest).takeWhile (· != '[') = name.toList ∧
        (name.toList ++ '[' :: rest).dropWhile (· != '[') = '[' :: rest := by
    intro name rest hname
    have passes : ∀ c ∈ name.toList, (c != '[') = true := fun c hc => by
      simpa using fun heq : c = '[' => hname (heq ▸ hc)
    rw [List.takeWhile_append_of_pos passes, List.dropWhile_append_of_pos passes]
    simp
  have chars := congrArg String.toList h
  cases index with
  | none =>
    cases index' with
    | none => exact Prod.ext h rfl
    | some j =>
      have bracket : '[' ∈ (text (name, none)).toList := by
        rw [chars, toList_text_some]
        simp
      exact absurd bracket ha.2
  | some i =>
    cases index' with
    | none =>
      have bracket : '[' ∈ (text (name', none)).toList := by
        rw [← chars, toList_text_some]
        simp
      exact absurd bracket hb.2
    | some j =>
      rw [toList_text_some, toList_text_some] at chars
      have names := congrArg (List.takeWhile (· != '[')) chars
      have indices := congrArg (List.dropWhile (· != '[')) chars
      rw [(stem ha.2).1, (stem hb.2).1] at names
      rw [(stem ha.2).2, (stem hb.2).2] at indices
      have digits := String.toList_inj.mp (List.append_cancel_right (List.cons.inj indices).2)
      exact Prod.ext (String.toList_inj.mp names) (congrArg some (toString_nat_injective digits))

end Mark

/-- A route of plain names can be read off its print. -/
theorem Route.marks_eq_of_name {r s : Route} (hr : ∀ mark ∈ r.marks, PlainName mark.1)
    (hs : ∀ mark ∈ s.marks, PlainName mark.1) (hr' : r.marks ≠ []) (hs' : s.marks ≠ []) (h : r.name = s.name) :
    r.marks = s.marks := by
  have parts : ∀ {route : Route}, (∀ mark ∈ route.marks, PlainName mark.1) → route.marks ≠ [] →
      route.name.toList.splitOn '.' = route.marks.map fun mark => mark.text.toList := by
    intro route plain hne
    rw [Route.name_eq, String.toList_intercalate, List.map_map]
    refine List.splitOn_intercalate '.' ?_ (by simpa using hne)
    intro part hpart
    obtain ⟨mark, hmark, rfl⟩ := List.mem_map.mp hpart
    exact Mark.not_point_text (plain mark hmark)
  have texts := (parts hr hr').symm.trans ((congrArg (·.toList.splitOn '.') h).trans (parts hs hs'))
  refine List.ext_getElem (by simpa using congrArg List.length texts) fun i hi hi' => ?_
  have text : r.marks[i].text.toList = s.marks[i].text.toList := by
    have same := List.getElem_of_eq texts (by simpa using hi)
    rwa [List.getElem_map, List.getElem_map] at same
  exact Mark.text_injective (hr _ (List.getElem_mem hi)) (hs _ (List.getElem_mem hi')) (String.toList_inj.mp text)

structure TypeTable.Distinct (table : TypeTable) : Prop where
  elements : ∀ name t, table.typedefs.get? name = some t → (t.elements.map (·.name)).Nodup
  members : ∀ name b, table.bitfields.get? name = some b → (b.members.map (·.name)).Nodup

namespace Element

variable {e : Element} {within : Nat → List Route}

theorem marks_of_mem_routes {route : Route} (h : route ∈ e.routes within) :
    ∃ index rest, route.marks = (e.name, index) :: rest := by
  obtain ⟨i, _, inner, _, rfl⟩ := mem_routes.mp h
  exact ⟨_, _, Route.marks_behind ⟨e, i⟩ inner⟩

/-- The items of an array are told apart by their indices. -/
theorem nodup_marks_routes (h : ∀ i ∈ e.indices, ((within i).map Route.marks).Nodup) :
    ((e.routes within).map Route.marks).Nodup := by
  have indices : e.indices.Pairwise fun i j => (Hop.mark ⟨e, i⟩) ≠ Hop.mark ⟨e, j⟩ := by
    simp only [indices, Hop.mark]
    cases e.count with
    | none => exact List.pairwise_singleton _ _
    | some size => exact List.nodup_range.imp fun hne heq => hne (Option.some.inj (Prod.mk.inj heq).2)
  have items : ∀ i, ((within i).map (Route.behind [⟨e, i⟩])).map Route.marks =
      ((within i).map Route.marks).map (Hop.mark ⟨e, i⟩ :: ·) := by
    intro i
    rw [List.map_map, List.map_map]
    exact List.map_congr_left fun inner _ => Route.marks_behind ⟨e, i⟩ inner
  rw [routes, List.map_flatMap, List.nodup_flatMap]
  constructor
  · intro i hi
    rw [items]
    exact (h i hi).map fun _ _ heq => (List.cons.inj heq).2
  · refine indices.imp fun hne => ?_
    show List.Disjoint _ _
    beta_reduce
    rw [items, items, List.disjoint_left]
    intro marks hi hj
    obtain ⟨_, _, rfl⟩ := List.mem_map.mp hi
    obtain ⟨_, _, heq⟩ := List.mem_map.mp hj
    exact hne (List.cons.inj heq).1.symm

end Element

section Tours

variable {table : TypeTable} {es : List Element} {tour : List Route}

theorem Reaches.marks {route : Route} (h : Reaches table es route) :
    ∃ e ∈ es, ∃ index rest, route.marks = (e.name, index) :: rest := by
  cases h with
  | item he _ _ => exact ⟨_, he, _, _, rfl⟩
  | bits he _ _ _ _ => exact ⟨_, he, _, _, rfl⟩
  | typedef he _ _ _ _ => exact ⟨_, he, _, _, rfl⟩

theorem Reaches.names {P : String → Prop} {route : Route} (h : Reaches table es route) (hes : ∀ e ∈ es, P e.name)
    (elements : ∀ name t, table.typedefs.get? name = some t → ∀ e ∈ t.elements, P e.name)
    (members : ∀ name b, table.bitfields.get? name = some b → ∀ m ∈ b.members, P m.name) :
    ∀ mark ∈ route.marks, P mark.1 := by
  induction h with
  | item he _ _ => exact List.forall_mem_singleton.mpr (hes _ he)
  | bits he _ _ hb hm =>
    exact List.forall_mem_cons.mpr ⟨hes _ he, List.forall_mem_singleton.mpr (members _ _ hb _ hm)⟩
  | typedef he _ _ hget _ ih => exact List.forall_mem_cons.mpr ⟨hes _ he, ih (elements _ _ hget)⟩

theorem nodup_marks_append {e : Element} {within : Nat → List Route} (hes : ((e :: es).map (·.name)).Nodup)
    (hrest : Tour table es tour) (hwithin : ∀ i ∈ e.indices, ((within i).map Route.marks).Nodup)
    (hnodup : (tour.map Route.marks).Nodup) : ((e.routes within ++ tour).map Route.marks).Nodup := by
  rw [List.map_append]
  refine (Element.nodup_marks_routes hwithin).append hnodup (List.disjoint_left.mpr fun marks hfirst hlater => ?_)
  obtain ⟨route, hroute, rfl⟩ := List.mem_map.mp hfirst
  obtain ⟨other, hother, heq⟩ := List.mem_map.mp hlater
  obtain ⟨_, _, hmarks⟩ := Element.marks_of_mem_routes hroute
  obtain ⟨f, hf, _, _, hmarks'⟩ := ((hrest.mem_iff other).mp hother).marks
  rw [hmarks, hmarks'] at heq
  have name : f.name = e.name := (Prod.mk.inj (List.cons.inj heq).1).1
  exact (List.nodup_cons.mp hes).1 (List.mem_map.mpr ⟨f, hf, name⟩)

/-- No route is taken twice. -/
theorem Tour.nodup_marks (ht : table.Distinct) (h : Tour table es tour) (hes : (es.map (·.name)).Nodup) :
    (tour.map Route.marks).Nodup := by
  induction h with
  | nil => exact List.nodup_nil
  | item _ hrest ih =>
    refine nodup_marks_append hes hrest (fun _ _ => List.nodup_singleton _) (ih (List.nodup_cons.mp hes).2)
  | bits _ hb hrest ih =>
    refine nodup_marks_append hes hrest (fun _ _ => ?_) (ih (List.nodup_cons.mp hes).2)
    have members := (ht.members _ _ hb).map (f := fun name : String => [((name, none) : Mark)])
      fun _ _ heq => (Prod.mk.inj (List.cons.inj heq).1).1
    rw [List.map_map] at members ⊢
    exact members
  | typedef _ hget _ hrest ihwithin ih =>
    refine nodup_marks_append hes hrest (fun i hi => ?_) (ih (List.nodup_cons.mp hes).2)
    exact ihwithin i hi (ht.elements _ _ hget)

end Tours

namespace Override

theorem Selector.ofKey_exact {key : String} {selector : Selector} (h : ofKey patterns key = .ok selector)
    (hkey : patternText? key = none) : selector = .exact key := by
  rw [ofKey, hkey] at h
  cases h
  rfl

theorem read_selector {defaultMap : Option String} {key : String} {v : Value} {e : Entry}
    (h : read patterns defaultMap key v = .ok e) (hkey : patternText? key = none) : e.selector = .exact key := by
  cases v with
  | object es =>
    obtain ⟨_, _, h⟩ := bind_eq_ok.mp h
    dsimp only at h
    split at h
    · cases h
    · obtain ⟨selector, hselector, h⟩ := bind_eq_ok.mp h
      cases h
      exact Selector.ofKey_exact hselector hkey
  | _ => cases h

end Override

/-- The name of an element or of a member that is on a way to a record of the map. -/
def ResolvedMap.Uses (c : ResolvedMap) (m : FlatMap) (name : String) : Prop :=
  ∃ root route index, c.typedefs.get? m.type = some root ∧ Reaches c.types root.elements route ∧
    (name, index) ∈ route.marks

namespace Resolution

variable {d : Description} {c : ResolvedMap} {m : FlatMap}

theorem types_distinct (h : resolve d patterns = .ok c) : c.types.Distinct := by
  constructor
  · intro name t ht
    obtain ⟨s, table, published, _, _, laid, _⟩ := resolve_laid h
    obtain ⟨decl, _, hlayout⟩ := laid name t ((published.typedefs name t).mpr (Entries.mem_of_get? ht))
    obtain ⟨contents, size, _, _, hunique, rfl⟩ := Typedef.layout_eq_ok.mp hlayout
    exact checkUnique_eq_ok.mp hunique
  · intro name b hb
    obtain ⟨env, _, resolved⟩ := resolve_bitfields h
    obtain ⟨decl, hdecl⟩ := resolved name b (Entries.mem_of_get? hb)
    obtain ⟨_, _, _, _, _, _, hunique, rfl⟩ := Bitfield.resolve_eq_ok.mp hdecl
    exact checkUnique_eq_ok.mp hunique

theorem records_toured (h : resolve d patterns = .ok c) (hm : m ∈ c.maps) : ∃ root tour,
    c.typedefs.get? m.type = some root ∧ Tour c.types root.elements tour ∧
      List.Forall₂ Record.Ends m.records tour := by
  obtain ⟨table, walked⟩ := resolve_walkedFrom h
  obtain ⟨_, typedefs, bitfields⟩ := resolve_found h
  obtain ⟨root, records, uid, next, hroot, _, hflat, hplace⟩ := walked.walked m hm
  obtain ⟨tour, htour, hends⟩ := Walk.flatten_tour walked.resolved hroot hflat
  refine ⟨root, tour, typedefs _ _ (walked.typedefs _ _ hroot), ?_, ends_of_placements hplace hends⟩
  exact htour.extend (fun name t ht => typedefs name t (walked.typedefs name t ht))
    fun name b hb => bitfields name b (walked.bitfields name b hb)

/-- If all names on the way are plain, the records have different names. -/
theorem names_nodup (h : resolve d patterns = .ok c) (hm : m ∈ c.maps)
    (plain : ∀ name, c.Uses m name → PlainName name) :
    (m.records.map (·.name)).Nodup := by
  obtain ⟨root, tour, hroot, htour, hends⟩ := records_toured h hm
  have distinct := types_distinct h
  have marks := htour.nodup_marks distinct (distinct.elements _ root hroot)
  have names : m.records.map (·.name) = tour.map Route.name := by
    rw [← List.forall₂_eq_eq_eq, List.forall₂_map_left_iff, List.forall₂_map_right_iff]
    exact hends.imp fun _ _ hend => hend.name
  have used : ∀ route ∈ tour, (∀ mark ∈ route.marks, PlainName mark.1) ∧ route.marks ≠ [] := by
    intro route hroute
    have reached := (htour.mem_iff route).mp hroute
    refine ⟨fun mark hmark => plain _ ⟨root, route, mark.2, hroot, reached, hmark⟩, ?_⟩
    obtain ⟨_, _, _, _, hmarks⟩ := reached.marks
    rw [hmarks]
    exact List.cons_ne_nil _ _
  rw [names, List.nodup_iff_pairwise_ne, List.pairwise_map]
  refine (List.pairwise_map.mp marks).imp_of_mem fun hr hs hne hname => hne ?_
  exact Route.marks_eq_of_name (used _ hr).1 (used _ hs).1 (used _ hr).2 (used _ hs).2 hname

/-- Two records of a map can have the same name only if a name on the way to a record has a point or a bracket.
    Without such names, a key that is no pattern selects one record at most. -/
theorem records_identified (h : resolve d patterns = .ok c) (hm : m ∈ c.maps) :
    m.records.Pairwise (fun r s => r.name = s.name → ∃ name, c.Uses m name ∧ ¬PlainName name) ∧
      ((∀ name, c.Uses m name → PlainName name) → ∀ defaultMap key v e,
        Override.read patterns defaultMap key v = .ok e → Override.patternText? key = none →
          (m.records.filter fun r => e.selector.selects r.name).length ≤ 1) := by
  constructor
  · by_cases plain : ∀ name, c.Uses m name → PlainName name
    · exact (List.pairwise_map.mp (names_nodup h hm plain)).imp fun hne heq => absurd heq hne
    · simp only [not_forall, exists_prop] at plain
      exact List.pairwise_of_forall fun _ _ _ => plain
  · intro plain defaultMap key v e hread hkey
    have exact : (fun r : Record => e.selector.selects r.name) = fun r => key == r.name := by
      rw [Override.read_selector hread hkey]
      rfl
    have counted : (m.records.filter fun r => key == r.name).length = (m.records.map (·.name)).count key := by
      rw [List.count, List.countP_map, List.countP_eq_length_filter]
      exact congrArg List.length (List.filter_congr fun r _ => Bool.beq_comm)
    rw [exact, counted]
    exact List.nodup_iff_count_le_one.mp (names_nodup h hm plain) key

end Resolution

/-- The item of one element has the name of another element. -/
def Description.dotted : Description where
  sections := [
    ("metadata", .object [("app_name", .string "board"), ("default_type", .string "uint8_t")]),
    ("typedefs", .object [
      ("pair", .object [("elements", .array [.object [("name", .string "level")]])]),
      ("root", .object [("elements", .array [
        .object [("name", .string "tank"), ("type", .string "pair")],
        .object [("name", .string "tank.level")]])])]),
    ("generated_maps", .object [("board", .object [("type", .string "root")])])]

namespace Resolution

theorem finished_pairs_names :
    (finished .pairs).state.maps.map (fun m => m.records.map (·.name)) =
      [["pairs[0].state.mode", "pairs[0].state.padding", "pairs[0].values[0]", "pairs[0].values[1]",
        "pairs[1].state.mode", "pairs[1].state.padding", "pairs[1].values[0]", "pairs[1].values[1]"]] ∧
    (finished .pairs).state.typedefs.flatMap (fun t => t.2.elements.map (·.name)) =
      ["state", "values", "pairs"] ∧
    (finished .pairs).state.bitfields.flatMap (fun b => b.2.members.map (·.name)) = ["mode", "padding"] := by
  decide +kernel

theorem finished_dotted : (finished .dotted).error.isNone ∧ (finished .dotted).state.metadata.isSome ∧
    (finished .dotted).state.maps.map (fun m => m.records.map (·.name)) = [["tank.level", "tank.level"]] := by
  decide +kernel

theorem pairs_plain {c : ResolvedMap} (h : resolve .pairs = .ok c) (m : FlatMap) (name : String)
    (hname : c.Uses m name) : PlainName name := by
  obtain ⟨hnone, hmeta, _⟩ := finished_pairs
  obtain ⟨_, _, hc, rfl⟩ := resolves_of_finished hnone hmeta
  cases hc.symm.trans h
  obtain ⟨_, typedefs, bitfields⟩ := finished_pairs_names
  have plain : ∀ n ∈ ["state", "values", "pairs"] ++ ["mode", "padding"], PlainName n := by
    unfold PlainName
    decide
  have elements : ∀ n t, (finished .pairs).state.finish.typedefs.get? n = some t →
      ∀ e ∈ t.elements, PlainName e.name := by
    intro n t ht e he
    have listed := (mem_inOrder.mp (Entries.mem_of_get? ht)).2
    refine plain _ (List.mem_append_left _ (typedefs ▸ List.mem_flatMap.mpr ⟨_, Entries.mem_of_get? listed, ?_⟩))
    exact List.mem_map_of_mem he
  have members : ∀ n b, (finished .pairs).state.finish.bitfields.get? n = some b →
      ∀ f ∈ b.members, PlainName f.name := by
    intro n b hb f hf
    have listed := (mem_inOrder.mp (Entries.mem_of_get? hb)).2
    refine plain _ (List.mem_append_right _ (bitfields ▸ List.mem_flatMap.mpr ⟨_, Entries.mem_of_get? listed, ?_⟩))
    exact List.mem_map_of_mem hf
  obtain ⟨root, route, index, hroot, hroute, hmark⟩ := hname
  exact hroute.names (elements _ root hroot) elements members _ hmark

/-- The names of the pairs have no points of their own, so each of them selects one record. The two levels of the
    tank have one name, because the second one has. -/
theorem records_identified_pairs :
    (∃ c m e, resolve .pairs = .ok c ∧ m ∈ c.maps ∧
      Override.read Pattern.read none "pairs[1].state.mode" (.object [("map", .string "board")]) = .ok e ∧
      (m.records.filter fun r => e.selector.selects r.name).length = 1) ∧
    ∃ c m name, resolve .dotted = .ok c ∧ m ∈ c.maps ∧ c.Uses m name ∧ ¬PlainName name := by
  constructor
  · obtain ⟨hnone, hmeta, _⟩ := finished_pairs
    obtain ⟨c, metadata, hc, rfl⟩ := resolves_of_finished hnone hmeta
    obtain ⟨m, hm, hnames⟩ := List.map_eq_singleton_iff.mp finished_pairs_names.1
    have hmem : m ∈ (finished .pairs).state.maps := by simp [hm]
    obtain ⟨r, hr, hname⟩ := List.mem_map.mp (show "pairs[1].state.mode" ∈ m.records.map (·.name) by simp [hnames])
    have least := (records_identified hc hmem).2 (pairs_plain hc m) none "pairs[1].state.mode"
      (.object [("map", .string "board")]) ⟨_, "board", [], .exact _⟩ rfl (by decide)
    refine ⟨_, m, _, hc, hmem, rfl, Nat.le_antisymm least (List.length_pos_of_mem (List.mem_filter.mpr ⟨hr, ?_⟩))⟩
    simp [Override.Selector.selects, hname]
  · obtain ⟨hnone, hmeta, hmaps⟩ := finished_dotted
    obtain ⟨c, metadata, hc, rfl⟩ := resolves_of_finished hnone hmeta
    obtain ⟨m, hm, hnames⟩ := List.map_eq_singleton_iff.mp hmaps
    have hmem : m ∈ (finished .dotted).state.maps := by simp [hm]
    obtain ⟨r, rest, hrecords, hr, hrest⟩ := List.map_eq_cons_iff.mp hnames
    obtain ⟨s, rfl, hs⟩ := List.map_eq_singleton_iff.mp hrest
    have pairwise := (records_identified hc hmem).1
    rw [hrecords, List.pairwise_pair] at pairwise
    obtain ⟨name, hname⟩ := pairwise (hr.trans hs.symm)
    exact ⟨_, m, name, hc, hmem, hname⟩

end Resolution

end AddressMap
