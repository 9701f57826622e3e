import AddressMap.Proofs.View.Types

set_option autoImplicit false

namespace AddressMap

variable {keep : String → Bool}

def Element.view (keep : String → Bool) (e : Element) : Element where
  name := e.name
  type := e.type
  arraySize := e.arraySize.map Value.sortKeys
  description := seen keep e.description
  reserved := e.reserved
  itemType := e.itemType
  itemSize := e.itemSize
  offset := e.offset
  count := e.count
  props := e.props.view keep
  kind := e.kind

theorem Element.stop_view (e : Element) : (e.view keep).stop = e.stop := rfl

def Typedef.view (keep : String → Bool) (t : Typedef) : Typedef where
  elements := t.elements.map (Element.view keep)
  totalSize := none
  size := t.size
  description := none
  props := t.props.view keep

namespace Scope

def view (keep : String → Bool) (s : Scope) : Scope where
  env := s.env
  fallback := s.fallback
  align := s.align
  structAlign := s.structAlign
  enums := s.enums.mapValues (Enumeration.view keep)
  bitfields := s.bitfields.mapValues (Bitfield.view keep)
  typedefs := s.typedefs.mapValues (Typedef.view keep)

def ItemType.view (keep : String → Bool) (i : ItemType) : ItemType where
  kind := i.kind
  size := i.size
  name := i.name
  description := seen keep i.description
  props := i.props.view keep

theorem has_congr {α β : Type} {f : α → β} {es fs : Entries α} (h : es.mapValues f = fs.mapValues f)
    (key : String) : es.has key = fs.has key := by
  have found := congrArg (Option.isSome <| Entries.get? · key) h
  simpa [Entries.has, Entries.get?_mapValues] using found

theorem get?_congr {α β : Type} {f : α → β} {es fs : Entries α} (h : es.mapValues f = fs.mapValues f)
    (key : String) : (es.get? key).map f = (fs.get? key).map f := by
  rw [← Entries.get?_mapValues, h, Entries.get?_mapValues]

variable {s s' : Scope}

theorem isLeaf_congr (h : s.view keep = s'.view keep) : s.isLeaf = s'.isLeaf := by
  funext type
  unfold isLeaf
  obtain ⟨_, _, _, _, enums, bitfields, _⟩ := Scope.mk.inj h
  rw [has_congr bitfields, has_congr enums]

theorem itemType?_congr (h : s.view keep = s'.view keep) (type : String) :
    (s.itemType? type).map (ItemType.view keep) = (s'.itemType? type).map (ItemType.view keep) := by
  obtain ⟨_, _, _, _, enums, bitfields, typedefs⟩ := Scope.mk.inj h
  replace bitfields := get?_congr bitfields type
  replace enums := get?_congr enums type
  replace typedefs := get?_congr typedefs type
  unfold itemType?
  cases Primitive.ofName? type with
  | some p => rfl
  | none =>
    -- Bitfields are tried before enums, and enums before typedefs.
    rcases both_of_views bitfields with ⟨hb, hb'⟩ | ⟨b, b', hb, hb', hview⟩
    · rcases both_of_views enums with ⟨he, he'⟩ | ⟨e, e', he, he', hview⟩
      · rcases both_of_views typedefs with ⟨ht, ht'⟩ | ⟨t, t', ht, ht', hview⟩
        · simp only [hb, hb', he, he', ht, ht']
        · obtain ⟨_, _, hsize, _, _⟩ := Typedef.mk.inj hview
          simp only [hb, hb', he, he', ht, ht', Option.map_some, ItemType.view, hsize]
      · obtain ⟨_, _, hbase, _, hdescription, hprops⟩ := Enumeration.mk.inj hview
        simp only [hb, hb', he, he', Option.map_some, ItemType.view, hbase, hdescription, hprops]
    · obtain ⟨_, _, hbase, _, _⟩ := Bitfield.mk.inj hview
      simp only [hb, hb', Option.map_some, ItemType.view, hbase]

end Scope

namespace Typedef

section Elements

variable (s : Scope) (owner : String)

theorem evaluateSize_toOption (env : Env) (key : String) (v : Value) :
    (evaluateSize env owner key v).toOption =
      (evaluateValue v env).toOption.bind fun x => x.toInt?.bind fun i =>
        if i < 0 || sizeLimit ≤ i then none else some i.toNat := by
  unfold evaluateSize
  cases evaluateValue v env with
  | error e => rfl
  | ok x =>
    cases x with
    | int i =>
      dsimp only
      rw [toOption_ite]
      rfl
    | float f => rfl
    | text t => rfl

theorem itemCount_toOption (d : ElementDecl) : (itemCount s owner d).toOption =
    d.arraySize.elim (some none) fun v => (evaluateValue v s.env).toOption.bind fun x =>
      (x.toInt?.bind fun i => if i < 0 || sizeLimit ≤ i then none else some i.toNat).map some := by
  unfold itemCount
  cases d.arraySize with
  | none => rfl
  | some v =>
    dsimp only [Option.elim_some]
    rw [toOption_map, evaluateSize_toOption, Option.map_bind]
    rfl

theorem element_toOption (offset : Nat) (d : ElementDecl) : (element s owner offset d).toOption =
    (itemCount s owner d).toOption.bind fun count =>
      (s.itemType? (d.type.getD s.fallback.name)).bind fun item =>
        if sizeLimit ≤ item.size * count.getD 1 then none
        else some ⟨d.name, d.type, d.arraySize, d.description.or item.description, false, item.name,
          item.size, offset, count, item.props.merge d.props, item.kind⟩ := by
  unfold element
  rw [toOption_bind]
  refine congrArg _ (funext fun count => ?_)
  dsimp only
  cases s.itemType? (d.type.getD s.fallback.name) with
  | none => rfl
  | some item =>
    dsimp only [Option.bind_some]
    rw [toOption_ite]
    rfl

theorem elementsFrom_toOption (offset pads : Nat) (d : ElementDecl) (rest : List ElementDecl) :
    (elementsFrom s owner offset pads (d :: rest)).toOption =
      (element s owner offset d).toOption.bind fun e =>
        if gap s.align e.stop = 0 then (elementsFrom s owner e.stop pads rest).toOption.map (e :: ·)
        else (elementsFrom s owner (e.stop + gap s.align e.stop) (pads + 1) rest).toOption.map fun es =>
          e :: .padding s!"padding_{pads}" e.stop (gap s.align e.stop) :: es := by
  rw [elementsFrom]
  cases element s owner offset d with
  | error e => rfl
  | ok e =>
    dsimp only
    rw [toOption_ite, toOption_map, toOption_map]
    rfl

end Elements

theorem seen_or (x y : Option String) : seen keep (x.or y) = (seen keep x).or (seen keep y) := by
  unfold seen
  split <;> rfl

section Congr

variable {s s' : Scope} (h : s.view keep = s'.view keep) (owner : String)

include h

theorem element_congr (offset : Nat) {d d' : ElementDecl} (hd : d.view keep = d'.view keep) :
    (element s owner offset d).toOption.map (Element.view keep) =
      (element s' owner offset d').toOption.map (Element.view keep) := by
  obtain ⟨hname, htype, hsize, hdescription, hprops⟩ := ElementDecl.mk.inj hd
  obtain ⟨henv, hfallback, _⟩ := Scope.mk.inj h
  have counts : (itemCount s owner d).toOption = (itemCount s' owner d').toOption := by
    rw [itemCount_toOption, itemCount_toOption, henv]
    exact evaluated_congr hsize _ _ _
  rw [element_toOption, element_toOption, counts, htype, hfallback]
  refine bind_map_same _ fun count => ?_
  refine bind_map_congr (Scope.itemType?_congr h _) fun item item' hitem => ?_
  obtain ⟨hkind, hitemSize, hitemName, hitemDescription, hitemProps⟩ := Scope.ItemType.mk.inj hitem
  rw [hitemSize]
  split
  · rfl
  · simp only [Option.map_some, Element.view, seen_or, Props.view_merge hitemProps hprops, hname, hsize,
      hdescription, hitemDescription, hitemName, hkind]

theorem elementsFrom_congr (offset pads : Nat) {ds ds' : List ElementDecl}
    (hds : ds.map (ElementDecl.view keep) = ds'.map (ElementDecl.view keep)) :
    (elementsFrom s owner offset pads ds).toOption.map (List.map (Element.view keep)) =
      (elementsFrom s' owner offset pads ds').toOption.map (List.map (Element.view keep)) := by
  obtain ⟨_, _, halign, _⟩ := Scope.mk.inj h
  induction ds generalizing offset pads ds' with
  | nil =>
    rw [List.map_nil, eq_comm, List.map_eq_nil_iff] at hds
    rw [hds]
    rfl
  | cons d rest ih =>
    obtain ⟨d', rest', rfl, hd, hrest⟩ := List.map_eq_cons_iff.mp hds.symm
    rw [elementsFrom_toOption, elementsFrom_toOption, halign]
    refine bind_map_congr (element_congr h owner offset hd.symm) fun e e' he => ?_
    rw [← Element.stop_view e, he, Element.stop_view]
    split
    · have tail := congrArg (Option.map (e.view keep :: ·)) (ih e'.stop pads hrest.symm)
      simpa only [Option.map_map, Function.comp_def, List.map_cons, ← he] using tail
    · have tail := congrArg (Option.map fun es => e.view keep :: Element.view keep (.padding
          s!"padding_{pads}" e'.stop (gap s'.align e'.stop)) :: es)
        (ih (e'.stop + gap s'.align e'.stop) (pads + 1) hrest.symm)
      simpa only [Option.map_map, Function.comp_def, List.map_cons, ← he] using tail

theorem finalSize_congr {size size' : Option Value} (hsize : size.map Value.sortKeys = size'.map Value.sortKeys)
    (contents : Nat) :
    (finalSize s owner size contents).toOption = (finalSize s' owner size' contents).toOption := by
  obtain ⟨henv, _, _, halign, _⟩ := Scope.mk.inj h
  have total : ∀ (t : Scope) (v : Value), (finalSize t owner (some v) contents).toOption =
      (evaluateSize t.env owner "total_size" v).toOption.bind fun total =>
        if total < contents then none else some total := by
    intro t v
    unfold finalSize
    dsimp only
    cases evaluateSize t.env owner "total_size" v with
    | error e => rfl
    | ok total =>
      dsimp only
      rw [toOption_ite]
      rfl
  rcases both_of_views hsize with ⟨rfl, rfl⟩ | ⟨v, v', rfl, rfl, hview⟩
  · simp only [finalSize, halign]
  · rw [total, total, evaluateSize_toOption, evaluateSize_toOption, henv, evaluateValue_congr hview]

end Congr

theorem stopOf_view (keep : String → Bool) (es : List Element) : stopOf (es.map (Element.view keep)) = stopOf es := by
  unfold stopOf
  rw [List.getLast?_map, Option.map_map]
  rfl

theorem padTo_congr {es es' : List Element} (h : es.map (Element.view keep) = es'.map (Element.view keep))
    (size : Nat) : (padTo es size).map (Element.view keep) = (padTo es' size).map (Element.view keep) := by
  have hstop : stopOf es = stopOf es' := by rw [← stopOf_view keep, h, stopOf_view]
  unfold padTo
  rw [hstop]
  dsimp only
  split
  · rw [List.map_append, List.map_append, h]
  · exact h

theorem layout_toOption (s : Scope) (name : String) (d : TypedefDecl) : (layout s name d).toOption =
    (elementsFrom s name 0 0 d.members).toOption.bind fun contents =>
      (finalSize s name d.head.totalSize (stopOf contents)).toOption.bind fun size =>
        (checkUnique name ((padTo contents size).map (·.name))).toOption.map fun _ =>
          ⟨padTo contents size, d.head.totalSize, size, d.head.description, d.head.props⟩ := by
  unfold layout
  rw [toOption_bind]
  refine congrArg _ (funext fun contents => ?_)
  rw [toOption_bind]
  refine congrArg _ (funext fun size => ?_)
  dsimp only
  cases checkUnique name ((padTo contents size).map (·.name)) <;> rfl

theorem layout_congr {s s' : Scope} (h : s.view keep = s'.view keep) (name : String) {d d' : TypedefDecl}
    (hd : d.view keep = d'.view keep) :
    (layout s name d).toOption.map (view keep) = (layout s' name d').toOption.map (view keep) := by
  obtain ⟨hmembers, _, hhead⟩ := Declared.mk.inj hd
  obtain ⟨hsize, _, hprops⟩ := TypedefHead.mk.inj hhead
  rw [layout_toOption, layout_toOption]
  refine bind_map_congr (elementsFrom_congr h name 0 0 hmembers) fun contents contents' hcontents => ?_
  rw [← stopOf_view keep, hcontents, stopOf_view, finalSize_congr h name hsize]
  refine bind_map_same _ fun size => ?_
  have elements := padTo_congr hcontents size
  have names := congrArg (List.map Element.name) elements
  rw [List.map_map, List.map_map] at names
  rw [show (padTo contents size).map (·.name) = (padTo contents' size).map (·.name) from names,
    Option.map_map, Option.map_map]
  refine congrArg (Option.map · _) (funext fun _ => ?_)
  simp only [Function.comp_apply, view, elements, hprops]

theorem layoutAll_congr {s s' : Scope} (h : s.view keep = s'.view keep) {table table' : Entries TypedefDecl}
    (ht : table.mapValues (TypedefDecl.view keep) = table'.mapValues (TypedefDecl.view keep))
    (order : List String) : (layoutAll s table order).reached.map (Entries.mapValues · (view keep)) =
      (layoutAll s' table' order).reached.map (Entries.mapValues · (view keep)) := by
  induction order generalizing s s' with
  | nil =>
    obtain ⟨_, _, _, _, _, _, typedefs⟩ := Scope.mk.inj h
    exact congrArg some typedefs
  | cons name rest ih =>
    unfold layoutAll
    rcases both_of_views (Scope.get?_congr ht name) with ⟨hd, hd'⟩ | ⟨d, d', hd, hd', hview⟩
    · rw [hd, hd']
      exact ih h
    · rw [hd, hd']
      dsimp only
      rcases both_of_results (layout_congr h name hview) with ⟨_, _, hl, hl'⟩ | ⟨t, t', hl, hl', laid⟩
      · rw [hl, hl']
        rfl
      · rw [hl, hl']
        refine ih ?_
        obtain ⟨henv, hfallback, halign, hstruct, enums, bitfields, typedefs⟩ := Scope.mk.inj h
        simp only [Scope.view, Entries.insert_mapValues, henv, hfallback, halign, hstruct, enums, bitfields,
          typedefs, laid]

end Typedef

end AddressMap
