import AddressMap.Proofs.Record.Tiling
import AddressMap.Proofs.View.Layout

set_option autoImplicit false

namespace AddressMap

variable {keep : String → Bool}

def TypeTable.view (keep : String → Bool) (table : TypeTable) : TypeTable where
  typedefs := table.typedefs.mapValues (Typedef.view keep)
  bitfields := table.bitfields.mapValues (Bitfield.view keep)

def ItemShape.view (s : ItemShape) : ItemShape := { s with arraySize := s.arraySize.map Value.sortKeys }

def BitShape.view (s : BitShape) : BitShape := { s with bits := s.bits.map Value.sortKeys }

def Shape.view : Shape → Shape
  | .item s => .item s.view
  | .bits s => .bits s.view

/-- What the fingerprints see of a record; it does not have the numbers of the arrays around it. -/
def Record.view (keep : String → Bool) (r : Record) : Record :=
  { r with
    shape := r.shape.view
    description := seen keep r.description
    props := r.props.view keep
    arrays := [] }

theorem Record.name_congr {r s : Record} (h : r.view keep = s.view keep) : r.name = s.name := by
  have name := congrArg Record.name h
  exact name

theorem Record.description_congr {r s : Record} (h : r.view every = s.view every) :
    r.description = s.description := by
  have description := congrArg Record.description h
  exact description

namespace Walk

def Place.view (keep : String → Bool) (p : Place) : Place := ⟨p.path, p.props.view keep, []⟩

def Step.view (keep : String → Bool) (s : Step) : Option (List Record × Nat) :=
  s.toOption.map fun r => (r.1.map (Record.view keep), r.2.offset)

/-- From the same offset on, both steps make the same as far as it is seen. -/
def Alike (keep : String → Bool) (f g : Cursor → Step) : Prop :=
  ∀ c c', c.offset = c'.offset → (f c).view keep = (g c').view keep

theorem sequence_toOption {α : Type} (step : α → Cursor → Step) (x : α) (rest : List α) (c : Cursor) :
    (sequence step (x :: rest) c).toOption = (step x c).toOption.bind fun r =>
      (sequence step rest r.2).toOption.map fun t => (r.1 ++ t.1, t.2) := by
  rw [sequence]
  cases step x c with
  | error e => rfl
  | ok r => exact toOption_map _ _

theorem sequence_alike {α β : Type} {step : α → Cursor → Step} {step' : β → Cursor → Step} {xs : List α}
    {ys : List β} (h : List.Forall₂ (fun x y => Alike keep (step x) (step' y)) xs ys) :
    Alike keep (sequence step xs) (sequence step' ys) := by
  induction h with
  | nil =>
    intro c c' hc
    simp [sequence, Step.view, Except.toOption, hc]
  | cons hfirst _ ih =>
    intro c c' hc
    unfold Step.view
    rw [sequence_toOption, sequence_toOption]
    refine bind_map_congr (hfirst c c' hc) fun r s hrs => ?_
    obtain ⟨hrecords, hoffset⟩ := Prod.mk.inj hrs
    have tail := congrArg (Option.map fun t => (r.1.map (Record.view keep) ++ t.1, t.2)) (ih r.2 s.2 hoffset)
    simpa only [Step.view, Option.map_map, Function.comp_def, List.map_append, ← hrecords] using tail

section Places

variable {p p' : Place}

theorem Place.qualify_congr (h : p.view keep = p'.view keep) (name : String) :
    p.qualify name = p'.qualify name := by
  obtain ⟨hpath, _⟩ := Place.mk.inj h
  simp only [Place.qualify, hpath]

theorem Place.enter_congr (h : p.view keep = p'.view keep) (name : String) :
    (p.enter name).view keep = (p'.enter name).view keep := by
  obtain ⟨hpath, hprops, _⟩ := Place.mk.inj h
  simp only [Place.view, Place.enter, Place.qualify_congr h, hprops]

theorem Place.inherit_congr (h : p.view keep = p'.view keep) {es fs : Props}
    (hes : es.view keep = fs.view keep) : (p.inherit es).view keep = (p'.inherit fs).view keep := by
  obtain ⟨hpath, hprops, _⟩ := Place.mk.inj h
  simp only [Place.view, Place.inherit, Props.view_merge hprops hes, hpath]

theorem itemsFrom_congr (h : p.view keep = p'.view keep) {e e' : Element} (he : e.view keep = e'.view keep)
    (size uid uid' index n : Nat) : List.Forall₂ (fun q q' => Place.view keep q = Place.view keep q')
      (itemsFrom p e size uid index n) (itemsFrom p' e' size uid' index n) := by
  induction n generalizing index with
  | zero => exact .nil
  | succ n ih =>
    refine .cons ?_ (ih (index + 1))
    rw [(Element.mk.inj he).1]
    exact Place.enter_congr h _

end Places

section Steps

variable {e e' : Element}

theorem eachItem_alike {p p' : Place} (hp : p.view keep = p'.view keep) (he : e.view keep = e'.view keep)
    {body body' : Place → Cursor → Step}
    (hbody : ∀ q q', q.view keep = q'.view keep → Alike keep (body q) (body' q')) :
    Alike keep (eachItem p e body) (eachItem p' e' body') := by
  intro c c' hc
  obtain ⟨hname, _, _, _, _, _, _, _, hcount, _⟩ := Element.mk.inj he
  unfold eachItem
  rw [hcount, hname]
  split
  · exact hbody _ _ (Place.enter_congr hp _) c c' hc
  · rename_i size _
    exact sequence_alike ((itemsFrom_congr hp he size c.uid c'.uid 0 size).imp hbody) _ _ hc

theorem leaf_alike (he : e.view keep = e'.view keep) {p p' : Place} (hp : p.view keep = p'.view keep) :
    Alike keep (leaf e p) (leaf e' p') := by
  intro c c' hc
  obtain ⟨hpath, hprops, _⟩ := Place.mk.inj hp
  obtain ⟨_, htype, harraySize, hdescription, hreserved, hitemType, hitemSize, hoffset, hcount, hown, hkind⟩ :=
    Element.mk.inj he
  have hsize : e.size = e'.size := by simp only [Element.size, hitemSize, hcount]
  have henum : e.enumName = e'.enumName := by simp only [Element.enumName, hkind]
  simp only [Step.view, leaf, Except.toOption, Option.map_some, List.map_cons, List.map_nil, Record.view,
    Shape.view, ItemShape.view, Cursor.advance, Props.view_merge hprops hown, hpath, htype, harraySize,
    hdescription, hreserved, hitemType, hitemSize, hoffset, hcount, hsize, henum, hc]

theorem bits_alike {b b' : Bitfield} (hb : b.view keep = b'.view keep) {p p' : Place}
    (hp : p.view keep = p'.view keep) : Alike keep (bits b p) (bits b' p') := by
  intro c c' hc
  obtain ⟨hmembers, _, hbase, _⟩ := Bitfield.mk.inj hb
  obtain ⟨_, hprops, _⟩ := Place.mk.inj hp
  simp only [Step.view, bits, Except.toOption, Option.map_some, Cursor.advance, hbase, hc]
  rw [List.map_map, List.map_map]
  refine congrArg (fun rs => some (rs, _)) (list_map_of_views hmembers fun m m' hm => ?_)
  obtain ⟨hname, hbits, hwidth, hoffset, hreserved, hdescription, hown⟩ := BitfieldMember.mk.inj hm
  simp only [Function.comp_apply, Record.view, Shape.view, BitShape.view, Place.qualify_congr hp,
    Props.view_merge hprops hown, hname, hbits, hwidth, hoffset, hreserved, hdescription]

end Steps

theorem visit_alike {table table' : TypeTable} (ht : table.view keep = table'.view keep) (depth : Nat)
    {p p' : Place} (hp : p.view keep = p'.view keep) {e e' : Element} (he : e.view keep = e'.view keep) :
    Alike keep (visit table depth p e) (visit table' depth p' e') := by
  obtain ⟨typedefs, bitfields⟩ := TypeTable.mk.inj ht
  -- A typedef is only entered with depth left, so the induction is on the depth and not on the tables.
  induction depth using Nat.strongRecOn generalizing p p' e e' with
  | _ depth ih =>
    obtain ⟨hname, _, _, _, _, _, _, _, _, hprops, hkind⟩ := Element.mk.inj he
    intro c c' hc
    unfold visit
    rw [hkind]
    cases e'.kind with
    | primitive base => exact eachItem_alike hp he (fun _ _ hq => leaf_alike he hq) c c' hc
    | enumeration name => exact eachItem_alike hp he (fun _ _ hq => leaf_alike he hq) c c' hc
    | bitfield name =>
      rcases both_of_views (Scope.get?_congr bitfields name) with ⟨hb, hb'⟩ | ⟨b, b', hb, hb', hview⟩
      · simp only [hb, hb']
        rfl
      · simp only [hb, hb']
        have hown : b.props.view keep = b'.props.view keep := (Bitfield.mk.inj hview).2.2.2.2
        exact eachItem_alike (Place.inherit_congr (Place.inherit_congr hp hprops) hown) he
          (fun _ _ hq => bits_alike hview hq) c c' hc
    | typedef name =>
      rcases both_of_views (Scope.get?_congr typedefs name) with ⟨ht, ht'⟩ | ⟨t, t', ht, ht', hview⟩
      · simp only [ht, ht']
        rfl
      · obtain ⟨helements, _, _, _, hown⟩ := Typedef.mk.inj hview
        simp only [ht, ht']
        cases depth with
        | zero => rfl
        | succ below =>
          refine eachItem_alike (Place.inherit_congr (Place.inherit_congr hp hprops) hown) he ?_ c c' hc
          exact fun q q' hq => sequence_alike
            ((forall₂_of_views helements).imp fun f f' hf => ih below (Nat.lt_succ_self below) hq hf)

/-- The records of a root typedef, as they are seen, do not depend on the first free number. -/
theorem flatten_congr {table table' : TypeTable} (ht : table.view keep = table'.view keep)
    {root root' : Typedef} (hr : root.view keep = root'.view keep) (uid uid' : Nat) :
    (flatten table root uid).toOption.map (fun r => r.1.map (Record.view keep)) =
      (flatten table' root' uid').toOption.map (fun r => r.1.map (Record.view keep)) := by
  obtain ⟨helements, _, _, _, hprops⟩ := Typedef.mk.inj hr
  have depth : table.typedefs.length = table'.typedefs.length := by
    have lengths := congrArg List.length (TypeTable.mk.inj ht).1
    rwa [Entries.length_mapValues, Entries.length_mapValues] at lengths
  have start : Place.view keep ⟨none, root.props, []⟩ = Place.view keep ⟨none, root'.props, []⟩ := by
    simp only [Place.view, hprops]
  have walks := sequence_alike ((forall₂_of_views helements).imp fun _ _ he =>
    visit_alike ht table.typedefs.length start he) ⟨0, uid⟩ ⟨0, uid'⟩ rfl
  unfold flatten
  rw [toOption_map, toOption_map, ← depth, Option.map_map, Option.map_map]
  have records := congrArg (Option.map Prod.fst) walks
  simpa only [Step.view, Option.map_map, Function.comp_def] using records

end Walk

end AddressMap
