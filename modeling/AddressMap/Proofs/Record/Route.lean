import AddressMap.Proofs.Resolution.Links
import AddressMap.Proofs.Record.Tiling

set_option autoImplicit false

namespace AddressMap

variable {patterns : PatternReader}

/-- Into an item of an element. An element that is no array has one item, with the index 0. -/
structure Hop where
  element : Element
  index : Nat

structure Route where
  hops : List Hop
  /-- The member that is reached in the last item, if that is a bitfield. -/
  member : Option BitfieldMember

namespace Hop

def name (h : Hop) : String :=
  match h.element.count with
  | none => h.element.name
  | some _ => s!"{h.element.name}[{h.index}]"

def offset (h : Hop) : Nat := h.element.offset + h.index * h.element.itemSize

def array? (h : Hop) : Option (Nat × Nat × Nat) :=
  h.element.count.map fun size => (size, h.element.itemSize, h.index)

end Hop

namespace Route

def offset (r : Route) : Nat := (r.hops.map Hop.offset).sum

def arrays (r : Route) : List (Nat × Nat × Nat) := r.hops.filterMap Hop.array?

def name (r : Route) : String :=
  ".".intercalate (r.hops.map Hop.name ++ r.member.toList.map (·.name))

def behind (hops : List Hop) (r : Route) : Route := { r with hops := hops ++ r.hops }

theorem behind_nil : behind [] = id := rfl

theorem behind_behind (hops more : List Hop) (r : Route) :
    (r.behind more).behind hops = r.behind (hops ++ more) := by
  simp only [behind, List.append_assoc]

end Route

/-- The record lies where the route leads. -/
structure Record.Ends (r : Record) (route : Route) : Prop where
  name : r.name = route.name
  mapOffset : r.mapOffset = route.offset
  arrays : r.arrays.map (fun a => (a.size, a.stride, a.index)) = route.arrays

namespace Element

def isItem (e : Element) : Bool :=
  match e.kind with
  | .primitive _ | .enumeration _ => true
  | _ => false

def indices (e : Element) : List Nat :=
  match e.count with
  | none => [0]
  | some size => List.range size

def routes (e : Element) (within : Nat → List Route) : List Route :=
  e.indices.flatMap fun i => (within i).map (Route.behind [⟨e, i⟩])

theorem mem_routes {e : Element} {within : Nat → List Route} {route : Route} :
    route ∈ e.routes within ↔ ∃ i ∈ e.indices, ∃ inner ∈ within i, inner.behind [⟨e, i⟩] = route := by
  simp only [routes, List.mem_flatMap, List.mem_map]

end Element

section Routes

variable (table : TypeTable)

inductive Reaches : List Element → Route → Prop
  | item {es : List Element} {e : Element} {i : Nat} (he : e ∈ es) (hi : i ∈ e.indices)
      (hk : e.isItem) : Reaches es ⟨[⟨e, i⟩], none⟩
  | bits {es : List Element} {e : Element} {i : Nat} {name : String} {b : Bitfield} {m : BitfieldMember}
      (he : e ∈ es) (hi : i ∈ e.indices) (hk : e.kind = .bitfield name)
      (hb : table.bitfields.get? name = some b) (hm : m ∈ b.members) : Reaches es ⟨[⟨e, i⟩], some m⟩
  | typedef {es : List Element} {e : Element} {i : Nat} {name : String} {t : Typedef} {route : Route}
      (he : e ∈ es) (hi : i ∈ e.indices) (hk : e.kind = .typedef name)
      (ht : table.typedefs.get? name = some t) (hroute : Reaches t.elements route) :
      Reaches es (route.behind [⟨e, i⟩])

/-- All routes through these elements, element by element and item by item. -/
inductive Tour : List Element → List Route → Prop
  | nil : Tour [] []
  | item {es : List Element} {rest : List Route} {e : Element} (hk : e.isItem) (hrest : Tour es rest) :
      Tour (e :: es) (e.routes (fun _ => [⟨[], none⟩]) ++ rest)
  | bits {es : List Element} {rest : List Route} {e : Element} {name : String} {b : Bitfield}
      (hk : e.kind = .bitfield name) (hb : table.bitfields.get? name = some b) (hrest : Tour es rest) :
      Tour (e :: es) (e.routes (fun _ => b.members.map fun m => ⟨[], some m⟩) ++ rest)
  | typedef {es : List Element} {rest : List Route} {e : Element} {name : String} {t : Typedef}
      {within : Nat → List Route} (hk : e.kind = .typedef name)
      (ht : table.typedefs.get? name = some t) (hwithin : ∀ i ∈ e.indices, Tour t.elements (within i))
      (hrest : Tour es rest) : Tour (e :: es) (e.routes within ++ rest)

end Routes

section Tour

variable {table : TypeTable} {es : List Element} {route : Route}

theorem reaches_cons {e : Element} : Reaches table (e :: es) route ↔
    Reaches table [e] route ∨ Reaches table es route := by
  constructor
  · intro h
    cases h with
    | item he hi hk =>
      rcases List.mem_cons.mp he with rfl | he
      · exact .inl (.item List.mem_cons_self hi hk)
      · exact .inr (.item he hi hk)
    | bits he hi hk hb hm =>
      rcases List.mem_cons.mp he with rfl | he
      · exact .inl (.bits List.mem_cons_self hi hk hb hm)
      · exact .inr (.bits he hi hk hb hm)
    | typedef he hi hk ht hroute =>
      rcases List.mem_cons.mp he with rfl | he
      · exact .inl (.typedef List.mem_cons_self hi hk ht hroute)
      · exact .inr (.typedef he hi hk ht hroute)
  · have grow : ∀ {fs : List Element}, fs ⊆ e :: es → Reaches table fs route →
        Reaches table (e :: es) route := by
      intro fs hsub h
      cases h with
      | item he hi hk => exact .item (hsub he) hi hk
      | bits he hi hk hb hm => exact .bits (hsub he) hi hk hb hm
      | typedef he hi hk ht hroute => exact .typedef (hsub he) hi hk ht hroute
    rintro (h | h)
    · exact grow (by simp) h
    · exact grow (by simp) h

theorem reaches_item {e : Element} (hk : e.isItem) :
    Reaches table [e] route ↔ route ∈ e.routes fun _ => [⟨[], none⟩] := by
  simp only [Element.mem_routes, List.mem_singleton]
  constructor
  · intro h
    cases h with
    | item he hi _ =>
      cases List.mem_singleton.mp he
      exact ⟨_, hi, _, rfl, rfl⟩
    | bits he _ hk' _ _ =>
      cases List.mem_singleton.mp he
      simp [Element.isItem, hk'] at hk
    | typedef he _ hk' _ _ =>
      cases List.mem_singleton.mp he
      simp [Element.isItem, hk'] at hk
  · rintro ⟨i, hi, _, rfl, rfl⟩
    exact .item List.mem_cons_self hi hk

theorem reaches_bits {e : Element} {name : String} {b : Bitfield} (hk : e.kind = .bitfield name)
    (hb : table.bitfields.get? name = some b) : Reaches table [e] route ↔
      route ∈ e.routes fun _ => b.members.map fun m => ⟨[], some m⟩ := by
  simp only [Element.mem_routes, List.mem_map]
  constructor
  · intro h
    cases h with
    | item he _ hk' =>
      cases List.mem_singleton.mp he
      simp [Element.isItem, hk] at hk'
    | bits he hi hk' hb' hm =>
      cases List.mem_singleton.mp he
      cases hk.symm.trans hk'
      cases hb.symm.trans hb'
      exact ⟨_, hi, _, ⟨_, hm, rfl⟩, rfl⟩
    | typedef he _ hk' _ _ =>
      cases List.mem_singleton.mp he
      cases hk.symm.trans hk'
  · rintro ⟨i, hi, _, ⟨m, hm, rfl⟩, rfl⟩
    exact .bits List.mem_cons_self hi hk hb hm

theorem reaches_typedef {e : Element} {name : String} {t : Typedef} {within : Nat → List Route}
    (hk : e.kind = .typedef name) (ht : table.typedefs.get? name = some t)
    (hwithin : ∀ i ∈ e.indices, ∀ inner, inner ∈ within i ↔ Reaches table t.elements inner) :
    Reaches table [e] route ↔ route ∈ e.routes within := by
  simp only [Element.mem_routes]
  constructor
  · intro h
    cases h with
    | item he _ hk' =>
      cases List.mem_singleton.mp he
      simp [Element.isItem, hk] at hk'
    | bits he _ hk' _ _ =>
      cases List.mem_singleton.mp he
      cases hk.symm.trans hk'
    | typedef he hi hk' ht' hroute =>
      cases List.mem_singleton.mp he
      cases hk.symm.trans hk'
      cases ht.symm.trans ht'
      exact ⟨_, hi, _, (hwithin _ hi _).mpr hroute, rfl⟩
  · rintro ⟨i, hi, inner, hin, rfl⟩
    exact .typedef List.mem_cons_self hi hk ht ((hwithin i hi inner).mp hin)

/-- A tour takes every route that leads to a record, and no other. -/
theorem Tour.mem_iff {tour : List Route} (h : Tour table es tour) (route : Route) :
    route ∈ tour ↔ Reaches table es route := by
  induction h generalizing route with
  | nil =>
    refine ⟨fun hin => absurd hin List.not_mem_nil, fun hr => ?_⟩
    cases hr <;> exact absurd ‹_ ∈ []› List.not_mem_nil
  | item hk _ ih => rw [List.mem_append, ih, reaches_cons, reaches_item hk]
  | bits hk hb _ ih => rw [List.mem_append, ih, reaches_cons, reaches_bits hk hb]
  | typedef hk ht _ _ ihwithin ih =>
    rw [List.mem_append, ih, reaches_cons, reaches_typedef hk ht ihwithin]

theorem Tour.extend {table' : TypeTable} {tour : List Route} (h : Tour table es tour)
    (ht : table.typedefs.Extends table'.typedefs) (hb : table.bitfields.Extends table'.bitfields) :
    Tour table' es tour := by
  induction h with
  | nil => exact .nil
  | item hk _ ih => exact .item hk ih
  | bits hk hget _ ih => exact .bits hk (hb _ _ hget) ih
  | typedef hk hget _ _ ihwithin ih => exact .typedef hk (ht _ _ hget) ihwithin ih

end Tour

namespace Hop

/-- The offset of what is within the last of these items. -/
def reach (hops : List Hop) : Nat := (hops.map Hop.offset).sum

theorem reach_snoc (hops : List Hop) (h : Hop) : reach (hops ++ [h]) = reach hops + h.offset := by
  simp [reach]

end Hop

namespace Walk

structure Place.Leads (p : Place) (hops : List Hop) : Prop where
  path : p.path = if hops = [] then none else some (".".intercalate (hops.map Hop.name))
  arrays : p.arrays.map (fun a => (a.size, a.stride, a.index)) = hops.filterMap Hop.array?

namespace Place

variable {p : Place} {hops : List Hop}

theorem Leads.inherit (h : p.Leads hops) (props : Props) : (p.inherit props).Leads hops := ⟨h.path, h.arrays⟩

theorem Leads.qualify (h : p.Leads hops) (name : String) :
    p.qualify name = ".".intercalate (hops.map Hop.name ++ [name]) := by
  unfold Place.qualify
  rw [h.path]
  by_cases hne : hops = []
  · simp [hne]
  · have hnames : hops.map Hop.name ≠ [] := by simpa using hne
    rw [String.intercalate_append_of_ne_nil hnames (List.cons_ne_nil _ _), String.intercalate_singleton]
    simp [hne, toString, String.append_assoc]

theorem Leads.enter (h : p.Leads hops) {e : Element} (hcount : e.count = none) :
    (p.enter e.name).Leads (hops ++ [⟨e, 0⟩]) := by
  have hname : Hop.name ⟨e, 0⟩ = e.name := by simp [Hop.name, hcount]
  refine ⟨?_, ?_⟩
  · simp [Place.enter, h.qualify, hname]
  · simpa [Place.enter, Hop.array?, hcount] using h.arrays

theorem Leads.enterItem (h : p.Leads hops) {e : Element} {size : Nat} (hcount : e.count = some size)
    (uid i : Nat) : Place.Leads { p.enter s!"{e.name}[{i}]" with
      arrays := p.arrays ++ [⟨size, e.itemSize, uid, i⟩] } (hops ++ [⟨e, i⟩]) := by
  have hname : Hop.name ⟨e, i⟩ = s!"{e.name}[{i}]" := by simp [Hop.name, hcount]
  refine ⟨?_, ?_⟩
  · simp [Place.enter, h.qualify, hname]
  · simp [h.arrays, Hop.array?, hcount]

end Place

/-- From `start` bytes behind the hops on, the step makes the records that such a tour leads to. -/
def Surveys (hops : List Hop) (start : Nat) (step : Cursor → Step) (tour : List Route → Prop) : Prop :=
  ∀ c rs c', c.offset = Hop.reach hops + start → step c = .ok (rs, c') →
    ∃ routes, tour routes ∧ List.Forall₂ Record.Ends rs (routes.map (Route.behind hops))

def SurveysItems (hops : List Hop) (e : Element) (body : Place → Cursor → Step)
    (tour : List Route → Prop) : Prop :=
  ∀ i p, Place.Leads p (hops ++ [⟨e, i⟩]) → Surveys (hops ++ [⟨e, i⟩]) 0 (body p) tour

/-- An item is as many items behind its element's offset as its index says. -/
theorem itemsFrom_survey {p : Place} {hops : List Hop} (hp : p.Leads hops) {e : Element} {size : Nat}
    (hcount : e.count = some size) {body : Place → Cursor → Step} {tour : List Route → Prop}
    (hbody : SurveysItems hops e body tour) (hadv : ∀ q, Advances (body q) e.itemSize) {uid index n : Nat}
    {c c' : Cursor} {rs : List Record} (hc : c.offset = Hop.reach hops + e.offset + index * e.itemSize)
    (h : sequence body (itemsFrom p e size uid index n) c = .ok (rs, c')) :
    ∃ within : Nat → List Route, (∀ i ∈ List.range' index n, tour (within i)) ∧
      List.Forall₂ Record.Ends rs
        ((List.range' index n).flatMap fun i => (within i).map (Route.behind (hops ++ [⟨e, i⟩]))) := by
  -- The routes from within each item come from their own run of the body, so they are put together here.
  induction n generalizing index c rs with
  | zero =>
    cases h
    exact ⟨fun _ => [], by simp, .nil⟩
  | succ n ih =>
    simp only [itemsFrom, sequence] at h
    split at h
    · cases h
    rename_i records next hfirst
    obtain ⟨⟨tail, last⟩, htail, heq⟩ := map_eq_ok.mp h
    cases heq
    have hnext : next.offset = Hop.reach hops + e.offset + (index + 1) * e.itemSize := by
      rw [(hadv _ c records next hfirst).1, hc, Nat.succ_mul, Nat.add_assoc]
    obtain ⟨within, hin, hrest⟩ := ih hnext htail
    have hstart : c.offset = Hop.reach (hops ++ [⟨e, index⟩]) + 0 := by
      rw [hc, Hop.reach_snoc, Hop.offset, Nat.add_zero, Nat.add_assoc]
    obtain ⟨first, hpart, hends⟩ :=
      hbody index _ (hp.enterItem hcount uid index) c records next hstart hfirst
    have later : ∀ i ∈ List.range' (index + 1) n, Function.update within index first i = within i := by
      intro i hi
      have hlt := (List.mem_range'_1.mp hi).1
      have hne : i ≠ index := by omega
      rw [Function.update_of_ne hne]
    refine ⟨Function.update within index first, ?_, ?_⟩
    · intro i hi
      rw [List.range'_succ, List.mem_cons] at hi
      rcases hi with rfl | hi
      · rwa [Function.update_self]
      · rw [later i hi]
        exact hin i hi
    · rw [List.range'_succ, List.flatMap_cons, Function.update_self]
      refine List.rel_append hends ?_
      rwa [List.flatMap_congr fun i hi => congrArg _ (later i hi)]

theorem map_behind_routes (hops : List Hop) (e : Element) (within : Nat → List Route) :
    (e.routes within).map (Route.behind hops) =
      e.indices.flatMap fun i => (within i).map (Route.behind (hops ++ [⟨e, i⟩])) := by
  simp only [Element.routes, List.map_flatMap, List.map_map, Function.comp_def, Route.behind_behind]

theorem eachItem_surveys {p : Place} {hops : List Hop} (hp : p.Leads hops) {e : Element}
    {body : Place → Cursor → Step} {tour : List Route → Prop} (hbody : SurveysItems hops e body tour)
    (hadv : ∀ q, Advances (body q) e.itemSize) :
    Surveys hops e.offset (eachItem p e body) fun routes =>
      ∃ within, (∀ i ∈ e.indices, tour (within i)) ∧ e.routes within = routes := by
  intro c rs c' hc h
  unfold eachItem at h
  split at h
  · rename_i hcount
    have hstart : c.offset = Hop.reach (hops ++ [⟨e, 0⟩]) + 0 := by
      simpa [Hop.reach_snoc, Hop.offset] using hc
    obtain ⟨routes, hpart, hends⟩ := hbody 0 _ (hp.enter hcount) c rs c' hstart h
    refine ⟨_, ⟨fun _ => routes, fun _ _ => hpart, rfl⟩, ?_⟩
    rw [map_behind_routes]
    simpa [Element.indices, hcount] using hends
  · rename_i size hcount
    obtain ⟨within, hin, hends⟩ := itemsFrom_survey hp hcount hbody hadv (by simpa using hc) h
    rw [← List.range_eq_range'] at hin hends
    refine ⟨_, ⟨within, by simpa [Element.indices, hcount] using hin, rfl⟩, ?_⟩
    rw [map_behind_routes]
    simpa [Element.indices, hcount] using hends

theorem leaf_surveys {p : Place} {hops : List Hop} (hp : p.Leads hops) (e : Element) :
    Surveys hops 0 (leaf e p) fun routes => routes = [⟨[], none⟩] := by
  intro c rs c' hc h
  cases h
  refine ⟨_, rfl, .cons ⟨?_, ?_, ?_⟩ .nil⟩
  · by_cases hne : hops = []
    · simp [hp.path, hne, Route.behind, Route.name]
    · simp [hp.path, hne, Route.behind, Route.name]
  · simpa [Route.behind, Route.offset, Hop.reach] using hc
  · simpa [Route.behind, Route.arrays] using hp.arrays

theorem bits_surveys {p : Place} {hops : List Hop} (hp : p.Leads hops) (b : Bitfield) :
    Surveys hops 0 (bits b p) fun routes => routes = b.members.map fun m => ⟨[], some m⟩ := by
  intro c rs c' hc h
  cases h
  refine ⟨_, rfl, ?_⟩
  rw [List.map_map, List.forall₂_map_left_iff, List.forall₂_map_right_iff, List.forall₂_same]
  intro m _
  refine ⟨?_, ?_, ?_⟩
  · simp [hp.qualify, Route.behind, Route.name]
  · simpa [Route.behind, Route.offset, Hop.reach] using hc
  · simpa [Route.behind, Route.arrays] using hp.arrays

/-- What the tour of an element adds in front of the tour of the elements behind it. -/
def Opens (table : TypeTable) (e : Element) (routes : List Route) : Prop :=
  ∀ es rest, Tour table es rest → Tour table (e :: es) (routes ++ rest)

theorem sequence_surveys (table : TypeTable) {hops : List Hop} {step : Element → Cursor → Step}
    {es : List Element} {start stop : Nat} (hes : Element.Chained start stop es)
    (hstep : ∀ e ∈ es, Surveys hops e.offset (step e) (Opens table e))
    (hadv : ∀ e ∈ es, Advances (step e) e.size) : Surveys hops start (sequence step es) (Tour table es) := by
  induction es generalizing start with
  | nil =>
    intro c rs c' _ h
    cases h
    exact ⟨[], .nil, .nil⟩
  | cons e rest ih =>
    obtain ⟨rfl, hrest⟩ := hes
    intro c rs c' hc h
    simp only [sequence] at h
    split at h
    · cases h
    rename_i records next hfirst
    obtain ⟨⟨tail, last⟩, htail, heq⟩ := map_eq_ok.mp h
    cases heq
    obtain ⟨routes, hopens, hends⟩ := hstep e List.mem_cons_self c records next hc hfirst
    have hnext : next.offset = Hop.reach hops + e.stop := by
      rw [(hadv e List.mem_cons_self c records next hfirst).1, hc, Element.stop, Nat.add_assoc]
    obtain ⟨more, htour, hmore⟩ := ih hrest (fun f hf => hstep f (List.mem_cons_of_mem _ hf))
      (fun f hf => hadv f (List.mem_cons_of_mem _ hf)) next tail _ hnext htail
    refine ⟨routes ++ more, hopens rest more htour, ?_⟩
    rw [List.map_append]
    exact List.rel_append hends hmore

theorem Surveys.imp {hops : List Hop} {start : Nat} {step : Cursor → Step} {tour tour' : List Route → Prop}
    (h : Surveys hops start step tour) (himp : ∀ routes, tour routes → tour' routes) :
    Surveys hops start step tour' := by
  intro c rs c' hc hstep
  obtain ⟨routes, htour, hends⟩ := h c rs c' hc hstep
  exact ⟨routes, himp routes htour, hends⟩

theorem routes_congr {e : Element} {within within' : Nat → List Route}
    (h : ∀ i ∈ e.indices, within i = within' i) : e.routes within = e.routes within' :=
  List.flatMap_congr fun i hi => congrArg _ (h i hi)

theorem visit_surveys {table : TypeTable} (ht : table.Resolved) (depth : Nat) {p : Place} {hops : List Hop}
    (hp : p.Leads hops) {e : Element} (he : e.Sized table.bitfields table.typedefs) :
    Surveys hops e.offset (visit table depth p e) (Opens table e) := by
  induction depth using Nat.strongRecOn generalizing p hops e with
  | _ depth ih =>
    intro c rs c' hc hstep
    unfold Element.Sized at he
    rcases visit_eq_ok hstep with ⟨hk, h⟩ | ⟨name, b, hk, hb, h⟩ | ⟨name, t, below, hk, hget, rfl, h⟩
    · have hitem : e.isItem ∧ 0 < e.itemSize := by
        rcases hk with ⟨base, hk⟩ | ⟨name, hk⟩ <;> simpa [Element.isItem, hk] using he
      have surveys := eachItem_surveys hp (fun _ _ hq => leaf_surveys hq e) (leaf_advances hitem.2)
      refine surveys.imp ?_ c rs c' hc h
      rintro _ ⟨within, hwithin, rfl⟩ es rest hrest
      rw [routes_congr hwithin]
      exact .item hitem.1 hrest
    · simp only [hk, hb, Option.some.injEq, exists_eq_left'] at he
      have surveys := eachItem_surveys ((hp.inherit e.props).inherit b.props)
        (fun _ _ hq => bits_surveys hq b) (he ▸ bits_advances (ht.packed name b hb))
      refine surveys.imp ?_ c rs c' hc h
      rintro _ ⟨within, hwithin, rfl⟩ es rest hrest
      rw [routes_congr hwithin]
      exact .bits hk hb hrest
    · simp only [hk, hget, Option.some.injEq, exists_eq_left'] at he
      have inside : ∀ q, ∀ f ∈ t.elements, Advances (visit table below q f) f.size :=
        fun q f hf => visit_advances ht below q (ht.sized name t hget f hf)
      have hadv : ∀ q, Advances (sequence (visit table below q) t.elements) e.itemSize := by
        intro q
        have hsize : e.itemSize = total Element.size t.elements := by
          rw [← he, total_chained (ht.chained name t hget), Nat.zero_add]
        exact hsize ▸ sequence_advances (inside q)
      have surveys := eachItem_surveys ((hp.inherit e.props).inherit t.props)
        (fun _ q hq => sequence_surveys table (ht.chained name t hget)
          (fun f hf => ih below (Nat.lt_succ_self below) hq (ht.sized name t hget f hf)) (inside q)) hadv
      refine surveys.imp ?_ c rs c' hc h
      rintro _ ⟨within, hwithin, rfl⟩ es rest hrest
      exact .typedef hk hget hwithin hrest

/-- The records of a root typedef are those that its tour leads to. -/
theorem flatten_tour {table : TypeTable} (ht : table.Resolved) {name : String} {root : Typedef}
    (hroot : table.typedefs.get? name = some root) {uid next : Nat} {rs : List Record}
    (h : flatten table root uid = .ok (rs, next)) :
    ∃ tour, Tour table root.elements tour ∧ List.Forall₂ Record.Ends rs tour := by
  obtain ⟨⟨records, c⟩, hwalk, heq⟩ := map_eq_ok.mp h
  cases heq
  have start : Place.Leads ⟨none, root.props, []⟩ [] := ⟨rfl, rfl⟩
  have surveys := sequence_surveys table (ht.chained name root hroot)
    (fun e he => visit_surveys ht table.typedefs.length start (ht.sized name root hroot e he))
    (fun e he => visit_advances ht table.typedefs.length _ (ht.sized name root hroot e he))
  obtain ⟨tour, htour, hends⟩ := surveys _ _ _ rfl hwalk
  refine ⟨tour, htour, ?_⟩
  simpa only [Route.behind_nil, List.map_id] using hends

end Walk

theorem Record.Ends.of_placement {r s : Record} {route : Route} (h : r.placement = s.placement)
    (hs : s.Ends route) : r.Ends route := by
  simp only [Record.placement, Placement.mk.injEq] at h
  obtain ⟨hname, hoffset, _, _, harrays⟩ := h
  exact ⟨hname ▸ hs.name, hoffset ▸ hs.mapOffset, harrays ▸ hs.arrays⟩

theorem ends_of_placements {rs ss : List Record} {routes : List Route}
    (h : rs.map Record.placement = ss.map Record.placement) (hs : List.Forall₂ Record.Ends ss routes) :
    List.Forall₂ Record.Ends rs routes := by
  induction hs generalizing rs with
  | nil =>
    rw [List.map_eq_nil_iff.mp h]
    exact .nil
  | cons hend _ ih =>
    obtain ⟨r, rest, rfl, hr, hrest⟩ := List.map_eq_cons_iff.mp h
    exact .cons (hend.of_placement hr) (ih hrest)

theorem offsets_of_ends {rs : List Record} {routes : List Route} (h : List.Forall₂ Record.Ends rs routes) :
    routes.map Route.offset = rs.map (·.mapOffset) := by
  induction h with
  | nil => rfl
  | cons hend _ ih => rw [List.map_cons, List.map_cons, ih, hend.mapOffset]

def ResolvedMap.types (c : ResolvedMap) : TypeTable := ⟨c.typedefs, c.bitfields⟩

namespace Resolution

theorem get?_of_mem_inOrder {α : Type} {order : List String} {table : Entries α} {name : String} {x : α}
    (h : (name, x) ∈ inOrder order table) : (inOrder order table).get? name = some x := by
  have hkey : name ∈ (inOrder order table).keys := List.mem_map.mpr ⟨_, h, rfl⟩
  obtain ⟨y, hy⟩ := Option.isSome_iff_exists.mp (Entries.get?_isSome_iff.mpr hkey)
  have hx := (mem_inOrder.mp h).2
  rw [(mem_inOrder.mp (Entries.mem_of_get? hy)).2] at hx
  rw [hy, hx]

theorem resolve_found {d : Description} {c : ResolvedMap} (h : resolve d patterns = .ok c) :
    (∀ name x, (name, x) ∈ c.defines → c.defines.get? name = some x) ∧
      (∀ name t, (name, t) ∈ c.typedefs → c.typedefs.get? name = some t) ∧
        ∀ name b, (name, b) ∈ c.bitfields → c.bitfields.get? name = some b := by
  obtain ⟨_, r, _, _, rfl⟩ := resolve_eq_ok.mp h
  exact ⟨fun _ _ => get?_of_mem_inOrder, fun _ _ => get?_of_mem_inOrder, fun _ _ => get?_of_mem_inOrder⟩

/-- Every record lies where its route leads, and every route through the published typedefs leads to a
    record: their list is the tour of the map's root. -/
theorem records_follow_routes {d : Description} {c : ResolvedMap} (h : resolve d patterns = .ok c) {m : FlatMap}
    (hm : m ∈ c.maps) : ∃ root tour, c.typedefs.get? m.type = some root ∧
      Tour c.types root.elements tour ∧ List.Forall₂ Record.Ends m.records tour ∧
      ∀ route, route ∈ tour ↔ Reaches c.types root.elements route := by
  obtain ⟨table, walked⟩ := resolve_walkedFrom h
  have typedefs : table.typedefs.Extends c.typedefs := by
    intro name t ht
    obtain ⟨_, r, _, _, rfl⟩ := resolve_eq_ok.mp h
    exact get?_of_mem_inOrder (walked.typedefs name t ht)
  have bitfields : table.bitfields.Extends c.bitfields := by
    intro name b hb
    obtain ⟨_, r, _, _, rfl⟩ := resolve_eq_ok.mp h
    exact get?_of_mem_inOrder (walked.bitfields name b hb)
  obtain ⟨root, records, uid, next, hroot, _, hflat, hplace⟩ := walked.walked m hm
  obtain ⟨tour, htour, hends⟩ := Walk.flatten_tour walked.resolved hroot hflat
  have published : Tour c.types root.elements tour := htour.extend typedefs bitfields
  exact ⟨root, tour, typedefs _ _ hroot, published, ends_of_placements hplace hends, published.mem_iff⟩

theorem finished_pairs_offsets : (finished .pairs).state.maps.map (fun m => m.records.map (·.mapOffset)) =
    [[0, 0, 1, 2, 3, 3, 4, 5]] := by
  decide +kernel

/-- The two members of each bitfield share a byte; the bytes of the pairs follow it. -/
theorem routes_of_pairs : ∃ c, resolve .pairs = .ok c ∧ ∃ m ∈ c.maps, ∃ root tour,
    c.typedefs.get? m.type = some root ∧ List.Forall₂ Record.Ends m.records tour ∧
      (∀ route, route ∈ tour ↔ Reaches c.types root.elements route) ∧
      tour.map Route.offset = [0, 0, 1, 2, 3, 3, 4, 5] := by
  obtain ⟨hnone, hmeta, _⟩ := finished_pairs
  obtain ⟨c, metadata, hc, rfl⟩ := resolves_of_finished hnone hmeta
  obtain ⟨m, hm, hoffsets⟩ := List.map_eq_singleton_iff.mp finished_pairs_offsets
  have hmem : m ∈ (finished .pairs).state.maps := by simp [hm]
  obtain ⟨root, tour, hroot, _, hends, hmemtour⟩ := records_follow_routes hc hmem
  refine ⟨_, hc, m, hmem, root, tour, hroot, hends, hmemtour, ?_⟩
  rw [← hoffsets, offsets_of_ends hends]

end Resolution

end AddressMap
