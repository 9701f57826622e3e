import AddressMap.Proofs.Record.Route

set_option autoImplicit false

namespace AddressMap.Walk

variable {α : Type} {view : Record → α}

def Gives (view : Record → α) (step : Cursor → Step) (out : List α) : Prop :=
  ∀ c rs c', step c = .ok (rs, c') → rs.map view = out

theorem sequence_nil_gives {β : Type} (step : β → Cursor → Step) : Gives view (sequence step []) [] := by
  intro c rs c' h
  cases h
  rfl

theorem sequence_cons_gives {β : Type} {step : β → Cursor → Step} {x : β} {xs : List β} {first more : List α}
    (hx : Gives view (step x) first) (hxs : Gives view (sequence step xs) more) :
    Gives view (sequence step (x :: xs)) (first ++ more) := by
  intro c rs c' h
  simp only [sequence] at h
  split at h
  · cases h
  rename_i records next hfirst
  obtain ⟨⟨tail, last⟩, htail, heq⟩ := map_eq_ok.mp h
  cases heq
  rw [List.map_append, hx c records next hfirst, hxs next tail last htail]

theorem itemsFrom_gives {p : Place} {e : Element} {size uid index n : Nat} {body : Place → Cursor → Step}
    {within : Nat → List α}
    (h : ∀ i ∈ List.range' index n, ∀ q : Place, q.props = p.props → Gives view (body q) (within i)) :
    Gives view (sequence body (itemsFrom p e size uid index n)) ((List.range' index n).flatMap within) := by
  induction n generalizing index with
  | zero => exact sequence_nil_gives body
  | succ n ih =>
    rw [List.range'_succ, List.forall_mem_cons] at h
    rw [List.range'_succ, List.flatMap_cons]
    exact sequence_cons_gives (h.1 _ rfl) (ih h.2)

theorem eachItem_gives {p : Place} {e : Element} {body : Place → Cursor → Step} {within : Nat → List α}
    (h : ∀ i ∈ e.indices, ∀ q : Place, q.props = p.props → Gives view (body q) (within i)) :
    Gives view (eachItem p e body) (e.indices.flatMap within) := by
  intro c rs c' hstep
  unfold eachItem at hstep
  unfold Element.indices at h ⊢
  cases hcount : e.count with
  | none =>
    rw [hcount] at hstep h
    dsimp only at hstep h ⊢
    rw [List.flatMap_singleton]
    exact h 0 List.mem_cons_self (p.enter e.name) rfl c rs c' hstep
  | some size =>
    rw [hcount] at hstep h
    dsimp only at hstep h ⊢
    rw [List.range_eq_range'] at h ⊢
    exact itemsFrom_gives h _ rs c' hstep

structure Reports (table : TypeTable) (view : Record → α) (said : Props → Route → α) : Prop where
  item : ∀ {e : Element}, e.isItem → ∀ (i : Nat) (q : Place), Gives view (leaf e q) [said q.props ⟨[⟨e, i⟩], none⟩]
  bits : ∀ {e : Element} {name : String} {b : Bitfield}, e.kind = .bitfield name →
    table.bitfields.get? name = some b → ∀ (i : Nat) (props : Props) (q : Place),
      q.props = (props.merge e.props).merge b.props →
        Gives view (bits b q) (b.members.map fun m => said props ⟨[⟨e, i⟩], some m⟩)
  typedef : ∀ {e : Element} {name : String} {t : Typedef}, e.kind = .typedef name →
    table.typedefs.get? name = some t → ∀ (i : Nat) (props : Props) {route : Route}, Reaches table t.elements route →
      said props (route.behind [⟨e, i⟩]) = said ((props.merge e.props).merge t.props) route

theorem map_routes (f : Route → α) (e : Element) (within : Nat → List Route) :
    (e.routes within).map f = e.indices.flatMap fun i => (within i).map fun route => f (route.behind [⟨e, i⟩]) := by
  simp only [Element.routes, List.map_flatMap, List.map_map, Function.comp_def]

/-- A walk through the elements of a tour makes every record say what its route does. -/
theorem sequence_reports {table : TypeTable} {said : Props → Route → α} (hview : Reports table view said)
    {es : List Element} {tour : List Route} (htour : Tour table es tour) (depth : Nat) (p : Place) :
    Gives view (sequence (visit table depth p) es) (tour.map (said p.props)) := by
  induction htour generalizing depth p with
  | nil => exact sequence_nil_gives _
  | @item es rest e hk _ ih =>
    rw [List.map_append, map_routes]
    refine sequence_cons_gives ?_ (ih depth p)
    intro c rs c' hstep
    rcases visit_eq_ok hstep with ⟨_, h⟩ | ⟨_, _, hb, _⟩ | ⟨_, _, _, ht, _⟩
    · exact eachItem_gives (fun i _ q hq => hq ▸ hview.item hk i q) c rs c' h
    · simp [Element.isItem, hb] at hk
    · simp [Element.isItem, ht] at hk
  | @bits es rest e name b hk hget _ ih =>
    rw [List.map_append, map_routes]
    refine sequence_cons_gives ?_ (ih depth p)
    intro c rs c' hstep
    rcases visit_eq_ok hstep with ⟨hk', _⟩ | ⟨name', b', hk', hget', h⟩ | ⟨_, _, _, hk', _⟩
    · rcases hk' with ⟨_, hk'⟩ | ⟨_, hk'⟩ <;> cases hk.symm.trans hk'
    · cases hk.symm.trans hk'
      cases hget.symm.trans hget'
      simp only [List.map_map]
      exact eachItem_gives (fun i _ q hq => hview.bits hk hget i p.props q hq) c rs c' h
    · cases hk.symm.trans hk'
  | @typedef es rest e name t within hk hget hwithin _ ihwithin ih =>
    rw [List.map_append, map_routes]
    refine sequence_cons_gives ?_ (ih depth p)
    intro c rs c' hstep
    rcases visit_eq_ok hstep with ⟨hk', _⟩ | ⟨_, _, hk', _⟩ | ⟨name', t', below, hk', hget', rfl, h⟩
    · rcases hk' with ⟨_, hk'⟩ | ⟨_, hk'⟩ <;> cases hk.symm.trans hk'
    · cases hk.symm.trans hk'
    · cases hk.symm.trans hk'
      cases hget.symm.trans hget'
      refine eachItem_gives (fun i hi q hq => ?_) c rs c' h
      have inside := ihwithin i hi below q
      rw [hq] at inside
      rw [List.map_congr_left fun route hroute =>
        hview.typedef hk hget i p.props (((hwithin i hi).mem_iff route).mp hroute)]
      exact inside

end AddressMap.Walk
