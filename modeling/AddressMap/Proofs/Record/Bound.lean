import AddressMap.Proofs.Record.Tiling

set_option autoImplicit false

namespace AddressMap

variable {patterns : PatternReader}

namespace Record

def byteStop (r : Record) : Nat := r.mapOffset + r.unitSize

end Record

namespace Walk

/-- The cursor moves forward, past the records that the step makes. -/
def Passes (step : Cursor → Step) : Prop :=
  ∀ c rs c', step c = .ok (rs, c') → c.offset ≤ c'.offset ∧ ∀ r ∈ rs, r.byteStop ≤ c'.offset

theorem sequence_passes {α : Type} {step : α → Cursor → Step} {xs : List α} (h : ∀ x ∈ xs, Passes (step x)) :
    Passes (sequence step xs) := by
  induction xs with
  | nil =>
    intro c rs c' hstep
    cases hstep
    simp
  | cons x rest ih =>
    intro c rs c' hstep
    simp only [sequence] at hstep
    split at hstep
    · cases hstep
    rename_i records next hx
    obtain ⟨⟨tail, last⟩, htail, heq⟩ := map_eq_ok.mp hstep
    cases heq
    obtain ⟨hnext, hrecords⟩ := h x List.mem_cons_self c records next hx
    obtain ⟨hlast, htails⟩ := ih (fun y hy => h y (List.mem_cons_of_mem _ hy)) next tail _ htail
    refine ⟨Nat.le_trans hnext hlast, fun r hr => ?_⟩
    rcases List.mem_append.mp hr with hr | hr
    · exact Nat.le_trans (hrecords r hr) hlast
    · exact htails r hr

theorem eachItem_passes {p : Place} {e : Element} {body : Place → Cursor → Step} (h : ∀ p, Passes (body p)) :
    Passes (eachItem p e body) := by
  intro c rs c' hstep
  unfold eachItem at hstep
  split at hstep
  · exact h _ c rs c' hstep
  · exact sequence_passes (fun q _ => h q) { c with uid := c.uid + 1 } rs c' hstep

theorem leaf_passes (e : Element) (p : Place) : Passes (leaf e p) := by
  intro c rs c' hstep
  cases hstep
  exact ⟨Nat.le_add_right _ _, fun r hr => List.mem_singleton.mp hr ▸ Nat.le_refl _⟩

theorem bits_passes (b : Bitfield) (p : Place) : Passes (bits b p) := by
  intro c rs c' hstep
  cases hstep
  refine ⟨Nat.le_add_right _ _, fun r hr => ?_⟩
  obtain ⟨m, _, rfl⟩ := List.mem_map.mp hr
  exact Nat.le_refl _

theorem visit_passes (table : TypeTable) (depth : Nat) (p : Place) (e : Element) :
    Passes (visit table depth p e) := by
  induction depth using Nat.strongRecOn generalizing p e with
  | _ depth ih =>
    intro c rs c' hstep
    rcases visit_eq_ok hstep with ⟨_, h⟩ | ⟨_, b, _, _, h⟩ | ⟨_, t, below, _, _, rfl, h⟩
    · exact eachItem_passes (leaf_passes e) c rs c' h
    · exact eachItem_passes (bits_passes b) c rs c' h
    · refine eachItem_passes (fun q => ?_) c rs c' h
      exact sequence_passes fun f _ => ih below (Nat.lt_succ_self below) q f

theorem flatten_passes {table : TypeTable} (ht : table.Resolved) {name : String} {root : Typedef}
    (hroot : table.typedefs.get? name = some root) {uid next : Nat} {rs : List Record}
    (h : flatten table root uid = .ok (rs, next)) : ∀ r ∈ rs, r.byteStop ≤ root.size := by
  obtain ⟨⟨records, c⟩, hwalk, heq⟩ := map_eq_ok.mp h
  cases heq
  have all := sequence_advances fun e he =>
    visit_advances ht table.typedefs.length ⟨none, root.props, []⟩ (ht.sized name root hroot e he)
  obtain ⟨hoffset, _⟩ := all _ _ _ hwalk
  rw [total_chained (ht.chained name root hroot), ← hoffset]
  exact (sequence_passes (fun e _ => visit_passes table _ _ e) _ _ _ hwalk).2

end Walk

theorem FlatMap.WalkedIn.byteStop_le {table : TypeTable} (ht : table.Resolved) {m : FlatMap}
    (h : m.WalkedIn table) : ∀ r ∈ m.records, r.byteStop ≤ m.size := by
  obtain ⟨root, records, uid, next, hroot, hsize, hwalk, hplace⟩ := h
  intro r hr
  have hin : r.placement ∈ records.map Record.placement := hplace ▸ List.mem_map_of_mem hr
  obtain ⟨s, hs, heq⟩ := List.mem_map.mp hin
  simp only [Record.placement, Placement.mk.injEq] at heq
  have stop := Walk.flatten_passes ht hroot hwalk s hs
  rw [Record.byteStop, heq.2.1, heq.2.2.2.1, ← hsize] at stop
  exact stop

theorem Resolution.byteStop_le {d : Description} {c : ResolvedMap} (h : resolve d patterns = .ok c) {m : FlatMap}
    (hm : m ∈ c.maps) : ∀ r ∈ m.records, r.byteStop ≤ m.size := by
  obtain ⟨table, walked⟩ := resolve_walkedFrom h
  exact (walked.walked m hm).byteStop_le walked.resolved

end AddressMap
