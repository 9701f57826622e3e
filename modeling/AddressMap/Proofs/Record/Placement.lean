import AddressMap.Proofs.Resolution.Stages
import Mathlib.Data.List.Forall2

set_option autoImplicit false

/-!
Overrides patch the free keys and the description of a record, and finishing adds its rights and values.
Neither touches where a record lies: its name, offset, shape, size and arrays stay as the walk made them,
and so does the order of the records.
-/

namespace AddressMap

variable {patterns : PatternReader}

/-- The part of a record that the walk fixes for good. -/
structure Placement where
  name : String
  mapOffset : Nat
  shape : Shape
  unitSize : Nat
  arrays : List ArrayLevel

def Record.placement (r : Record) : Placement := ⟨r.name, r.mapOffset, r.shape, r.unitSize, r.arrays⟩

/-- The part of a map that flattening fixes for good. -/
structure FlatMap.Frame where
  name : String
  type : String
  size : Nat
  placements : List Placement

def FlatMap.frame (m : FlatMap) : FlatMap.Frame := ⟨m.name, m.type, m.size, m.records.map Record.placement⟩

theorem names_of_frames {ms ns : List FlatMap} (h : ms.map FlatMap.frame = ns.map FlatMap.frame) :
    ms.map FlatMap.name = ns.map FlatMap.name := by
  have framed := congrArg (List.map FlatMap.Frame.name) h
  rwa [List.map_map, List.map_map] at framed

namespace Override

theorem setKey_placement (r : Record) (key : String) (v : Value) :
    (setKey r key v).placement = r.placement := by
  unfold setKey
  split <;> rfl

theorem patch_placement (r : Record) (changes : Props) : (patch r changes).placement = r.placement := by
  have keys : ∀ r : Record,
      (changes.foldl (fun r e => setKey r e.1 e.2) r).placement = r.placement := by
    induction changes with
    | nil => exact fun _ => rfl
    | cons e rest ih =>
      intro r
      rw [List.foldl_cons, ih]
      exact setKey_placement r e.1 e.2
  exact keys r

theorem patchRecord_placement (e : Entry) (r : Record) : (e.patchRecord r).placement = r.placement := by
  unfold Entry.patchRecord
  split
  · exact patch_placement r e.changes
  · rfl

theorem applyTo_frame (e : Entry) (m : FlatMap) : (e.applyTo m).frame = m.frame := by
  have h : Record.placement ∘ e.patchRecord = Record.placement := by
    funext r
    exact patchRecord_placement e r
  simp only [Entry.applyTo, FlatMap.frame, List.map_map, h]

section Maps

variable {β : Type} {v : FlatMap → β} {maps maps' : List FlatMap}

theorem updateMap_map {f : FlatMap → FlatMap} (hf : ∀ m, v (f m) = v m) (name : String) (maps : List FlatMap) :
    (updateMap f name maps).map v = maps.map v := by
  induction maps with
  | nil => rfl
  | cons m rest ih =>
    unfold updateMap
    split
    · simp only [List.map_cons, hf]
    · simp only [List.map_cons, ih]

theorem apply_map {e : Entry} (hv : ∀ m, v (e.applyTo m) = v m) (h : e.apply maps = .ok maps') :
    maps'.map v = maps.map v := by
  unfold Entry.apply at h
  split at h
  · cases h
  · split at h
    · cases h
      exact updateMap_map hv e.mapName maps
    · cases h

theorem applyAll_map {defaultMap : Option String} {es : Props}
    (hv : ∀ key value e, read patterns defaultMap key value = .ok e → ∀ m, v (e.applyTo m) = v m)
    (h : applyAll patterns defaultMap maps es = .done maps') : maps'.map v = maps.map v := by
  induction es generalizing maps with
  | nil =>
    cases h
    rfl
  | cons e rest ih =>
    obtain ⟨key, value⟩ := e
    simp only [applyAll] at h
    split at h
    · cases h
    · rename_i next hnext
      obtain ⟨entry, hread, happly⟩ := bind_eq_ok.mp hnext
      rw [ih h, apply_map (hv key value entry hread) happly]

theorem applyAll_frame {defaultMap : Option String} {es : Props}
    (h : applyAll patterns defaultMap maps es = .done maps') : maps'.map FlatMap.frame = maps.map FlatMap.frame :=
  applyAll_map (fun _ _ e _ => applyTo_frame e) h

end Maps

end Override

namespace Resolution

theorem finishAll_eq_done {α : Type} {finish : α → Outcome α} {xs ys : List α}
    (h : finishAll finish xs = .done ys) : List.Forall₂ (fun x y => finish x = .done y) xs ys := by
  induction xs generalizing ys with
  | nil =>
    cases h
    exact .nil
  | cons x rest ih =>
    simp only [finishAll] at h
    split at h
    · cases h
    · rename_i hx
      simp only [Outcome.done, Outcome.mk.injEq] at h
      obtain ⟨rfl, hrest⟩ := h
      exact .cons (Outcome.eq_done_of_error_eq_none hx)
        (ih (Outcome.eq_done_of_error_eq_none hrest))

theorem finishAll_map {α β : Type} {finish : α → Outcome α} {view : α → β}
    (hv : ∀ x y, finish x = .done y → view y = view x) {xs ys : List α}
    (h : finishAll finish xs = .done ys) : ys.map view = xs.map view := by
  have pairs := finishAll_eq_done h
  clear h
  induction pairs with
  | nil => rfl
  | cons hxy _ ih => rw [List.map_cons, List.map_cons, hv _ _ hxy, ih]

theorem finishAll_forall {α : Type} {finish : α → Outcome α} {P : α → Prop}
    (hP : ∀ x y, finish x = .done y → P y) {xs ys : List α} (h : finishAll finish xs = .done ys) :
    ∀ y ∈ ys, P y := by
  have pairs := finishAll_eq_done h
  clear h
  induction pairs with
  | nil => simp
  | cons hxy _ ih => exact List.forall_mem_cons.mpr ⟨hP _ _ hxy, ih⟩

theorem finishRecord_steps {users : Entries Nat} {env : Env} {r r' : Record}
    (h : finishRecord users env r = .done r') :
    ∃ s, Access.resolve users r = .ok s ∧ Scaling.resolve env s = .ok r' := by
  unfold finishRecord at h
  split at h
  · cases h
  rename_i s hs
  split at h
  · cases h
  rename_i t ht
  cases h
  exact ⟨s, hs, ht⟩

theorem finishRecord_eq_done {users : Entries Nat} {env : Env} {r r' : Record}
    (h : finishRecord users env r = .done r') : ∃ readers writers scalingFactor default min max,
      r' = { r with readers, writers, scalingFactor, default, min, max } := by
  obtain ⟨s, hs, ht⟩ := finishRecord_steps h
  simp only [Access.resolve, bind_eq_ok] at hs
  obtain ⟨readers, _, writers, _, hs⟩ := hs
  cases hs
  simp only [Scaling.resolve, bind_eq_ok] at ht
  obtain ⟨factor, _, default, _, min, _, max, _, ht⟩ := ht
  cases ht
  exact ⟨readers, writers, factor, default, min, max, rfl⟩

theorem finishRecord_placement {users : Entries Nat} {env : Env} {r r' : Record}
    (h : finishRecord users env r = .done r') : r'.placement = r.placement := by
  obtain ⟨_, _, _, _, _, _, rfl⟩ := finishRecord_eq_done h
  rfl

theorem finishMap_eq_done {users : Entries Nat} {env : Env} {m m' : FlatMap}
    (h : finishMap users env m = .done m') : ∃ rs, finishAll (finishRecord users env) m.records = .done rs ∧
      m' = { m with records := rs, folded := LoopNest.fold rs } := by
  unfold finishMap at h
  dsimp only at h
  split at h
  · cases h
  · rename_i hnone
    cases h
    exact ⟨_, Outcome.eq_done_of_error_eq_none hnone, rfl⟩

theorem finishRecords_forall {users : Entries Nat} {env : Env} {P : Record → Prop}
    (hP : ∀ r r', finishRecord users env r = .done r' → P r') {maps maps' : List FlatMap}
    (h : finishAll (finishMap users env) maps = .done maps') : ∀ m ∈ maps', ∀ r ∈ m.records, P r := by
  refine finishAll_forall (fun m m' hm => ?_) h
  obtain ⟨rs, hrs, rfl⟩ := finishMap_eq_done hm
  exact finishAll_forall hP hrs

theorem finishMap_frame {users : Entries Nat} {env : Env} {m m' : FlatMap}
    (h : finishMap users env m = .done m') :
    m'.frame = m.frame ∧ m'.folded = LoopNest.fold m'.records := by
  obtain ⟨rs, hrs, rfl⟩ := finishMap_eq_done h
  exact ⟨by simp only [FlatMap.frame, finishAll_map (fun _ _ => finishRecord_placement) hrs], rfl⟩

theorem finishRecords_frame {users : Entries Nat} {env : Env} {maps maps' : List FlatMap}
    (h : finishAll (finishMap users env) maps = .done maps') :
    maps'.map FlatMap.frame = maps.map FlatMap.frame ∧
      ∀ m ∈ maps', m.folded = LoopNest.fold m.records := by
  exact ⟨finishAll_map (fun _ _ hm => (finishMap_frame hm).1) h,
    finishAll_forall (fun _ _ hm => (finishMap_frame hm).2) h⟩

end Resolution

end AddressMap
