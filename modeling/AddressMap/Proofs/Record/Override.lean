import AddressMap.Proofs.Record.Patch
import Mathlib.Data.List.Nodup

set_option autoImplicit false

namespace AddressMap

variable {patterns : PatternReader}

namespace Override

section Touch

variable (patterns) (defaultMap : Option String) (map : String)

def hits (record : String) (e : String × Value) : Bool :=
  match read patterns defaultMap e.1 e.2 with
  | .ok o => o.mapName = map && o.selector.selects record
  | .error _ => false

def touch (r : Record) (e : String × Value) : Record :=
  match read patterns defaultMap e.1 e.2 with
  | .ok o => if o.mapName = map then o.patchRecord r else r
  | .error _ => r

def touchAll (es : Props) (r : Record) : Record := es.foldl (touch patterns defaultMap map) r

theorem touch_placement (r : Record) (e : String × Value) :
    (touch patterns defaultMap map r e).placement = r.placement := by
  unfold touch
  split
  · split
    · exact patchRecord_placement _ r
    · rfl
  · rfl

theorem touchAll_placement (es : Props) (r : Record) :
    (touchAll patterns defaultMap map es r).placement = r.placement := by
  unfold touchAll
  induction es generalizing r with
  | nil => rfl
  | cons e rest ih => exact (ih _).trans (touch_placement patterns defaultMap map r e)

theorem touch_of_not_hits {r : Record} {e : String × Value} (h : hits patterns defaultMap map r.name e = false) :
    touch patterns defaultMap map r e = r := by
  unfold hits at h
  unfold touch
  split
  · rename_i o ho
    simp only [ho, Bool.and_eq_false_iff, decide_eq_false_iff_not] at h
    split
    · rename_i hmap
      rw [Entry.patchRecord, h.resolve_left (absurd hmap), if_neg Bool.false_ne_true]
    · rfl
  · rfl

/-- Overrides that do not hit a record have no part in what is left of it. -/
theorem touchAll_filter (es : Props) (r : Record) :
    touchAll patterns defaultMap map (es.filter (hits patterns defaultMap map r.name)) r =
      touchAll patterns defaultMap map es r := by
  unfold touchAll
  induction es generalizing r with
  | nil => rfl
  | cons e rest ih =>
    have name : (touch patterns defaultMap map r e).name = r.name :=
      congrArg Placement.name (touch_placement patterns defaultMap map r e)
    rw [List.foldl_cons]
    cases h : hits patterns defaultMap map r.name e with
    | true =>
      rw [List.filter_cons_of_pos h, List.foldl_cons, ← ih, name]
    | false =>
      rw [List.filter_cons_of_neg (by rw [h]; exact Bool.false_ne_true),
        touch_of_not_hits patterns defaultMap map h, ih]

end Touch

section Runs

variable {defaultMap : Option String} {maps maps' : List FlatMap}

/-- A map whose records are all patched on their own. -/
def touched (patterns : PatternReader) (defaultMap : Option String) (es : Props) (m : FlatMap) : FlatMap :=
  { m with records := m.records.map (touchAll patterns defaultMap m.name es) }

theorem touched_frame (es : Props) (m : FlatMap) : (touched patterns defaultMap es m).frame = m.frame := by
  have same : Record.placement ∘ touchAll patterns defaultMap m.name es = Record.placement :=
    funext (touchAll_placement patterns defaultMap m.name es)
  simp only [FlatMap.frame, touched, List.map_map, same]

def Reaches (patterns : PatternReader) (defaultMap : Option String) (maps : List FlatMap) (e : String × Value) :
    Prop :=
  ∃ m ∈ maps, ∃ r ∈ m.records, hits patterns defaultMap m.name r.name e

theorem reaches_iff_frame {e : String × Value} : Reaches patterns defaultMap maps e ↔
    ∃ f ∈ maps.map FlatMap.frame, ∃ p ∈ f.placements, hits patterns defaultMap f.name p.name e := by
  unfold Reaches
  simp only [List.mem_map, FlatMap.frame, exists_exists_and_eq_and, Record.placement]

theorem updateMap_eq_map {name : String} (f : FlatMap → FlatMap) (hn : (maps.map FlatMap.name).Nodup) :
    updateMap f name maps = maps.map fun m => if m.name = name then f m else m := by
  induction maps with
  | nil => rfl
  | cons m rest ih =>
    rw [List.map_cons, List.nodup_cons] at hn
    rw [updateMap, List.map_cons]
    by_cases h : m.name = name
    · rw [if_pos h, if_pos h]
      have others : ∀ m' ∈ rest, (if m'.name = name then f m' else m') = m' := by
        intro m' hm'
        refine if_neg fun hname => hn.1 ?_
        rw [h, ← hname]
        exact List.mem_map_of_mem hm'
      rw [List.map_congr_left others, List.map_id']
    · rw [if_neg h, if_neg h, ih hn.2]

theorem touched_single {key : String} {v : Value} {o : Entry} (h : read patterns defaultMap key v = .ok o)
    (m : FlatMap) : touched patterns defaultMap [(key, v)] m = if m.name = o.mapName then o.applyTo m else m := by
  have step : touchAll patterns defaultMap m.name [(key, v)] = fun r =>
      if o.mapName = m.name then o.patchRecord r else r := by
    funext r
    simp only [touchAll, List.foldl_cons, List.foldl_nil, touch, h]
  unfold touched
  rw [step]
  by_cases hname : m.name = o.mapName
  · simp only [if_pos hname, if_pos hname.symm]
    rfl
  · rw [if_neg hname]
    simp only [if_neg (Ne.symm hname), List.map_id']

theorem touched_cons (e : String × Value) (es : Props) (m : FlatMap) :
    touched patterns defaultMap (e :: es) m = touched patterns defaultMap es (touched patterns defaultMap [e] m) := by
  simp only [touched, List.map_map]
  rfl

theorem apply_eq_ok (hn : (maps.map FlatMap.name).Nodup) {key : String} {v : Value} :
    (read patterns defaultMap key v).bind (fun o => o.apply maps) = .ok maps' ↔
      Reaches patterns defaultMap maps (key, v) ∧ maps' = maps.map (touched patterns defaultMap [(key, v)]) := by
  unfold Reaches hits
  cases hread : read patterns defaultMap key v with
  | error e => simp [Except.bind]
  | ok o =>
    simp only [Except.bind, Bool.and_eq_true, decide_eq_true_eq, funext (touched_single hread)]
    unfold Entry.apply
    cases hfind : maps.find? fun m => m.name = o.mapName with
    | none =>
      have none : ∀ m ∈ maps, m.name ≠ o.mapName := by simpa using List.find?_eq_none.mp hfind
      simp only [reduceCtorEq, false_iff, not_and]
      rintro ⟨m, hm, r, _, hmap, _⟩
      exact absurd hmap.symm (none m hm)
    | some m =>
      have found : m.name = o.mapName := by simpa using List.find?_some hfind
      have hm : m ∈ maps := List.mem_of_find?_eq_some hfind
      have reached : (m.records.any fun r => o.selector.selects r.name) = true ↔
          ∃ m ∈ maps, ∃ r ∈ m.records, o.mapName = m.name ∧ o.selector.selects r.name := by
        rw [List.any_eq_true]
        constructor
        · rintro ⟨r, hr, hs⟩
          exact ⟨m, hm, r, hr, found.symm, hs⟩
        · rintro ⟨m', hm', r, hr, hmap, hs⟩
          have same : m' = m := List.inj_on_of_nodup_map hn hm' hm (hmap.symm.trans found.symm)
          exact ⟨r, same ▸ hr, hs⟩
      dsimp only
      rw [← reached, updateMap_eq_map _ hn]
      by_cases hany : (m.records.any fun r => o.selector.selects r.name) = true
      · rw [if_pos hany]
        simp [hany, eq_comm]
      · simp [hany, invalid]

/-- A run succeeds exactly if each override reaches a record, and then every record is patched on its own. -/
theorem applyAll_eq_done (hn : (maps.map FlatMap.name).Nodup) {es : Props} :
    applyAll patterns defaultMap maps es = .done maps' ↔
      (∀ e ∈ es, Reaches patterns defaultMap maps e) ∧ maps' = maps.map (touched patterns defaultMap es) := by
  induction es generalizing maps with
  | nil =>
    have same : maps.map (touched patterns defaultMap []) = maps := by
      refine (List.map_congr_left fun m _ => ?_).trans (List.map_id' maps)
      exact congrArg (fun rs => { m with records := rs }) (List.map_id' m.records)
    simp [applyAll, Outcome.done, same, eq_comm]
  | cons e rest ih =>
    obtain ⟨key, v⟩ := e
    have frames : (maps.map (touched patterns defaultMap [(key, v)])).map FlatMap.frame = maps.map FlatMap.frame := by
      rw [List.map_map]
      exact List.map_congr_left fun m _ => touched_frame _ m
    have names : ((maps.map (touched patterns defaultMap [(key, v)])).map FlatMap.name).Nodup := by
      rwa [List.map_map]
    -- What was applied before does not change whom an override reaches, as names stay.
    have later : ∀ e, Reaches patterns defaultMap (maps.map (touched patterns defaultMap [(key, v)])) e ↔
        Reaches patterns defaultMap maps e := by
      intro e
      rw [reaches_iff_frame, frames, ← reaches_iff_frame]
    have composed : touched patterns defaultMap rest ∘ touched patterns defaultMap [(key, v)] =
        touched patterns defaultMap ((key, v) :: rest) := funext fun m => (touched_cons _ rest m).symm
    rw [applyAll, List.forall_mem_cons]
    constructor
    · intro h
      split at h
      · cases h
      · rename_i next hnext
        obtain ⟨reaches, rfl⟩ := (apply_eq_ok hn).mp hnext
        obtain ⟨others, rfl⟩ := (ih names).mp h
        rw [List.map_map, composed]
        exact ⟨⟨reaches, fun e he => (later e).mp (others e he)⟩, rfl⟩
    · rintro ⟨⟨reaches, others⟩, rfl⟩
      rw [(apply_eq_ok hn).mpr ⟨reaches, rfl⟩]
      dsimp only
      refine (ih names).mpr ⟨fun e he => (later e).mpr (others e he), ?_⟩
      rw [List.map_map, composed]

end Runs

end Override

end AddressMap
