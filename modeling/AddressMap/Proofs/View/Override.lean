import AddressMap.Proofs.Record.Patch
import AddressMap.Proofs.View.Stages

set_option autoImplicit false

namespace AddressMap

variable {patterns : PatternReader}

open Resolution (recordsOf seenMaps byName)

namespace Override

variable {r s : Record} {es fs : Props}

theorem changesDefault_congr (h : r.view every = s.view every) (hes : Props.view every es = Props.view every fs) :
    changesDefault r es = changesDefault s fs := by
  have new := Props.get?_congr hes "default" rfl
  have old := Props.get?_congr (congrArg Record.props h) "default" rfl
  unfold changesDefault
  rcases both_of_views new with ⟨hx, hy⟩ | ⟨x, y, hx, hy, hxy⟩
  · rw [hx, hy]
  · rw [hx, hy]
    dsimp only
    rcases both_of_views old with ⟨hv, hw⟩ | ⟨v, w, hv, hw, hvw⟩
    · rw [hv, hw]
    · rw [hv, hw]
      dsimp only
      rw [← Value.same_sortKeys v x, ← Value.same_sortKeys w y, hxy, hvw]

theorem patch_congr (h : r.view every = s.view every) (hes : Props.view every es = Props.view every fs)
    (hd : descriptionAfter es r.description = descriptionAfter fs s.description) :
    (patch r es).view every = (patch s fs).view every := by
  have free : Props.view every (r.props.merge (es.only fun key => key ≠ "description")) =
      Props.view every (s.props.merge (fs.only fun key => key ≠ "description")) := by
    refine Props.view_merge (congrArg Record.props h) ?_
    have kept : Props.view (fun key => key ≠ "description") es = Props.view (fun key => key ≠ "description") fs :=
      Props.view_of_view hes fun _ _ => rfl
    rw [Props.view_every, Props.view_every]
    exact kept
  rw [patch_eq, patch_eq, changesDefault_congr h hes, hd]
  exact congrArg₂ (fun t props => { t with
    description := descriptionAfter fs s.description
    props
    defaultChanged := some (changesDefault s fs) : Record }) h free

theorem Entry.patchRecord_congr (e : Entry) (h : r.view every = s.view every) :
    (e.patchRecord r).view every = (e.patchRecord s).view every := by
  unfold patchRecord
  rw [Record.name_congr h]
  split
  · exact patch_congr h rfl (by rw [Record.description_congr h])
  · exact h

theorem get?_recordsOf (maps : List FlatMap) (name : String) :
    (recordsOf maps).get? name = (maps.find? fun m => m.name = name).map FlatMap.records := by
  rw [Entries.get?_eq_find?, recordsOf, List.find?_map, Option.map_map]
  rfl

theorem Entry.recordsOf_updateMap (e : Entry) {name : String} {maps : List FlatMap} {m : FlatMap}
    (h : maps.find? (fun m => m.name = name) = some m) :
    recordsOf (updateMap e.applyTo name maps) = (recordsOf maps).set name (m.records.map e.patchRecord) := by
  induction maps with
  | nil => cases h
  | cons first rest ih =>
    simp only [updateMap, recordsOf, List.map_cons, Entries.set]
    by_cases hn : first.name = name
    · rw [List.find?_cons_of_pos (by simpa using hn)] at h
      cases h
      simp [hn, applyTo]
    · rw [List.find?_cons_of_neg (by simpa using hn)] at h
      rw [if_neg hn, if_neg hn, List.map_cons]
      exact congrArg _ (ih h)

theorem Entry.apply_toOption (e : Entry) (maps : List FlatMap) : (e.apply maps).toOption.map recordsOf =
    ((recordsOf maps).get? e.mapName).bind fun rs =>
      if rs.any fun r => e.selector.selects r.name then
        some ((recordsOf maps).set e.mapName (rs.map e.patchRecord))
      else none := by
  rw [get?_recordsOf]
  unfold apply
  cases hm : maps.find? fun m => m.name = e.mapName with
  | none => rfl
  | some m =>
    simp only [Option.map_some, Option.bind_some]
    split
    · simp only [Except.toOption, Option.map_some, e.recordsOf_updateMap hm]
    · rfl

theorem applyAll_reached (defaultMap : Option String) (maps : List FlatMap) (key : String) (v : Value)
    (rest : Props) : (applyAll patterns defaultMap maps ((key, v) :: rest)).reached =
      (read patterns defaultMap key v).toOption.bind fun e => (e.apply maps).toOption.bind fun maps =>
        (applyAll patterns defaultMap maps rest).reached := by
  rw [applyAll]
  cases read patterns defaultMap key v with
  | error e => rfl
  | ok e =>
    simp only [Except.bind, Except.toOption, Option.bind_some]
    cases e.apply maps <;> rfl

theorem Entry.apply_congr (e : Entry) {maps maps' : List FlatMap}
    (h : seenMaps every maps = seenMaps every maps') :
    (e.apply maps).toOption.map (seenMaps every) = (e.apply maps').toOption.map (seenMaps every) := by
  have seen : ∀ o : Option (List FlatMap), o.map (seenMaps every) =
      (o.map recordsOf).map (byName (List.map (Record.view every))) := by
    intro o
    rw [Option.map_map]
    rfl
  rw [seen, seen, apply_toOption, apply_toOption]
  have found : ((recordsOf maps).get? e.mapName).map (List.map (Record.view every)) =
      ((recordsOf maps').get? e.mapName).map (List.map (Record.view every)) := by
    rw [← Entries.get?_mapValues, ← Entries.get?_mapValues]
    exact Entries.get?_congr h e.mapName
  refine bind_map_congr found fun rs ss hrs => ?_
  have names : (rs.any fun r => e.selector.selects r.name) = ss.any fun s => e.selector.selects s.name := by
    have any := congrArg (List.any · fun r => e.selector.selects r.name) hrs
    rwa [List.any_map, List.any_map] at any
  rw [names]
  split
  · refine congrArg some ?_
    unfold byName
    rw [← Entries.set_mapValues, ← Entries.set_mapValues]
    have patched : (rs.map e.patchRecord).map (Record.view every) =
        (ss.map e.patchRecord).map (Record.view every) := by
      rw [List.map_map, List.map_map]
      exact list_map_of_views hrs fun r s hview => e.patchRecord_congr hview
    rw [patched]
    exact Entries.set_congr h _ _
  · rfl

theorem applyAll_congr (defaultMap : Option String) {maps maps' : List FlatMap}
    (h : seenMaps every maps = seenMaps every maps') (es : Props) :
    (applyAll patterns defaultMap maps es).reached.map (seenMaps every) =
      (applyAll patterns defaultMap maps' es).reached.map (seenMaps every) := by
  induction es generalizing maps maps' with
  | nil => exact congrArg some h
  | cons e rest ih =>
    obtain ⟨key, v⟩ := e
    rw [applyAll_reached, applyAll_reached]
    refine bind_map_same _ fun e => ?_
    exact bind_map_congr (e.apply_congr h) fun ms ms' hms => ih hms

end Override

end AddressMap
