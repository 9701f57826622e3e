import AddressMap.Proofs.View.Finish
import AddressMap.Proofs.View.Override
import AddressMap.Proofs.View.Reading

set_option autoImplicit false

/-!
Each stage takes states of the same view to states of the same view, and succeeds on both or on neither,
if it is given the same section up to the order of keys. Overrides must be given in the same order.
-/

namespace AddressMap

variable {patterns : PatternReader}

namespace Resolution

/-- Everything that the fingerprints and the stages before them see. -/
structure Seen where
  scope : Scope
  metadata : Option Metadata
  defaultMap : Option String
  maps : Entries (List Record)

def view (r : Resolution) : Seen :=
  ⟨r.scope.view every, r.metadata.map Metadata.view, r.defaultMap, seenMaps every r.maps⟩

variable {r r' : Resolution} {es fs : Props}

theorem view_of_beside (h : r.view = r'.view) {s s' : Resolution} (hs : r.Beside s) (hs' : r'.Beside s')
    (hscope : s.scope.view every = s'.scope.view every) : s.view = s'.view := by
  obtain ⟨_, hmetadata, hdefault, hmaps⟩ := Seen.mk.inj h
  obtain ⟨h₁, h₂, h₃⟩ := hs
  obtain ⟨h₁', h₂', h₃'⟩ := hs'
  unfold view
  rw [h₁, h₂, h₃, h₁', h₂', h₃', hscope, hmetadata, hdefault, hmaps]

theorem reached_view_of_beside (h : r.view = r'.view) {o o' : Outcome Resolution}
    (hscope : o.reached.map (fun s => s.scope.view every) = o'.reached.map fun s => s.scope.view every)
    (ho : ∀ s, o = .done s → r.Beside s) (ho' : ∀ s, o' = .done s → r'.Beside s) :
    o.reached.map view = o'.reached.map view := by
  rcases both_of_views hscope with ⟨hs, hs'⟩ | ⟨s, s', hs, hs', scopes⟩
  · rw [hs, hs']
  · have beside := ho s (Outcome.reached_eq_some.mp hs)
    have beside' := ho' s' (Outcome.reached_eq_some.mp hs')
    rw [hs, hs']
    exact congrArg some (view_of_beside h beside beside' scopes)

section Types

variable (h : r.view = r'.view) (hes : Props.view every es = Props.view every fs)
include h hes

theorem addDefines_view : (r.addDefines es).reached.map view = (r'.addDefines fs).reached.map view :=
  reached_view_of_beside h (addDefines_congr (Seen.mk.inj h).1 (Define.pendingAll_congr hes))
    (fun _ => addDefines_beside) fun _ => addDefines_beside

theorem addEnums_view : (r.addEnums es).reached.map view = (r'.addEnums fs).reached.map view := by
  have read := readAlike_of_view hes .enums Declaration.enum?_sortKeys
  exact reached_view_of_beside h (addEnums_congr (Seen.mk.inj h).1 read)
    (fun _ => addEnums_beside) fun _ => addEnums_beside

theorem addBitfields_view : (r.addBitfields es).reached.map view = (r'.addBitfields fs).reached.map view := by
  have read := readAlike_of_view hes .bitfields Declaration.bitfield?_sortKeys
  exact reached_view_of_beside h (addBitfields_congr (Seen.mk.inj h).1 read)
    (fun _ => addBitfields_beside) fun _ => addBitfields_beside

theorem addTypedefs_view : (r.addTypedefs es).reached.map view = (r'.addTypedefs fs).reached.map view := by
  have read := readAlike_of_view hes .typedefs Declaration.typedef?_sortKeys
  exact reached_view_of_beside h (addTypedefs_congr (Seen.mk.inj h).1 read)
    (fun _ => addTypedefs_beside) fun _ => addTypedefs_beside

end Types

theorem addMetadata_reached (r : Resolution) (es : Props) : (r.addMetadata es).reached =
    if es.isEmpty then some r
    else (Metadata.resolve es).toOption.map fun m => { r with metadata := some m, defaultMap := m.defaultMap } := by
  unfold addMetadata
  split
  · rfl
  · cases Metadata.resolve es <;> rfl

theorem isEmpty_congr (hes : Props.view every es = Props.view every fs) : es.isEmpty = fs.isEmpty := by
  rw [Props.view_every, Props.view_every] at hes
  have lengths := congrArg List.length hes
  rw [Value.length_sorted, Value.length_sorted] at lengths
  rw [Bool.eq_iff_iff, List.isEmpty_iff, List.isEmpty_iff, ← List.length_eq_zero_iff, ← List.length_eq_zero_iff,
    lengths]

theorem addMetadata_view (h : r.view = r'.view) (hes : Props.view every es = Props.view every fs) :
    (r.addMetadata es).reached.map view = (r'.addMetadata fs).reached.map view := by
  rw [addMetadata_reached, addMetadata_reached, isEmpty_congr hes]
  split
  · exact congrArg some h
  · rw [Option.map_map, Option.map_map]
    refine map_congr_of_views (Metadata.resolve_congr hes) fun m m' hm => ?_
    exact congrArg₂ (fun (t : Seen) (m : Metadata) => { t with
      scope := { t.scope with fallback := m.defaultType, align := m.align, structAlign := m.structAlign }
      metadata := some m
      defaultMap := m.defaultMap : Seen }) h hm

theorem checkDefaultMap_reached (r : Resolution) (names : List String) : (r.checkDefaultMap names).reached =
    if r.defaultMap.all names.contains then
      some { r with defaultMap := if names.length = 1 then names.head? else r.defaultMap }
    else none := by
  obtain ⟨_, _, _, _, _, _, _, _, _, _, _, defaultMap⟩ := r
  unfold checkDefaultMap
  -- A single name takes the place of any default map; the cases are those of its pattern.
  cases defaultMap with
  | none => rcases names with _ | ⟨only, _ | ⟨second, rest⟩⟩ <;> rfl
  | some name =>
    rw [Option.all_some]
    dsimp only
    by_cases h : names.contains name = true
    · rw [if_pos h, if_pos h]
      rcases names with _ | ⟨only, _ | ⟨second, rest⟩⟩ <;> rfl
    · rw [if_neg h, if_neg h]
      rfl

theorem checkDefaultMap_congr {names names' : List String} (hn : names.Perm names') (h : r.view = r'.view) :
    (r.checkDefaultMap names).reached.map view = (r'.checkDefaultMap names').reached.map view := by
  have hdefault : r.defaultMap = r'.defaultMap := (Seen.mk.inj h).2.2.1
  have chosen : (if names.length = 1 then names.head? else r.defaultMap) =
      if names'.length = 1 then names'.head? else r'.defaultMap := by
    rw [hdefault]
    by_cases hone : names.length = 1
    · obtain ⟨only, rfl⟩ := List.length_eq_one_iff.mp hone
      rw [List.singleton_perm.mp hn]
    · rw [if_neg hone, if_neg (hn.length_eq ▸ hone)]
  have known : r.defaultMap.all names.contains = r'.defaultMap.all names'.contains := by
    rw [hdefault, show names.contains = names'.contains from funext fun name => hn.contains_eq]
  rw [checkDefaultMap_reached, checkDefaultMap_reached, known, chosen]
  split
  · exact congrArg (fun t : Seen => some { t with
      defaultMap := if names'.length = 1 then names'.head? else r'.defaultMap }) h
  · rfl

theorem keys_perm_of_byName {α β : Type} {v : α → β} {entries entries' : Entries α}
    (h : byName v entries = byName v entries') : entries.keys.Perm entries'.keys := by
  have sorted : ∀ entries : Entries α, (byName v entries).keys.Perm entries.keys := by
    intro entries
    refine ((Entries.sortByKey_perm _).map _).trans ?_
    simp [Entries.keys, Entries.mapValues, Function.comp_def]
  exact (sorted entries).symm.trans (h ▸ sorted entries')

theorem addMaps_reached (r : Resolution) (es : Props) : (r.addMaps es).reached =
    (readEntries .maps Declaration.map? es).toOption.bind fun entries =>
      if entries.isEmpty then none
      else (flattenAll ⟨r.typedefs, r.bitfields⟩ 1 r.maps entries).reached.bind fun maps =>
        (checkDefaultMap { r with maps } entries.keys).reached := by
  unfold addMaps
  cases readEntries .maps Declaration.map? es with
  | error e => rfl
  | ok entries =>
    simp only [Except.toOption, Option.bind_some]
    split
    · rfl
    · obtain ⟨maps, e⟩ := flattenAll ⟨r.typedefs, r.bitfields⟩ 1 r.maps entries
      cases e <;> rfl

theorem addMaps_view (h : r.view = r'.view) (hes : Props.view every es = Props.view every fs) :
    (r.addMaps es).reached.map view = (r'.addMaps fs).reached.map view := by
  have read := readAlike_of_view hes .maps Declaration.map?_sortKeys
  rw [addMaps_reached, addMaps_reached]
  refine bind_map_congr read fun entries entries' hentries => ?_
  have keys := keys_perm_of_byName hentries
  have none : entries.isEmpty = entries'.isEmpty := by
    have all := keys.isEmpty_eq
    rwa [Entries.keys, Entries.keys, List.isEmpty_map, List.isEmpty_map] at all
  rw [none]
  split
  · rfl
  · obtain ⟨scope, _, _, maps⟩ := Seen.mk.inj h
    obtain ⟨_, _, _, _, _, bitfields, typedefs⟩ := Scope.mk.inj scope
    have tables : TypeTable.view every ⟨r.typedefs, r.bitfields⟩ =
        TypeTable.view every ⟨r'.typedefs, r'.bitfields⟩ := congrArg₂ TypeTable.mk typedefs bitfields
    refine bind_map_congr (flattenAll_congr tables 1 1 maps hentries) fun ms ms' hms => ?_
    exact checkDefaultMap_congr keys (congrArg₂ (fun (t : Seen) maps => { t with maps : Seen }) h hms)

theorem addOverrides_view (h : r.view = r'.view) (es : Props) (patterns : PatternReader) :
    (r.addOverrides es patterns).reached.map view = (r'.addOverrides es patterns).reached.map view := by
  have split : ∀ r : Resolution, (r.addOverrides es patterns).reached =
      (Override.applyAll patterns r.defaultMap r.maps es).reached.map fun maps => { r with maps } :=
    fun r => Outcome.reached_map _ fun maps => { r with maps }
  obtain ⟨_, _, hdefault, hmaps⟩ := Seen.mk.inj h
  have applied : (Override.applyAll patterns r.defaultMap r.maps es).reached.map (seenMaps every) =
      (Override.applyAll patterns r'.defaultMap r'.maps es).reached.map (seenMaps every) := by
    rw [show r.defaultMap = r'.defaultMap from hdefault]
    exact Override.applyAll_congr r'.defaultMap hmaps es
  rw [split, split, Option.map_map, Option.map_map]
  refine map_congr_of_views applied fun ms ms' hms => ?_
  exact congrArg₂ (fun (t : Seen) maps => { t with maps : Seen }) h hms

theorem userBits_congr (h : r.view = r'.view) : r.userBits = r'.userBits := by
  have users : ∀ r : Resolution, r.userBits =
      Metadata.userBits ((r.view.metadata.map (·.users)).getD []) := by
    intro r
    unfold userBits view
    rw [Option.map_map]
    rfl
  rw [users, users, h]

theorem finishRecords_view (h : r.view = r'.view) :
    r.finishRecords.reached.map view = r'.finishRecords.reached.map view := by
  have split : ∀ r : Resolution, r.finishRecords.reached =
      (finishAll (finishMap r.userBits r.env) r.maps).reached.map fun maps => { r with maps } :=
    fun r => Outcome.reached_map _ fun maps => { r with maps }
  obtain ⟨scope, _, _, hmaps⟩ := Seen.mk.inj h
  have finished : (finishAll (finishMap r.userBits r.env) r.maps).reached.map (seenMaps every) =
      (finishAll (finishMap r'.userBits r'.env) r'.maps).reached.map (seenMaps every) := by
    rw [userBits_congr h, show r.env = r'.env from (Scope.mk.inj scope).1]
    exact finishAll_congr r'.userBits r'.env hmaps
  rw [split, split, Option.map_map, Option.map_map]
  refine map_congr_of_views finished fun ms ms' hms => ?_
  exact congrArg₂ (fun (t : Seen) maps => { t with maps : Seen }) h hms

end Resolution

end AddressMap
