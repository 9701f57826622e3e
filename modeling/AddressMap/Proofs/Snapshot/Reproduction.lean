import AddressMap.Proofs.FileSet
import AddressMap.Proofs.Fingerprint.Independence
import AddressMap.Proofs.Fingerprint.KeyOrder
import AddressMap.Proofs.Value.Distinct
import AddressMap.Proofs.View.Reordering
import AddressMap.Snapshot

set_option autoImplicit false

/-!
The snapshot of a description has all keys in ascending order. So it may apply overrides in another order than
the description does, and it keeps the fingerprints if that makes no difference: the overrides that hit one
record are in ascending order, and no description is a mapping whose text changes with the order of its keys.
The layout fingerprint is kept in any case.
-/

namespace AddressMap

variable {patterns : PatternReader}

namespace Description

theorem section?_snapshot (d : Description) (s : Section) :
    d.snapshot.section? s = (d.section? s).map (Props.view every) := by
  have sections : d.snapshot.sections = Props.view every d.sections := by
    rw [Props.view_every, ← Value.sortEntries_eq]
    rfl
  unfold section?
  rw [sections, Props.get?_view d.sections rfl]
  cases d.sections.get? s.name with
  | none => rfl
  | some v =>
    cases v with
    | object es =>
      rw [Option.map_some, Props.sortKeys_object]
      rfl
    | _ => rfl

theorem entries_snapshot (d : Description) (s : Section) :
    d.snapshot.entries s = Props.view every (d.entries s) := by
  unfold entries
  rw [section?_snapshot]
  cases d.section? s <;> simp

theorem section?_snapshot_view (d : Description) (s : Section) :
    (d.section? s).map (Props.view every) = (d.snapshot.section? s).map (Props.view every) := by
  rw [section?_snapshot, Option.map_map]
  exact congrArg (Option.map · _) (funext fun es => (Props.view_view es).symm)

end Description

/-- The map that overrides without one go to: the only map, else the one that the metadata names. -/
def ResolvedMap.defaultMap (c : ResolvedMap) : Option String :=
  if c.maps.length = 1 then (c.maps.map FlatMap.name).head? else c.metadata.defaultMap

/-- Overrides of one record are written in ascending order, and what they say does not change with the order
    of their keys. -/
structure ResolvedMap.OrderFree (c : ResolvedMap) (patterns : PatternReader) (overrides : Props) : Prop where
  ascending : ∀ m ∈ c.maps, ∀ r ∈ m.records,
    (overrides.filter (Override.hits patterns c.defaultMap m.name r.name)).Pairwise fun a b => a.1 ≤ b.1
  descriptions : ∀ e ∈ overrides, ∀ es, e.2 = .object es → ∀ text, Entries.get? es "description" = some text →
    Override.descriptionOf text.sortKeys = Override.descriptionOf text

namespace Resolution

variable {d : Description} {c : ResolvedMap}

theorem addMaps_defaultMap {r r' : Resolution} {es : Props} (h : r.addMaps es = .done r') (hm : r.maps = []) :
    r'.defaultMap = if r'.maps.length = 1 then (r'.maps.map FlatMap.name).head? else r.defaultMap := by
  have reached := Outcome.reached_eq_some.mpr h
  rw [addMaps_reached, Option.bind_eq_some_iff] at reached
  obtain ⟨entries, _, reached⟩ := reached
  split at reached
  · cases reached
  obtain ⟨maps, hmaps, reached⟩ := Option.bind_eq_some_iff.mp reached
  obtain ⟨names, _⟩ := flattenAll_eq_done (Outcome.reached_eq_some.mp hmaps)
  rw [checkDefaultMap_reached] at reached
  split at reached
  · cases reached
    have keys : maps.map FlatMap.name = entries.keys := by simpa [hm] using names
    have length : maps.length = entries.keys.length := by rw [← keys, List.length_map]
    simp only [keys, length]
  · cases reached

theorem overridden_of_resolve (h : resolve d patterns = .ok c) : ∃ r s t, flattened d = .done r ∧
    r.addOverrides (d.entries .overrides) patterns = .done s ∧ s.finishRecords = .done t ∧
    c.maps = t.maps ∧ c.maps.map FlatMap.frame = r.maps.map FlatMap.frame ∧ c.defaultMap = r.defaultMap := by
  obtain ⟨t, t', hdone, hprint, rfl⟩ := resolve_eq_ok.mp h
  rw [finished_eq] at hdone
  obtain ⟨s, hdone, ht⟩ := Outcome.andThen_eq_done.mp hdone
  obtain ⟨r, hr, hs⟩ := Outcome.andThen_eq_done.mp hdone
  obtain ⟨r₁, r₂, r₃, r₄, r₅, h₁, h₂, h₃, h₄, h₅, h₆⟩ := flattened_eq_done hr
  have kept := finished_metadata h₃ h₄ h₅ h₆ hs ht
  obtain ⟨m, hm, rfl⟩ := addFingerprints_eq_done hprint
  have frames : t.maps.map FlatMap.frame = r.maps.map FlatMap.frame := by
    obtain ⟨_, hover, rfl⟩ := addOverrides_eq_done hs
    obtain ⟨_, hfin, rfl⟩ := finishRecords_eq_done ht
    exact (finishRecords_frame hfin).1.trans (Override.applyAll_frame hover)
  have settled := addMaps_defaultMap h₆ (published_of_stages h₁ h₂ h₃ h₄ h₅).2
  have named : r₂.defaultMap = m.defaultMap := by
    rcases addMetadata_eq_done h₂ with rfl | ⟨m', _, rfl⟩
    · rw [kept, (addDefines_beside h₁).metadata] at hm
      cases hm
    · rw [hm] at kept
      cases kept
      rfl
  have beside := ((addEnums_beside h₃).trans (addBitfields_beside h₄)).trans (addTypedefs_beside h₅)
  have names : t.maps.map FlatMap.name = r.maps.map FlatMap.name := names_of_frames frames
  have length : t.maps.length = r.maps.length := by
    rw [← List.length_map FlatMap.name, names, List.length_map]
  refine ⟨r, s, t, hr, hs, ht, rfl, frames, ?_⟩
  rw [settled, beside.defaultMap, named, ← names, ← length]
  simp only [ResolvedMap.defaultMap, finish, Option.getD_some]
  exact if_congr Iff.rfl rfl rfl

theorem fwHash_snapshot {c' : ResolvedMap} (h : resolve d patterns = .ok c)
    (h' : resolve d.snapshot patterns = .ok c') : c'.metadata.fwHash = c.metadata.fwHash := by
  obtain ⟨r, s, t, hr, hs, ht, hmaps, _⟩ := overridden_of_resolve h
  obtain ⟨r', s', t', hr', hs', ht', hmaps', _⟩ := overridden_of_resolve h'
  have flat := flattened_view fun s _ => d.section?_snapshot_view s
  rw [hr, hr'] at flat
  have seen := congrArg Seen.maps (Option.some.inj flat)
  rw [resolve_fwHash h, resolve_fwHash h', hmaps, hmaps']
  refine (fingerprint_of_rows ?_).symm
  rw [finishRecords_rows ht, addOverrides_rows hs, finishRecords_rows ht', addOverrides_rows hs']
  exact rows_of_seenMaps (fun _ _ => by rfl) seen

theorem overridden_view (h : resolve d patterns = .ok c) (hd : d.WellFormed)
    (ho : c.OrderFree patterns (d.entries .overrides)) :
    ((flattened d).andThen (·.addOverrides (d.entries .overrides) patterns)).reached.map view =
      ((flattened d.snapshot).andThen (·.addOverrides (d.snapshot.entries .overrides) patterns)).reached.map view := by
  obtain ⟨r, s, t, hr, hs, ht, hmaps, frames, hdefault⟩ := overridden_of_resolve h
  obtain ⟨table, walked⟩ := resolve_walkedFrom h
  have distinct : (r.maps.map FlatMap.name).Nodup := by
    rw [← names_of_frames frames]
    exact walked.names ▸ (Value.distinct_object.mp (hd.entries .maps)).1
  have orderless : ∀ e ∈ d.entries .overrides, Override.Orderless e.2 := by
    intro e he
    refine ⟨fun es hes => ?_, ho.descriptions e he⟩
    have inside := Value.distinct_of_mem (Value.distinct_object.mp (hd.entries .overrides)).2 he
    rw [hes] at inside
    exact (Value.distinct_object.mp inside).1
  -- The condition is on the result, whose maps have the frames that the overrides find.
  have ascending : ∀ m ∈ r.maps, ∀ p ∈ m.records,
      ((d.entries .overrides).filter (Override.hits patterns r.defaultMap m.name p.name)).Pairwise
        fun a b => a.1 ≤ b.1 := by
    intro m hm p hp
    obtain ⟨m', hm', hframe⟩ := List.mem_map.mp (frames ▸ List.mem_map_of_mem hm : m.frame ∈ c.maps.map FlatMap.frame)
    obtain ⟨hname, _, _, hplaces⟩ := FlatMap.Frame.mk.inj hframe
    obtain ⟨p', hp', hplace⟩ := List.mem_map.mp
      (hplaces ▸ List.mem_map_of_mem hp : p.placement ∈ m'.records.map Record.placement)
    have same : p'.name = p.name := congrArg Placement.name hplace
    rw [← hdefault, ← hname, ← same]
    exact ho.ascending m' hm' p' hp'
  obtain ⟨s', hs', views⟩ := addOverrides_sorted hs distinct orderless ascending
  have flat := flattened_view fun s _ => d.section?_snapshot_view s
  rw [hr, Outcome.reached_done, Option.map_some] at flat
  obtain ⟨r', hr', hview⟩ := Option.map_eq_some_iff.mp flat.symm
  have applied := addOverrides_view hview (Props.view every (d.entries .overrides)) patterns
  rw [hs'] at applied
  rw [Outcome.reached_andThen, Outcome.reached_andThen, hr', hr, Description.entries_snapshot]
  refine Eq.trans ?_ applied.symm
  rw [Outcome.reached_done, Option.bind_some, hs]
  exact congrArg some views.symm

theorem sections_ne_nil (h : resolve d patterns = .ok c) : d.sections ≠ [] := by
  intro hnil
  apply entries_maps_ne_nil h
  rw [Description.entries, Description.section?, hnil]
  rfl

theorem get?_inputFile (h : resolve d patterns = .ok c) :
    (Snapshot.files c (some d)).get? Snapshot.inputFile = some (Yaml.document (.object d.snapshot.sections)) := by
  have hne : d.isEmpty = false := List.isEmpty_eq_false_iff.mpr (sections_ne_nil h)
  rw [Snapshot.files, Snapshot.writes, hne, if_neg Bool.false_ne_true]
  refine FileSet.get?_foldl_eq [] (List.mem_cons_of_mem _ List.mem_cons_self) fun w hw heq => ?_
  rcases List.mem_cons.mp hw with rfl | hw
  · -- One name ends as JSON, the other as YAML.
    have last : ("mm_" ++ c.metadata.fullHash ++ "_cfg.json").toList.getLast? = "mm_input_cfg.yaml".toList.getLast? :=
      congrArg (fun name => name.toList.getLast?) heq
    rw [String.toList_append, List.getLast?_append_of_ne_nil _ (by decide)] at last
    exact absurd last (by decide)
  · exact congrArg Prod.snd (List.mem_singleton.mp hw)

/-- The description is written with all keys in ascending order. What was written, if it resolves, keeps the layout
    fingerprint. It resolves and keeps all fingerprints if the order of the overrides and of what they say makes no
    difference. -/
theorem snapshot_reproduces (h : resolve d patterns = .ok c) :
    (Snapshot.files c (some d)).get? Snapshot.inputFile = some (Yaml.document (.object d.snapshot.sections)) ∧
    (∀ c', resolve d.snapshot patterns = .ok c' → c'.metadata.fwHash = c.metadata.fwHash) ∧
      (d.WellFormed → c.OrderFree patterns (d.entries .overrides) →
        ∃ c', resolve d.snapshot patterns = .ok c' ∧ c'.fingerprints = c.fingerprints) := by
  refine ⟨get?_inputFile h, fun c' h' => fwHash_snapshot h h', fun hd ho => ?_⟩
  obtain ⟨resolves, prints⟩ := resolves_alike (finished_view (overridden_view h hd ho))
  obtain ⟨c', hc'⟩ := resolves.mp ⟨c, h⟩
  exact ⟨c', hc', (prints c c' h hc').symm⟩

end Resolution

/-- One byte whose default comes from overrides. -/
def Description.layered (overrides : Props) : Description where
  sections := [
    ("generated_maps", .object [("board", .object [("type", .string "root")])]),
    ("metadata", .object [("app_name", .string "board"), ("default_type", .string "uint8_t")]),
    ("overrides", .object overrides),
    ("typedefs", .object [("root", .object [("elements", .array [.string "state"])])])]

theorem Description.snapshot_layered (overrides : Props) :
    (layered overrides).snapshot = layered (Props.view every overrides) := by
  simp [snapshot, layered, Value.sortEntries, Value.sortEntries_eq, Props.view_every, Value.sortKeys,
    Value.sortItems, Entries.mapValues, Entries.sortByKey_of_ascending]

namespace Override

def setByName : String × Value := ("state", .object [("default", .ofNat 1)])

def setByPattern : String × Value := ("r\"sta\"", .object [("default", .ofNat 2)])

theorem setByPattern_le_setByName : [setByPattern, setByName].Pairwise fun a b => a.1 ≤ b.1 := by
  simp [setByPattern, setByName]

theorem sorted_defaults : Props.view every [setByName, setByPattern] = [setByPattern, setByName] := by
  rw [Props.view_every, Entries.sortByKey_mapValues, Entries.sortByKey_eq_of_perm (.swap _ _ _) (by decide),
    Entries.sortByKey_of_ascending setByPattern_le_setByName]
  simp [setByName, setByPattern, Entries.mapValues, Value.sortEntries, Entries.sortByKey_of_ascending,
    Value.ofNat, Value.sortKeys]

end Override

namespace Resolution

open Override

def defaults (maps : List FlatMap) : List (List (Option String)) :=
  maps.map fun m => m.records.map fun r => (r.props.get? "default").map Value.compact

theorem defaults_patternLast : (finished (.layered [setByName, setByPattern])).error.isNone ∧
    (finished (.layered [setByName, setByPattern])).state.metadata.isSome ∧
    defaults (finished (.layered [setByName, setByPattern])).state.maps = [[some "2"]] := by
  decide +kernel

theorem defaults_nameLast : (finished (.layered [setByPattern, setByName])).error.isNone ∧
    (finished (.layered [setByPattern, setByName])).state.metadata.isSome ∧
    defaults (finished (.layered [setByPattern, setByName])).state.maps = [[some "1"]] := by
  decide +kernel

/-- Overrides of one record that are not in ascending order: the snapshot has another default. -/
theorem snapshot_changes_default : ∃ c c', resolve (.layered [setByName, setByPattern]) = .ok c ∧
    resolve (Description.layered [setByName, setByPattern]).snapshot = .ok c' ∧
    defaults c.maps = [[some "2"]] ∧ defaults c'.maps = [[some "1"]] := by
  obtain ⟨hnone, hmeta, hdefault⟩ := defaults_patternLast
  obtain ⟨hnone', hmeta', hdefault'⟩ := defaults_nameLast
  obtain ⟨c, _, hc, rfl⟩ := resolves_of_finished hnone hmeta
  obtain ⟨c', m', hc', heq⟩ := resolves_of_finished hnone' hmeta'
  have turned : defaults c'.maps = [[some "1"]] := by
    rw [heq]
    exact hdefault'
  rw [← sorted_defaults, ← Description.snapshot_layered] at hc'
  exact ⟨_, c', hc, hc', hdefault, turned⟩

theorem orderFree_layered (c : ResolvedMap) : c.OrderFree Pattern.read [setByPattern, setByName] where
  ascending := fun _ _ _ _ => setByPattern_le_setByName.filter _
  descriptions := by
    intro e he es hes text htext
    rcases List.mem_pair.mp he with rfl | rfl <;>
      (cases hes; simp [Entries.get?] at htext)

/-- In ascending order the same overrides are reproduced. -/
theorem snapshot_reproduces_layered : ∃ c c', resolve (.layered [setByPattern, setByName]) = .ok c ∧
    (Description.layered [setByPattern, setByName]).WellFormed ∧ c.OrderFree Pattern.read [setByPattern, setByName] ∧
    (Snapshot.files c (some (.layered [setByPattern, setByName]))).get? Snapshot.inputFile =
      some (Yaml.document (.object (Description.layered [setByPattern, setByName]).snapshot.sections)) ∧
    resolve (Description.layered [setByPattern, setByName]).snapshot = .ok c' ∧
    c'.fingerprints = c.fingerprints := by
  obtain ⟨hnone, hmeta, _⟩ := defaults_nameLast
  obtain ⟨c, _, hc, _⟩ := resolves_of_finished hnone hmeta
  have wellFormed : (Description.layered [setByPattern, setByName]).WellFormed := by
    unfold Description.WellFormed
    decide +kernel
  obtain ⟨written, -, reproduced⟩ := snapshot_reproduces hc
  obtain ⟨c', hc', prints⟩ := reproduced wellFormed (orderFree_layered c)
  exact ⟨c, c', hc, wellFormed, orderFree_layered c, written, hc', prints⟩

end Resolution

end AddressMap
