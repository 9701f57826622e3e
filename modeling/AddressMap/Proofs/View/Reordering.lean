import AddressMap.Proofs.Record.Override
import AddressMap.Proofs.View.Resolution

set_option autoImplicit false

namespace AddressMap

variable {patterns : PatternReader}

namespace Override

/-- What an override says does not depend on the order of its keys. -/
structure Orderless (v : Value) : Prop where
  distinct : ∀ es, v = .object es → (Entries.keys es).Nodup
  description : ∀ es, v = .object es → ∀ text, Entries.get? es "description" = some text →
    descriptionOf text.sortKeys = descriptionOf text

/-- Entries that do the same as far as it is seen. -/
structure Entry.Same (e f : Entry) : Prop where
  mapName : e.mapName = f.mapName
  selector : e.selector = f.selector
  changes : Props.view every e.changes = Props.view every f.changes
  description : ∀ old, descriptionAfter e.changes old = descriptionAfter f.changes old

theorem keys_view_perm (es : Props) : (Props.view every es).keys.Perm (Entries.keys es) := by
  rw [Props.view_every]
  refine ((Entries.sortByKey_perm _).map _).trans ?_
  simp [Entries.mapValues, Entries.keys, Function.comp_def]

section Read

variable {es fs : Props}

theorem view_swapErase (h : (Entries.keys es).Nodup) (key : String) :
    Props.view every (Entries.swapErase es key) = Props.view (fun k => k ≠ key) es := by
  rw [Props.view_every, Props.view, Entries.sortByKey_mapValues, Entries.sortByKey_mapValues,
    Entries.sortByKey_eq_of_perm (Entries.swapErase_perm h key) (Entries.keys_swapErase_nodup h key)]
  rfl

theorem mem_keys_of_view (h : Props.view every es = Props.view every fs) {key : String} :
    key ∈ Entries.keys es ↔ key ∈ Entries.keys fs := by
  rw [← (keys_view_perm es).mem_iff, h, (keys_view_perm fs).mem_iff]

theorem mapName_congr (h : Props.view every es = Props.view every fs) {defaultMap : Option String} {key name : String}
    (hname : mapName defaultMap key (Entries.get? es "map") = .ok name) :
    mapName defaultMap key (Entries.get? fs "map") = .ok name := by
  have found := Props.get?_congr h "map" rfl
  rcases both_of_views found with ⟨hes, hfs⟩ | ⟨v, w, hes, hfs, hvw⟩
  · rwa [hfs, ← hes]
  · rw [hes] at hname
    cases v with
    | string s =>
      cases w with
      | string t =>
        cases hvw
        rwa [hfs]
      | _ => cases hvw
    | _ => cases hname

/-- Mappings with the same keys in another order are read to entries that do the same. -/
theorem read_same (he : (Entries.keys es).Nodup) (hf : (Entries.keys fs).Nodup)
    (h : Props.view every es = Props.view every fs)
    (hd : (Entries.get? es "description").map descriptionOf = (Entries.get? fs "description").map descriptionOf)
    {defaultMap : Option String} {key : String} {e : Entry} (hr : read patterns defaultMap key (.object es) = .ok e) :
    ∃ f, read patterns defaultMap key (.object fs) = .ok f ∧ e.Same f := by
  obtain ⟨_, heq, hname, hchanges, hfree, hselector, _⟩ := read_eq_ok.mp hr
  cases heq
  have views : Props.view every (Entries.swapErase es "map") = Props.view every (Entries.swapErase fs "map") := by
    rw [view_swapErase he, view_swapErase hf]
    exact Props.view_of_view h fun _ _ => rfl
  refine ⟨⟨key, e.mapName, Entries.swapErase fs "map", e.selector⟩, read_eq_ok.mpr ⟨fs, rfl, mapName_congr h hname,
    rfl, fun k hk => hfree k ?_, hselector, rfl⟩, rfl, rfl, hchanges ▸ views, fun old => ?_⟩
  · rw [hchanges]
    exact (mem_keys_of_view views).mpr hk
  · have nodup := Entries.keys_swapErase_nodup he "map"
    have nodup' := Entries.keys_swapErase_nodup hf "map"
    rw [hchanges, descriptionAfter_eq nodup, descriptionAfter_eq nodup', Entries.get?_swapErase he (by decide),
      Entries.get?_swapErase hf (by decide)]
    have elim : ∀ o : Option Value, o.elim old descriptionOf = (o.map descriptionOf).getD old := by
      intro o
      cases o <;> rfl
    rw [elim, elim, hd]

end Read

section Sorted

variable {defaultMap : Option String} {key : String} {v : Value}

/-- Sorting the keys of an override makes no difference to what it does, or to whether it is one. -/
theorem read_sortKeys (hv : Orderless v) (patterns : PatternReader) (defaultMap : Option String) (key : String) :
    (∃ e f, read patterns defaultMap key v = .ok e ∧ read patterns defaultMap key v.sortKeys = .ok f ∧ e.Same f) ∨
      (∃ x, read patterns defaultMap key v = .error x) ∧ ∃ y, read patterns defaultMap key v.sortKeys = .error y := by
  cases v with
  | object es =>
    have nodup : (Entries.keys es).Nodup := hv.distinct es rfl
    have sorted : (Entries.keys (Props.view every es)).Nodup := (keys_view_perm es).nodup_iff.mpr nodup
    have views : Props.view every es = Props.view every (Props.view every es) := (Props.view_view es).symm
    have description : (Entries.get? es "description").map descriptionOf =
        (Entries.get? (Props.view every es) "description").map descriptionOf := by
      rw [Props.get?_view es rfl]
      cases hd : Entries.get? es "description" with
      | none => rfl
      | some text => exact congrArg some (hv.description es rfl text hd).symm
    rw [Props.sortKeys_object]
    cases hr : read patterns defaultMap key (.object es) with
    | ok e =>
      obtain ⟨f, hf, same⟩ := read_same nodup sorted views description hr
      exact .inl ⟨e, f, rfl, hf, same⟩
    | error x =>
      refine .inr ⟨⟨x, rfl⟩, ?_⟩
      cases hs : read patterns defaultMap key (.object (Props.view every es)) with
      | error y => exact ⟨y, rfl⟩
      | ok f =>
        obtain ⟨e, he, _⟩ := read_same sorted nodup views.symm description.symm hs
        rw [hr] at he
        cases he
  | array xs => exact .inr ⟨⟨_, rfl⟩, ⟨_, by rw [Value.sortKeys_array]; rfl⟩⟩
  | _ => exact .inr ⟨⟨_, rfl⟩, ⟨_, rfl⟩⟩

variable (map : String)

theorem hits_sortKeys (hv : Orderless v) (record : String) :
    hits patterns defaultMap map record (key, v.sortKeys) = hits patterns defaultMap map record (key, v) := by
  unfold hits
  rcases read_sortKeys hv patterns defaultMap key with ⟨e, f, he, hf, same⟩ | ⟨⟨x, hx⟩, y, hy⟩
  · simp only [he, hf, same.mapName, same.selector]
  · simp only [hx, hy]

theorem touch_sortKeys (hv : Orderless v) {r s : Record} (h : r.view every = s.view every) :
    (touch patterns defaultMap map r (key, v.sortKeys)).view every =
      (touch patterns defaultMap map s (key, v)).view every := by
  unfold touch
  rcases read_sortKeys hv patterns defaultMap key with ⟨e, f, he, hf, same⟩ | ⟨⟨x, hx⟩, y, hy⟩
  · simp only [he, hf, Entry.patchRecord, same.mapName, same.selector, Record.name_congr h]
    split
    · split
      · exact patch_congr h same.changes.symm (by rw [same.description, Record.description_congr h])
      · exact h
    · exact h
  · simp only [hx, hy]
    exact h

variable {es : Props} (hes : ∀ e ∈ es, Orderless e.2)
include hes

theorem filter_hits_view (record : String)
    (hasc : (es.filter (hits patterns defaultMap map record)).Pairwise fun a b => a.1 ≤ b.1) :
    (Props.view every es).filter (hits patterns defaultMap map record) =
      Entries.mapValues (es.filter (hits patterns defaultMap map record)) Value.sortKeys := by
  have moved : (Entries.mapValues es Value.sortKeys).filter (hits patterns defaultMap map record) =
      Entries.mapValues (es.filter (hits patterns defaultMap map record)) Value.sortKeys := by
    rw [Entries.mapValues, List.filter_map]
    refine congrArg (List.map _) (List.filter_congr fun e he => ?_)
    exact hits_sortKeys map (hes e he) record
  rw [Props.view_every, Entries.filter_sortByKey, moved]
  rw [moved]
  exact List.pairwise_map.mpr hasc

/-- Where the overrides that hit a record are in order, it is seen alike when all of them are put in order. -/
theorem touchAll_view (r : Record)
    (hasc : (es.filter (hits patterns defaultMap map r.name)).Pairwise fun a b => a.1 ≤ b.1) :
    (touchAll patterns defaultMap map (Props.view every es) r).view every =
      (touchAll patterns defaultMap map es r).view every := by
  -- Overrides that miss the record do nothing, so only the order of the others counts.
  rw [← touchAll_filter _ _ _ (Props.view every es), ← touchAll_filter _ _ _ es, filter_hits_view map hes _ hasc]
  have inside : ∀ e ∈ es.filter (hits patterns defaultMap map r.name), Orderless e.2 :=
    fun e he => hes e (List.mem_filter.mp he).1
  have runs : ∀ (fs : Props) (r s : Record), (∀ e ∈ fs, Orderless e.2) → r.view every = s.view every →
      (touchAll patterns defaultMap map (Entries.mapValues fs Value.sortKeys) r).view every =
        (touchAll patterns defaultMap map fs s).view every := by
    intro fs
    induction fs with
    | nil => exact fun r s _ h => h
    | cons e rest ih =>
      intro r s hfs h
      exact ih _ _ (fun f hf => hfs f (List.mem_cons_of_mem _ hf))
        (touch_sortKeys map (hfs e List.mem_cons_self) h)
  exact runs _ r r inside rfl

theorem reaches_view {maps : List FlatMap} (h : ∀ e ∈ es, Reaches patterns defaultMap maps e) :
    ∀ e ∈ Props.view every es, Reaches patterns defaultMap maps e := by
  intro e he
  rw [Props.view_every, (Entries.sortByKey_perm _).mem_iff] at he
  obtain ⟨f, hf, rfl⟩ := List.mem_map.mp he
  obtain ⟨m, hm, r, hr, hit⟩ := h f hf
  exact ⟨m, hm, r, hr, (hits_sortKeys m.name (hes f hf) r.name).trans hit⟩

end Sorted

end Override

namespace Resolution

/-- Overrides in ascending order are applied with the same result, as far as it is seen. -/
theorem addOverrides_sorted {r s : Resolution} {es : Props} (h : r.addOverrides es patterns = .done s)
    (hn : (r.maps.map FlatMap.name).Nodup) (hes : ∀ e ∈ es, Override.Orderless e.2)
    (hasc : ∀ m ∈ r.maps, ∀ t ∈ m.records,
      (es.filter (Override.hits patterns r.defaultMap m.name t.name)).Pairwise fun a b => a.1 ≤ b.1) :
    ∃ s', r.addOverrides (Props.view every es) patterns = .done s' ∧ s'.view = s.view := by
  obtain ⟨maps, happly, rfl⟩ := addOverrides_eq_done h
  obtain ⟨reaches, rfl⟩ := (Override.applyAll_eq_done hn).mp happly
  have sorted := (Override.applyAll_eq_done hn).mpr ⟨Override.reaches_view hes reaches, rfl⟩
  refine ⟨{ r with maps := r.maps.map (Override.touched patterns r.defaultMap (Props.view every es)) }, ?_, ?_⟩
  · unfold addOverrides
    rw [sorted]
    rfl
  · have records : (recordsOf (r.maps.map (Override.touched patterns r.defaultMap (Props.view every es)))).mapValues
          (List.map (Record.view every)) =
        (recordsOf (r.maps.map (Override.touched patterns r.defaultMap es))).mapValues
          (List.map (Record.view every)) := by
      simp only [recordsOf, Entries.mapValues, List.map_map]
      refine List.map_congr_left fun m hm => ?_
      simp only [Function.comp_apply, Override.touched, List.map_map, Prod.mk.injEq, true_and]
      exact List.map_congr_left fun t ht => Override.touchAll_view m.name hes t (hasc m hm t ht)
    exact congrArg (fun maps => (⟨r.scope.view every, r.metadata.map Metadata.view, r.defaultMap, maps⟩ : Seen))
      (congrArg Entries.sortByKey records)

end Resolution

end AddressMap
