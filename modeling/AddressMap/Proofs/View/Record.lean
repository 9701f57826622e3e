import AddressMap.Proofs.Fingerprint.Layout
import AddressMap.Proofs.View.Stages

set_option autoImplicit false

namespace AddressMap

variable {keep : String → Bool}

namespace Props

theorem view_ofOption {key : String} {x y : Option Value}
    (h : x.map Value.sortKeys = y.map Value.sortKeys) :
    view keep (Entries.ofOption key x) = view keep (Entries.ofOption key y) := by
  rw [view, view, Entries.only_ofOption, Entries.only_ofOption]
  split
  · rw [Entries.mapValues_ofOption, Entries.mapValues_ofOption, h]
  · rfl

theorem view_description {x y : Option String} (h : seen keep x = seen keep y) :
    view keep (Entries.ofOption "description" (x.map Value.string)) =
      view keep (Entries.ofOption "description" (y.map Value.string)) := by
  unfold seen at h
  rw [view, view, Entries.only_ofOption, Entries.only_ofOption]
  by_cases hk : keep "description"
  · rw [if_pos hk, if_pos hk] at h
    rw [h]
  · rw [if_neg hk, if_neg hk]

end Props

namespace Record

def computed (r : Record) : Props := toProps { r with props := [] }

theorem toProps_eq (r : Record) : r.toProps = r.computed.merge r.props := rfl

theorem computed_congr {r s : Record} (h : r.view keep = s.view keep) :
    Props.view keep r.computed = Props.view keep s.computed := by
  obtain ⟨name, offset, shape, unit, description, reserved, props, arrays, readers, writers, factor, default,
    min, max, changed, loopOffset, loops⟩ := r
  obtain ⟨name', offset', shape', unit', description', reserved', props', arrays', readers', writers', factor',
    default', min', max', changed', loopOffset', loops'⟩ := s
  obtain ⟨rfl, rfl, hshape, rfl, hdescription, rfl, _, _, rfl, rfl, rfl, rfl, rfl, rfl, rfl, rfl, rfl⟩ :=
    Record.mk.inj h
  cases shape with
  | item t =>
    cases shape' with
    | bits t' => cases hshape
    | item t' =>
      obtain ⟨type, size, enum, itemType, total, itemOffset, count⟩ := t
      obtain ⟨type', size', enum', itemType', total', itemOffset', count'⟩ := t'
      obtain ⟨rfl, hsize, rfl, rfl, rfl, rfl, rfl⟩ := ItemShape.mk.inj (Shape.item.inj hshape)
      unfold computed toProps
      dsimp only [Entries.merge, List.foldl_nil, item?, bits?, Option.bind_some]
      -- What stands behind the description is the same for both.
      iterate 21 refine Props.view_append ?_ rfl
      exact Props.view_append (Props.view_append rfl (Props.view_ofOption hsize))
        (Props.view_description hdescription)
  | bits t =>
    cases shape' with
    | item t' => cases hshape
    | bits t' =>
      obtain ⟨bits, width, bitOffset⟩ := t
      obtain ⟨bits', width', bitOffset'⟩ := t'
      obtain ⟨hbits, rfl, rfl⟩ := BitShape.mk.inj (Shape.bits.inj hshape)
      unfold computed toProps
      dsimp only [Entries.merge, List.foldl_nil, item?, bits?, Option.bind_some]
      iterate 13 refine Props.view_append ?_ rfl
      refine Props.view_append ?_ (Props.view_ofOption hbits)
      iterate 7 refine Props.view_append ?_ rfl
      exact Props.view_append rfl (Props.view_description hdescription)

theorem toProps_congr {r s : Record} (h : r.view keep = s.view keep) :
    Props.view keep r.toProps = Props.view keep s.toProps := by
  rw [toProps_eq, toProps_eq]
  exact Props.view_merge (computed_congr h) (congrArg Record.props h)

end Record

namespace Resolution

theorem sortKeys_row (k : String → Bool) (r : Record) :
    (row k r).sortKeys = .object (Props.view k r.toProps) := by
  rw [row, Props.sortKeys_object]
  simp [Props.view, Entries.only, every]

theorem row_congr {k : String → Bool} (hk : ∀ key, k key → keep key) {r s : Record}
    (h : r.view keep = s.view keep) : (row k r).sortKeys = (row k s).sortKeys := by
  rw [sortKeys_row, sortKeys_row, Props.view_of_view (Record.toProps_congr h) hk]

def rows (k : String → Bool) (maps : List FlatMap) : Props :=
  maps.map fun m => (m.name, .array (m.records.map (row k)))

theorem recordTable_rows (k : String → Bool) (maps : List FlatMap) :
    recordTable k maps = .object (Entries.merge [] (rows k maps)) := by
  unfold recordTable Entries.merge rows
  rw [List.foldl_map]
  rfl

theorem fingerprint_of_rows {k : String → Bool} {maps maps' : List FlatMap}
    (h : byName Value.sortKeys (rows k maps) = byName Value.sortKeys (rows k maps')) :
    Fingerprint.ofValue (recordTable k maps) = Fingerprint.ofValue (recordTable k maps') := by
  have tables : (recordTable k maps).sortKeys = (recordTable k maps').sortKeys := by
    rw [recordTable_rows, recordTable_rows, Props.sortKeys_object, Props.sortKeys_object]
    refine congrArg _ (Props.view_merge rfl ?_)
    rwa [Props.view_every, Props.view_every]
  unfold Fingerprint.ofValue
  rw [Fingerprint.text_eq_iff.mpr (congrArg _ tables)]

theorem rows_of_seenMaps {k : String → Bool} (hk : ∀ key, k key → keep key) {maps maps' : List FlatMap}
    (h : seenMaps keep maps = seenMaps keep maps') :
    byName Value.sortKeys (rows k maps) = byName Value.sortKeys (rows k maps') := by
  have listed : ∀ ms : List FlatMap, byName Value.sortKeys (rows k ms) =
      byName (fun rs => Value.array (rs.map fun r => (row k r).sortKeys)) (recordsOf ms) := by
    intro ms
    simp [byName, rows, recordsOf, Entries.mapValues, Value.sortKeys_array, Function.comp_def]
  rw [listed, listed]
  refine Entries.sortByKey_of_views (fun rs ss hrs => ?_) h
  exact congrArg Value.array (list_map_of_views hrs fun r s hview => row_congr hk hview)

end Resolution

end AddressMap
