import AddressMap.Proofs.View.Record
import AddressMap.Proofs.View.Resolution

set_option autoImplicit false

namespace AddressMap

variable {patterns : PatternReader}

structure Fingerprints where
  full : String
  fw : String
  sw : String

def ResolvedMap.fingerprints (c : ResolvedMap) : Fingerprints where
  full := c.metadata.fullHash
  fw := c.metadata.fwHash
  sw := c.metadata.swHash

/-- The same up to the order of keys; the overrides are the same as they are written. -/
structure Description.Reordered (d d' : Description) : Prop where
  sections : ∀ s : Section, s ≠ .overrides →
    (d.sections.get? s.name).map Value.sortKeys = (d'.sections.get? s.name).map Value.sortKeys
  overrides : d.sections.get? Section.overrides.name = d'.sections.get? Section.overrides.name

namespace Description

theorem section?_view (d : Description) (s : Section) : (d.section? s).map (Props.view every) =
    ((d.sections.get? s.name).map Value.sortKeys).bind Declaration.entries? := by
  unfold section?
  cases d.sections.get? s.name with
  | none => rfl
  | some v =>
    cases v with
    | object es =>
      rw [Option.map_some, Option.map_some, Props.sortKeys_object]
      rfl
    | _ => rfl

variable {d d' : Description}

theorem section?_congr {s : Section}
    (h : (d.sections.get? s.name).map Value.sortKeys = (d'.sections.get? s.name).map Value.sortKeys) :
    (d.section? s).map (Props.view every) = (d'.section? s).map (Props.view every) := by
  rw [section?_view, section?_view, h]

theorem entries_congr {s : Section}
    (h : (d.section? s).map (Props.view every) = (d'.section? s).map (Props.view every)) :
    Props.view every (d.entries s) = Props.view every (d'.entries s) := by
  have inside : ∀ d : Description, Props.view every (d.entries s) =
      ((d.section? s).map (Props.view every)).getD [] := by
    intro d
    unfold entries
    cases d.section? s <;> simp
  rw [inside, inside, h]

end Description

namespace Resolution

variable {d d' : Description}

/-- Sections in another order take the stages up to the maps to states of the same view. -/
theorem flattened_view (h : ∀ s : Section, s ≠ .overrides →
      (d.section? s).map (Props.view every) = (d'.section? s).map (Props.view every)) :
    (flattened d).reached.map view = (flattened d').reached.map view := by
  have entries : ∀ s : Section, s ≠ .overrides →
      Props.view every (d.entries s) = Props.view every (d'.entries s) :=
    fun s hs => Description.entries_congr (h s hs)
  unfold flattened
  simp only [Outcome.reached_andThen]
  refine bind_map_congr (v := view) ?_ fun r r' hr => addMaps_view hr (entries .maps (by decide))
  refine bind_map_congr (v := view) ?_ fun r r' hr => addTypedefs_view hr (entries .typedefs (by decide))
  refine bind_map_congr (v := view) ?_ fun r r' hr => addBitfields_view hr (entries .bitfields (by decide))
  refine bind_map_congr (v := view) ?_ fun r r' hr => addEnums_view hr (entries .enums (by decide))
  refine bind_map_congr (v := view) (addDefines_view rfl (entries .defines (by decide))) fun r r' hr => ?_
  rcases both_of_views (h .metadata (by decide)) with ⟨hes, hfs⟩ | ⟨es, fs, hes, hfs, views⟩
  · rw [hes, hfs]
    rfl
  · rw [hes, hfs]
    exact addMetadata_view hr views

theorem finished_view
    (h : ((flattened d).andThen (·.addOverrides (d.entries .overrides) patterns)).reached.map view =
      ((flattened d').andThen (·.addOverrides (d'.entries .overrides) patterns)).reached.map view) :
    (finished d patterns).reached.map view = (finished d' patterns).reached.map view := by
  rw [finished_eq, finished_eq, Outcome.reached_andThen _ finishRecords, Outcome.reached_andThen _ finishRecords]
  exact bind_map_congr h fun r r' hr => finishRecords_view hr

theorem resolve_toOption (d : Description) : (resolve d patterns).toOption =
    (finished d patterns).reached.bind fun r => r.addFingerprints.reached.map finish := by
  unfold resolve
  rw [run_eq, toOption_map]
  change ((finished d patterns).andThen addFingerprints).reached.map finish = _
  rw [Outcome.reached_andThen, Option.map_bind]
  rfl

theorem fingerprints_congr {r r' : Resolution} (h : r.view = r'.view) :
    (r.addFingerprints.reached.map finish).map ResolvedMap.fingerprints =
      (r'.addFingerprints.reached.map finish).map ResolvedMap.fingerprints := by
  obtain ⟨_, metadata, _, maps⟩ := Seen.mk.inj h
  have hash : ∀ k, Fingerprint.ofValue (recordTable k r.maps) = Fingerprint.ofValue (recordTable k r'.maps) :=
    fun k => fingerprint_of_rows (rows_of_seenMaps (fun _ _ => by rfl) maps)
  unfold addFingerprints
  rcases both_of_views metadata with ⟨hm, hm'⟩ | ⟨m, m', hm, hm', _⟩
  · rw [hm, hm']
    rfl
  · rw [hm, hm']
    simp only [Outcome.reached_done, Option.map_some, ResolvedMap.fingerprints, finish, Option.getD_some, hash]

theorem resolve_fingerprints (h : (finished d patterns).reached.map view = (finished d' patterns).reached.map view) :
    (resolve d patterns).toOption.map ResolvedMap.fingerprints =
      (resolve d' patterns).toOption.map ResolvedMap.fingerprints := by
  rw [resolve_toOption, resolve_toOption]
  exact bind_map_congr h fun r r' hr => fingerprints_congr hr

/-- One resolves exactly if the other does, and then to the same fingerprints. -/
theorem resolves_alike (h : (finished d patterns).reached.map view = (finished d' patterns).reached.map view) :
    ((∃ c, resolve d patterns = .ok c) ↔ ∃ c', resolve d' patterns = .ok c') ∧
      ∀ c c', resolve d patterns = .ok c → resolve d' patterns = .ok c' → c.fingerprints = c'.fingerprints := by
  have prints := resolve_fingerprints h
  refine ⟨?_, fun c c' hc hc' => ?_⟩
  · have some_iff : ∀ d, (∃ c, resolve d patterns = .ok c) ↔
        ((resolve d patterns).toOption.map ResolvedMap.fingerprints).isSome := by
      intro d
      simp [Option.isSome_iff_exists, toOption_eq_some]
    rw [some_iff, some_iff, prints]
  · rw [hc, hc'] at prints
    exact Option.some.inj prints

/-- Keys in another order resolve if the keys as they are do, and to the same fingerprints. -/
theorem fingerprints_reordered (h : d.Reordered d') :
    ((∃ c, resolve d patterns = .ok c) ↔ ∃ c', resolve d' patterns = .ok c') ∧
      ∀ c c', resolve d patterns = .ok c → resolve d' patterns = .ok c' → c.fingerprints = c'.fingerprints := by
  have overrides : d.entries .overrides = d'.entries .overrides := by
    unfold Description.entries Description.section?
    rw [h.overrides]
  refine resolves_alike (finished_view ?_)
  rw [overrides, Outcome.reached_andThen, Outcome.reached_andThen]
  exact bind_map_congr (flattened_view fun s hs => Description.section?_congr (h.sections s hs))
    fun r r' hr => addOverrides_view hr _ _

end Resolution

def Description.bytes : Description where
  sections := [
    ("metadata", .object [("app_name", .string "board"), ("default_type", .string "uint8_t")]),
    ("typedefs", .object [("root", .object [("elements", .array [
      .string "state", .object [("name", .string "level"), ("default", .ofNat 1)]])])]),
    ("generated_maps", .object [("board", .object [("type", .string "root")])]),
    ("overrides", .object [("level", .object [("default", .ofNat 2), ("description", .string "fill")])])]

def Description.turnedBytes : Description where
  sections := [
    ("overrides", .object [("level", .object [("default", .ofNat 2), ("description", .string "fill")])]),
    ("generated_maps", .object [("board", .object [("type", .string "root")])]),
    ("typedefs", .object [("root", .object [("elements", .array [
      .string "state", .object [("default", .ofNat 1), ("name", .string "level")]])])]),
    ("metadata", .object [("default_type", .string "uint8_t"), ("app_name", .string "board")])]

namespace Resolution

theorem reordered_bytes : Description.bytes.Reordered .turnedBytes where
  sections := by
    have level : (Value.object [("name", .string "level"), ("default", .ofNat 1)]).sortKeys =
        (Value.object [("default", .ofNat 1), ("name", .string "level")]).sortKeys :=
      Value.sortKeys_of_perm (.swap _ _ _) (by decide)
    intro s hs
    cases s with
    | metadata => exact congrArg some (Value.sortKeys_of_perm (.swap _ _ _) (by decide))
    | typedefs =>
      refine congrArg some ?_
      simp only [Value.sortKeys_object, Value.sortKeys_array, Entries.mapValues, List.map] at level ⊢
      rw [level]
    | overrides => exact absurd rfl hs
    | _ => rfl
  overrides := rfl

theorem finished_bytes : (finished .bytes).error.isNone ∧ (finished .bytes).state.metadata.isSome := by
  decide +kernel

theorem fingerprints_bytes : Description.bytes.Reordered .turnedBytes ∧ ∃ c c', resolve .bytes = .ok c ∧
    resolve .turnedBytes = .ok c' ∧ c.fingerprints = c'.fingerprints := by
  obtain ⟨hnone, hmeta⟩ := finished_bytes
  obtain ⟨c, _, hc, _⟩ := resolves_of_finished hnone hmeta
  obtain ⟨resolves, prints⟩ := fingerprints_reordered reordered_bytes
  obtain ⟨c', hc'⟩ := resolves.mp ⟨c, hc⟩
  exact ⟨reordered_bytes, c, c', hc, hc', prints c c' hc hc'⟩

end Resolution

end AddressMap
