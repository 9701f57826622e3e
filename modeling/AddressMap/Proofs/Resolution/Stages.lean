import AddressMap.Proofs.Outcome
import AddressMap.Resolution

set_option autoImplicit false

namespace AddressMap

variable {patterns : PatternReader}

namespace Resolution

variable {r r' : Resolution} {es : Props}

theorem addDefines_eq_done (h : r.addDefines es = .done r') :
    ∃ t : Define.Table, Define.resolve ⟨r.env, r.defines⟩ es = .done t ∧
      r' = { r with defineOrder := es.keys, env := t.env, defines := t.defines } := by
  unfold addDefines at h
  simp only [Outcome.done, Outcome.mk.injEq] at h
  exact ⟨_, Outcome.eq_done_of_error_eq_none h.2, h.1.symm⟩

theorem addMetadata_eq_done (h : r.addMetadata es = .done r') :
    r' = r ∨ ∃ m, Metadata.resolve es = .ok m ∧
      r' = { r with metadata := some m, defaultMap := m.defaultMap } := by
  unfold addMetadata at h
  split at h
  · cases h
    exact .inl rfl
  · split at h
    · cases h
    · rename_i m hm
      cases h
      exact .inr ⟨m, hm, rfl⟩

theorem addEnums_eq_done (h : r.addEnums es = .done r') :
    ∃ entries expanded table, readEntries .enums Declaration.enum? es = .ok entries ∧
      Reference.expand .enums entries.sortByKey = .ok expanded ∧
      resolveInto (Enumeration.resolve r.env r.fallbackType) r.enums expanded = .done table ∧
      r' = { r with enumOrder := es.keys, enums := table } := by
  unfold addEnums at h
  split at h
  · cases h
  rename_i entries hread
  dsimp only at h
  split at h
  · cases h
  rename_i expanded hexp
  simp only [Outcome.done, Outcome.mk.injEq] at h
  exact ⟨entries, expanded, _, hread, hexp, Outcome.eq_done_of_error_eq_none h.2, h.1.symm⟩

theorem addBitfields_eq_done (h : r.addBitfields es = .done r') :
    ∃ entries expanded table, readEntries .bitfields Declaration.bitfield? es = .ok entries ∧
      Reference.expand .bitfields entries.sortByKey = .ok expanded ∧
      resolveInto (Bitfield.resolve r.env) r.bitfields expanded = .done table ∧
      r' = { r with bitfieldOrder := es.keys, bitfields := table } := by
  unfold addBitfields at h
  split at h
  · cases h
  rename_i entries hread
  dsimp only at h
  split at h
  · cases h
  rename_i expanded hexp
  simp only [Outcome.done, Outcome.mk.injEq] at h
  exact ⟨entries, expanded, _, hread, hexp, Outcome.eq_done_of_error_eq_none h.2, h.1.symm⟩

theorem addTypedefs_eq_done (h : r.addTypedefs es = .done r') :
    ∃ entries table order ts, readEntries .typedefs Declaration.typedef? es = .ok entries ∧
      Reference.expand .typedefs entries.sortByKey = .ok table ∧
      Typedef.order r.scope.isLeaf r.fallbackType table = .ok order ∧
      Typedef.layoutAll r.scope table order = .done ts ∧
      r' = { r with typedefs := ts, typedefOrder := order } ∧ r'.checkTypeNames = none := by
  unfold addTypedefs at h
  split at h
  · cases h
  rename_i entries hread
  split at h
  · cases h
  rename_i table hexp
  split at h
  · cases h
  rename_i order hord
  dsimp only at h
  split at h
  · cases h
  rename_i hnone
  simp only [Outcome.done, Outcome.mk.injEq] at h
  obtain ⟨rfl, hcheck⟩ := h
  exact ⟨entries, table, order, _, hread, hexp, hord, Outcome.eq_done_of_error_eq_none hnone, rfl,
    hcheck⟩

theorem checkDefaultMap_eq_done {names : List String} (h : r.checkDefaultMap names = .done r') :
    ∃ name, r' = { r with defaultMap := name } := by
  unfold checkDefaultMap at h
  dsimp only at h
  split at h
  · split at h
    · cases h
      split
      · exact ⟨_, rfl⟩
      · exact ⟨r.defaultMap, rfl⟩
    · cases h
  · cases h
    split
    · exact ⟨_, rfl⟩
    · exact ⟨r.defaultMap, rfl⟩

theorem addMaps_eq_done (h : r.addMaps es = .done r') :
    ∃ entries maps name, readEntries .maps Declaration.map? es = .ok entries ∧ entries ≠ [] ∧
      flattenAll ⟨r.typedefs, r.bitfields⟩ 1 r.maps entries = .done maps ∧
      r' = { r with maps := maps, defaultMap := name } := by
  unfold addMaps at h
  split at h
  · cases h
  rename_i entries hread
  split at h
  · cases h
  rename_i hne
  dsimp only at h
  split at h
  · cases h
  rename_i hnone
  obtain ⟨name, rfl⟩ := checkDefaultMap_eq_done h
  exact ⟨entries, _, name, hread, by simpa using hne, Outcome.eq_done_of_error_eq_none hnone, rfl⟩

theorem addOverrides_eq_done (h : r.addOverrides es patterns = .done r') :
    ∃ maps, Override.applyAll patterns r.defaultMap r.maps es = .done maps ∧ r' = { r with maps := maps } := by
  unfold addOverrides at h
  simp only [Outcome.done, Outcome.mk.injEq] at h
  exact ⟨_, Outcome.eq_done_of_error_eq_none h.2, h.1.symm⟩

theorem finishRecords_eq_done (h : r.finishRecords = .done r') :
    ∃ maps, finishAll (finishMap r.userBits r.env) r.maps = .done maps ∧
      r' = { r with maps := maps } := by
  unfold finishRecords at h
  simp only [Outcome.done, Outcome.mk.injEq] at h
  exact ⟨_, Outcome.eq_done_of_error_eq_none h.2, h.1.symm⟩

theorem addFingerprints_eq_done (h : r.addFingerprints = .done r') :
    ∃ m, r.metadata = some m ∧ r' = { r with metadata := some { m with
      fullHash := Fingerprint.ofValue (recordTable (fun _ => true) r.maps)
      fwHash := Fingerprint.ofValue (recordTable isLayoutKey r.maps)
      swHash := Fingerprint.ofValue (recordTable isDocumentedKey r.maps) } } := by
  unfold addFingerprints at h
  split at h
  · cases h
  · rename_i m hm
    cases h
    exact ⟨m, hm, rfl⟩

end Resolution

def Description.entries (d : Description) (s : Section) : Props := (d.section? s).getD []

namespace Resolution

structure Beside (r s : Resolution) : Prop where
  metadata : s.metadata = r.metadata
  defaultMap : s.defaultMap = r.defaultMap
  maps : s.maps = r.maps

theorem Beside.trans {r s t : Resolution} (h : r.Beside s) (h' : s.Beside t) : r.Beside t :=
  ⟨h'.metadata.trans h.metadata, h'.defaultMap.trans h.defaultMap, h'.maps.trans h.maps⟩

theorem addDefines_beside {r s : Resolution} {es : Props} (h : r.addDefines es = .done s) : r.Beside s := by
  obtain ⟨_, _, rfl⟩ := addDefines_eq_done h
  exact ⟨rfl, rfl, rfl⟩

theorem addEnums_beside {r s : Resolution} {es : Props} (h : r.addEnums es = .done s) : r.Beside s := by
  obtain ⟨_, _, _, _, _, _, rfl⟩ := addEnums_eq_done h
  exact ⟨rfl, rfl, rfl⟩

theorem addBitfields_beside {r s : Resolution} {es : Props} (h : r.addBitfields es = .done s) : r.Beside s := by
  obtain ⟨_, _, _, _, _, _, rfl⟩ := addBitfields_eq_done h
  exact ⟨rfl, rfl, rfl⟩

theorem addTypedefs_beside {r s : Resolution} {es : Props} (h : r.addTypedefs es = .done s) : r.Beside s := by
  obtain ⟨_, _, _, _, _, _, _, _, rfl, _⟩ := addTypedefs_eq_done h
  exact ⟨rfl, rfl, rfl⟩

def finished (d : Description) (patterns : PatternReader := Pattern.read) : Outcome Resolution :=
  let withMetadata (r : Resolution) : Outcome Resolution :=
    match d.section? .metadata with
    | none => ⟨r, some (.missingSection .metadata)⟩
    | some es => r.addMetadata es
  start.addDefines (d.entries .defines)
    |>.andThen withMetadata
    |>.andThen (·.addEnums (d.entries .enums))
    |>.andThen (·.addBitfields (d.entries .bitfields))
    |>.andThen (·.addTypedefs (d.entries .typedefs))
    |>.andThen (·.addMaps (d.entries .maps))
    |>.andThen (·.addOverrides (d.entries .overrides) patterns)
    |>.andThen finishRecords

def flattened (d : Description) : Outcome Resolution :=
  let withMetadata (r : Resolution) : Outcome Resolution :=
    match d.section? .metadata with
    | none => ⟨r, some (.missingSection .metadata)⟩
    | some es => r.addMetadata es
  start.addDefines (d.entries .defines)
    |>.andThen withMetadata
    |>.andThen (·.addEnums (d.entries .enums))
    |>.andThen (·.addBitfields (d.entries .bitfields))
    |>.andThen (·.addTypedefs (d.entries .typedefs))
    |>.andThen (·.addMaps (d.entries .maps))

theorem finished_eq (d : Description) (patterns : PatternReader) : finished d patterns =
    ((flattened d).andThen (·.addOverrides (d.entries .overrides) patterns)).andThen finishRecords := rfl

theorem flattened_eq_done {d : Description} {r₆ : Resolution} (h : flattened d = .done r₆) :
    ∃ r₁ r₂ r₃ r₄ r₅ : Resolution, start.addDefines (d.entries .defines) = .done r₁ ∧
      r₁.addMetadata (d.entries .metadata) = .done r₂ ∧ r₂.addEnums (d.entries .enums) = .done r₃ ∧
      r₃.addBitfields (d.entries .bitfields) = .done r₄ ∧ r₄.addTypedefs (d.entries .typedefs) = .done r₅ ∧
      r₅.addMaps (d.entries .maps) = .done r₆ := by
  unfold flattened at h
  dsimp only at h
  obtain ⟨r₅, h, h₆⟩ := Outcome.andThen_eq_done.mp h
  obtain ⟨r₄, h, h₅⟩ := Outcome.andThen_eq_done.mp h
  obtain ⟨r₃, h, h₄⟩ := Outcome.andThen_eq_done.mp h
  obtain ⟨r₂, h, h₃⟩ := Outcome.andThen_eq_done.mp h
  obtain ⟨r₁, h₁, h₂⟩ := Outcome.andThen_eq_done.mp h
  refine ⟨r₁, r₂, r₃, r₄, r₅, h₁, ?_, h₃, h₄, h₅, h₆⟩
  unfold Description.entries
  split at h₂
  · cases h₂
  · rename_i es hes
    rw [hes]
    exact h₂

theorem finished_eq_done {d : Description} {r₈ : Resolution} (h : finished d patterns = .done r₈) :
    ∃ r₁ r₂ r₃ r₄ r₅ r₆ r₇ : Resolution, start.addDefines (d.entries .defines) = .done r₁ ∧
      r₁.addMetadata (d.entries .metadata) = .done r₂ ∧ r₂.addEnums (d.entries .enums) = .done r₃ ∧
      r₃.addBitfields (d.entries .bitfields) = .done r₄ ∧ r₄.addTypedefs (d.entries .typedefs) = .done r₅ ∧
      r₅.addMaps (d.entries .maps) = .done r₆ ∧ r₆.addOverrides (d.entries .overrides) patterns = .done r₇ ∧
      r₇.finishRecords = .done r₈ := by
  rw [finished_eq] at h
  obtain ⟨r₇, h, h₈⟩ := Outcome.andThen_eq_done.mp h
  obtain ⟨r₆, h, h₇⟩ := Outcome.andThen_eq_done.mp h
  obtain ⟨r₁, r₂, r₃, r₄, r₅, h₁, h₂, h₃, h₄, h₅, h₆⟩ := flattened_eq_done h
  exact ⟨r₁, r₂, r₃, r₄, r₅, r₆, r₇, h₁, h₂, h₃, h₄, h₅, h₆, h₇, h₈⟩

theorem finished_metadata {d : Description} {r₂ r₃ r₄ r₅ r₆ r₇ r₈ : Resolution}
    (h₃ : r₂.addEnums (d.entries .enums) = .done r₃) (h₄ : r₃.addBitfields (d.entries .bitfields) = .done r₄)
    (h₅ : r₄.addTypedefs (d.entries .typedefs) = .done r₅) (h₆ : r₅.addMaps (d.entries .maps) = .done r₆)
    (h₇ : r₆.addOverrides (d.entries .overrides) patterns = .done r₇) (h₈ : r₇.finishRecords = .done r₈) :
    r₈.metadata = r₂.metadata := by
  obtain ⟨_, _, _, _, _, _, rfl⟩ := addMaps_eq_done h₆
  obtain ⟨_, _, rfl⟩ := addOverrides_eq_done h₇
  obtain ⟨_, _, rfl⟩ := finishRecords_eq_done h₈
  exact (((addEnums_beside h₃).trans (addBitfields_beside h₄)).trans (addTypedefs_beside h₅)).metadata

theorem run_eq (d : Description) (patterns : PatternReader) :
    run d patterns = (finished d patterns).andThen addFingerprints := rfl

theorem resolve_eq_ok {d : Description} {c : ResolvedMap} :
    resolve d patterns = .ok c ↔
      ∃ r r', finished d patterns = .done r ∧ r.addFingerprints = .done r' ∧ r'.finish = c := by
  unfold resolve
  rw [map_eq_ok]
  simp only [Outcome.toExcept_eq_ok, run_eq, Outcome.andThen_eq_done]
  constructor
  · rintro ⟨r', ⟨r, hr, hprint⟩, hc⟩
    exact ⟨r, r', hr, hprint, hc⟩
  · rintro ⟨r, r', hr, hprint, hc⟩
    exact ⟨r', ⟨r, hr, hprint⟩, hc⟩

theorem entries_maps_ne_nil {d : Description} {c : ResolvedMap} (h : resolve d patterns = .ok c) :
    d.entries .maps ≠ [] := by
  obtain ⟨r₈, r₉, hdone, -, -⟩ := resolve_eq_ok.mp h
  obtain ⟨r₁, r₂, r₃, r₄, r₅, r₆, r₇, -, -, -, -, -, h₆, -⟩ := finished_eq_done hdone
  obtain ⟨entries, -, -, hread, hne, -⟩ := addMaps_eq_done h₆
  intro hnil
  rw [hnil] at hread
  exact hne (Except.ok.inj hread).symm

/-- With metadata, nothing fails once the records are finished. -/
theorem resolves_of_finished {d : Description} (h : (finished d patterns).error.isNone)
    (hm : (finished d patterns).state.metadata.isSome) :
    ∃ c m, resolve d patterns = .ok c ∧ c = finish { (finished d patterns).state with metadata := some m } := by
  obtain ⟨m, hm⟩ := Option.isSome_iff_exists.mp hm
  have printed : ∃ m', (finished d patterns).state.addFingerprints =
      .done { (finished d patterns).state with metadata := some m' } := by
    unfold addFingerprints
    rw [hm]
    exact ⟨_, rfl⟩
  obtain ⟨m', hprint⟩ := printed
  have done := Outcome.eq_done_of_error_eq_none (Option.isNone_iff_eq_none.mp h)
  exact ⟨_, m', resolve_eq_ok.mpr ⟨_, _, done, hprint, rfl⟩, rfl⟩

end Resolution

end AddressMap
