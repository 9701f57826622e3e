import AddressMap.Proofs.Fingerprint.Decoding
import AddressMap.Proofs.Record.Tiling
import Mathlib.Data.List.Nodup

set_option autoImplicit false

namespace AddressMap

variable {patterns : PatternReader}

open Fingerprint

namespace Record

def width? (r : Record) : Option Nat := r.bits?.map (·.width)

def bitOffset? (r : Record) : Option Nat := r.bits?.map (·.offset)

structure Extent where
  name : String
  mapOffset : Nat
  unitSize : Nat
  bitOffset : Option Nat
  width : Option Nat

def extent (r : Record) : Extent := ⟨r.name, r.mapOffset, r.unitSize, r.bitOffset?, r.width?⟩

/-- What the text of the layout keys leaves open. -/
structure Agrees (r s : Record) : Prop where
  width : r.width? = s.width?
  name : "name" ∈ r.props.keys ∨ "name" ∈ s.props.keys → r.name = s.name
  unitSize : "resolved_type_size" ∈ r.props.keys ∨ "resolved_type_size" ∈ s.props.keys →
    r.unitSize = s.unitSize

theorem toProps_name {r : Record} (h : "name" ∉ r.props.keys) :
    r.toProps.get? "name" = some (.string r.name) := by
  rw [toProps, Entries.get?_merge_of_not_mem h]
  simp [Entries.get?]

theorem toProps_unitSize {r : Record} (h : "resolved_type_size" ∉ r.props.keys) :
    r.toProps.get? "resolved_type_size" = some (.ofNat r.unitSize) := by
  rw [toProps, Entries.get?_merge_of_not_mem h]
  have flag : (Value.flag "reserved" r.reserved).get? "resolved_type_size" = none := by
    cases r.reserved <;> rfl
  simp [Entries.get?_append, Entries.get?_ofOption, Entries.get?, flag]

end Record

theorem stacks_offsets {start used stop stop' : Nat} {rs ss : List Record}
    (hr : Stacks start used stop rs) (hs : Stacks start used stop' ss)
    (h : List.Forall₂ (fun r s => r.unitSize = s.unitSize ∧ r.width? = s.width?) rs ss) :
    List.Forall₂ (fun r s => r.mapOffset = s.mapOffset ∧ r.bitOffset? = s.bitOffset?) rs ss := by
  induction h generalizing start used with
  | nil => exact .nil
  | cons hhead htail ih =>
    rename_i r s rs ss
    obtain ⟨hunit, hwidth⟩ := hhead
    obtain ⟨hoffset, hr⟩ := hr
    obtain ⟨hoffset', hs⟩ := hs
    have places := hoffset.trans hoffset'.symm
    unfold Record.width? Record.bits? at hwidth
    unfold Record.bitOffset? Record.bits?
    cases hrs : r.shape with
    | item t =>
      cases hss : s.shape with
      | bits u => simp [hrs, hss] at hwidth
      | item u =>
        simp only [hrs, hss] at hr hs
        rw [hunit] at hr
        refine .cons ⟨places, by rw [hrs, hss]⟩ (ih hr.2.2 hs.2.2)
    | bits t =>
      cases hss : s.shape with
      | item u => simp [hrs, hss] at hwidth
      | bits u =>
        simp only [hrs, hss, Option.map_some, Option.some.injEq] at hr hs hwidth
        rw [hunit, hwidth] at hr
        obtain ⟨hstart, _, hr⟩ := hr
        obtain ⟨hstart', _, hs⟩ := hs
        refine .cons ⟨places, by rw [hrs, hss]; simp [hstart, hstart']⟩ ?_
        rcases hr with ⟨hfull, hr⟩ | ⟨hmore, hr⟩
        · rcases hs with ⟨_, hs⟩ | ⟨hmore, _⟩
          · exact ih hr hs
          · omega
        · rcases hs with ⟨hfull, _⟩ | ⟨_, hs⟩
          · omega
          · exact ih hr hs

def ResolvedMap.records? (c : ResolvedMap) (name : String) : Option (List Record) :=
  (Entries.merge [] (c.maps.map fun m => (m.name, m.records))).get? name

theorem ResolvedMap.mem_of_records? {c : ResolvedMap} {name : String} {rs : List Record}
    (h : c.records? name = some rs) : ∃ m ∈ c.maps, m.name = name ∧ m.records = rs := by
  rcases Entries.get?_merge_eq_some h with hnil | hin
  · cases hnil
  · obtain ⟨m, hm, heq⟩ := List.mem_map.mp hin
    cases heq
    exact ⟨m, hm, rfl, rfl⟩

namespace Resolution

def row (keep : String → Bool) (r : Record) : Value := .object (r.toProps.filter fun e => keep e.1)

theorem recordTable_eq (keep : String → Bool) (c : ResolvedMap) : recordTable keep c.maps =
    .object ((Entries.merge [] (c.maps.map fun m => (m.name, m.records))).mapValues
      fun rs => .array (rs.map (row keep))) := by
  rw [← Entries.merge_mapValues]
  unfold recordTable Entries.merge Entries.mapValues
  rw [List.map_map, List.foldl_map]
  rfl

theorem records_texts {keep : String → Bool} {c c' : ResolvedMap}
    (h : text (recordTable keep c.maps) = text (recordTable keep c'.maps)) (name : String) :
    c.records? name = none ∧ c'.records? name = none ∨
      ∃ rs ss, c.records? name = some rs ∧ c'.records? name = some ss ∧
        List.Forall₂ (fun r s => text (row keep r) = text (row keep s)) rs ss := by
  rw [recordTable_eq, recordTable_eq] at h
  have found := texts_eq_of_object h name
  rw [Entries.get?_mapValues, Entries.get?_mapValues] at found
  change ((c.records? name).map _).map _ = ((c'.records? name).map _).map _ at found
  cases hr : c.records? name with
  | none =>
    cases hs : c'.records? name with
    | none => exact .inl ⟨rfl, rfl⟩
    | some ss => simp [hr, hs] at found
  | some rs =>
    cases hs : c'.records? name with
    | none => simp [hr, hs] at found
    | some ss =>
      simp only [hr, hs, Option.map_some, Option.some.injEq] at found
      have rows := texts_eq_of_array found
      rw [List.forall₂_map_left_iff, List.forall₂_map_right_iff] at rows
      exact .inr ⟨rs, ss, rfl, rfl, rows⟩

theorem row_get? {keep : String → Bool} {r s : Record} (h : text (row keep r) = text (row keep s))
    {key : String} (hkey : keep key) :
    (r.toProps.get? key).map text = (s.toProps.get? key).map text := by
  have found := texts_eq_of_object h key
  rwa [Entries.get?_filter _ _ hkey, Entries.get?_filter _ _ hkey] at found

theorem name_eq_of_agrees {r s : Record} (h : text (row isLayoutKey r) = text (row isLayoutKey s))
    (ha : r.Agrees s) : r.name = s.name := by
  by_cases hfree : "name" ∈ r.props.keys ∨ "name" ∈ s.props.keys
  · exact ha.name hfree
  · obtain ⟨hr, hs⟩ := not_or.mp hfree
    have found := row_get? h (rfl : isLayoutKey "name" = true)
    rw [Record.toProps_name hr, Record.toProps_name hs] at found
    exact string_eq_of_text (Option.some.inj found)

theorem unitSize_eq_of_agrees {r s : Record} (h : text (row isLayoutKey r) = text (row isLayoutKey s))
    (ha : r.Agrees s) : r.unitSize = s.unitSize := by
  by_cases hfree : "resolved_type_size" ∈ r.props.keys ∨ "resolved_type_size" ∈ s.props.keys
  · exact ha.unitSize hfree
  · obtain ⟨hr, hs⟩ := not_or.mp hfree
    have found := row_get? h (rfl : isLayoutKey "resolved_type_size" = true)
    rw [Record.toProps_unitSize hr, Record.toProps_unitSize hs] at found
    exact nat_eq_of_text (Option.some.inj found)

section Pair

variable {d d' : Description} {c c' : ResolvedMap} {rs ss : List Record}

theorem agrees_of_extents (h : rs.map Record.extent = ss.map Record.extent) :
    List.Forall₂ Record.Agrees rs ss := by
  rw [← List.forall₂_eq_eq_eq, List.forall₂_map_left_iff, List.forall₂_map_right_iff] at h
  refine h.imp fun r s hrs => ?_
  simp only [Record.extent, Record.Extent.mk.injEq] at hrs
  exact ⟨hrs.2.2.2.2, fun _ => hrs.1, fun _ => hrs.2.2.1⟩

theorem extents_of_agrees (h : resolve d patterns = .ok c) (h' : resolve d' patterns = .ok c') {name : String}
    (hr : c.records? name = some rs) (hs : c'.records? name = some ss)
    (rows : List.Forall₂ (fun r s => text (row isLayoutKey r) = text (row isLayoutKey s)) rs ss)
    (agree : List.Forall₂ Record.Agrees rs ss) : rs.map Record.extent = ss.map Record.extent := by
  have names : List.Forall₂ (fun r s => r.name = s.name) rs ss :=
    .mp (fun _ _ hrow hagree => name_eq_of_agrees hrow hagree) rows agree
  have sizes : List.Forall₂ (fun r s => r.unitSize = s.unitSize ∧ r.width? = s.width?) rs ss :=
    .mp (fun _ _ hrow hagree => ⟨unitSize_eq_of_agrees hrow hagree, hagree.width⟩) rows agree
  -- The records of both maps are stacked from their first byte on, so their places follow.
  obtain ⟨table, walked⟩ := resolve_walkedFrom h
  obtain ⟨table', walked'⟩ := resolve_walkedFrom h'
  obtain ⟨m, hm, _, rfl⟩ := ResolvedMap.mem_of_records? hr
  obtain ⟨m', hm', _, rfl⟩ := ResolvedMap.mem_of_records? hs
  have offsets := stacks_offsets ((walked.walked m hm).stacked walked.resolved)
    ((walked'.walked m' hm').stacked walked'.resolved) sizes
  have places : List.Forall₂ (fun r s => r.name = s.name → r.extent = s.extent) m.records m'.records := by
    refine .mp ?_ sizes offsets
    rintro r s ⟨hunit, hwidth⟩ ⟨hoffset, hbit⟩ hname
    unfold Record.extent
    rw [hname, hoffset, hunit, hbit, hwidth]
  rw [← List.forall₂_eq_eq_eq, List.forall₂_map_left_iff, List.forall₂_map_right_iff]
  exact .mp (fun _ _ hplace hname => hplace hname) places names

end Pair

/-- Maps under the same text have their records at the same places exactly if what the text leaves open
    agrees. -/
theorem extents_eq_iff {d d' : Description} {c c' : ResolvedMap} (h : resolve d patterns = .ok c)
    (h' : resolve d' patterns = .ok c')
    (ht : text (recordTable isLayoutKey c.maps) = text (recordTable isLayoutKey c'.maps)) (name : String) :
    (c.records? name).map (·.map Record.extent) = (c'.records? name).map (·.map Record.extent) ↔
      ∀ rs ∈ c.records? name, ∀ ss ∈ c'.records? name, List.Forall₂ Record.Agrees rs ss := by
  rcases records_texts ht name with ⟨hr, hs⟩ | ⟨rs, ss, hr, hs, rows⟩
  · simp [hr, hs]
  · simp only [hr, hs, Option.map_some, Option.some.injEq, Option.mem_def, forall_eq']
    constructor
    · exact agrees_of_extents
    · exact extents_of_agrees h h' hr hs rows

theorem resolve_fwHash {d : Description} {c : ResolvedMap} (h : resolve d patterns = .ok c) :
    c.metadata.fwHash = Fingerprint.ofValue (recordTable isLayoutKey c.maps) := by
  obtain ⟨r, r', _, hprint, rfl⟩ := resolve_eq_ok.mp h
  obtain ⟨m, _, rfl⟩ := addFingerprints_eq_done hprint
  rfl

end Resolution

/-- One byte in two parts, the first of so many bits. -/
def Description.parted (first : Nat) : Description where
  sections := [
    ("metadata", .object [("app_name", .string "board"), ("default_type", .string "uint8_t")]),
    ("bitfields", .object [("flags", .object [("elements", .array [
      .object [("name", .string "mode"), ("bits", .ofNat first)],
      .object [("name", .string "level"), ("bits", .ofNat (8 - first))]])])]),
    ("typedefs", .object [("root", .object [("elements", .array [
      .object [("name", .string "state"), ("type", .string "flags")]])])]),
    ("generated_maps", .object [("board", .object [("type", .string "root")])])]

namespace Resolution

theorem finished_parted_three : (finished (.parted 3)).error.isNone ∧
    (finished (.parted 3)).state.metadata.isSome ∧
    (finished (.parted 3)).state.maps.map (fun m => (m.name, m.records.map Record.width?)) =
      [("board", [some 3, some 5])] := by
  decide +kernel

theorem finished_parted_five : (finished (.parted 5)).error.isNone ∧
    (finished (.parted 5)).state.metadata.isSome ∧
    (finished (.parted 5)).state.maps.map (fun m => (m.name, m.records.map Record.width?)) =
      [("board", [some 5, some 3])] := by
  decide +kernel

theorem recordTable_parted : recordTable isLayoutKey (finished (.parted 3)).state.maps =
    recordTable isLayoutKey (finished (.parted 5)).state.maps := by
  decide +kernel

theorem records?_of_singleton {c : ResolvedMap} {name : String} {widths : List (Option Nat)}
    (h : c.maps.map (fun m => (m.name, m.records.map Record.width?)) = [(name, widths)]) :
    ∃ rs, c.records? name = some rs ∧ rs.map Record.width? = widths := by
  obtain ⟨m, hm, heq⟩ := List.map_eq_singleton_iff.mp h
  cases heq
  refine ⟨m.records, ?_, rfl⟩
  simp [ResolvedMap.records?, hm, Entries.merge, Entries.set, Entries.get?]

/-- Two parts that change their widths keep their fingerprint. -/
theorem extents_parted : ∃ c c', resolve (.parted 3) = .ok c ∧ resolve (.parted 5) = .ok c' ∧
    c.metadata.fwHash = c'.metadata.fwHash ∧ (c.records? "board").map (·.map Record.extent) ≠
      (c'.records? "board").map (·.map Record.extent) := by
  obtain ⟨hnone, hmeta, hwidths⟩ := finished_parted_three
  obtain ⟨hnone', hmeta', hwidths'⟩ := finished_parted_five
  obtain ⟨c, _, hc, rfl⟩ := resolves_of_finished hnone hmeta
  obtain ⟨c', _, hc', rfl⟩ := resolves_of_finished hnone' hmeta'
  obtain ⟨rs, hrs, hr⟩ := records?_of_singleton (c := finish (finished (.parted 3)).state) hwidths
  obtain ⟨ss, hss, hs⟩ := records?_of_singleton (c := finish (finished (.parted 5)).state) hwidths'
  refine ⟨_, _, hc, hc', ?_, ?_⟩
  · rw [resolve_fwHash hc, resolve_fwHash hc']
    exact congrArg Fingerprint.ofValue recordTable_parted
  · intro heq
    have texts := congrArg text recordTable_parted
    have agree := (extents_eq_iff hc hc' texts "board").mp heq rs hrs ss hss
    have widths : rs.map Record.width? = ss.map Record.width? := by
      rw [← List.forall₂_eq_eq_eq, List.forall₂_map_left_iff, List.forall₂_map_right_iff]
      exact agree.imp fun r s hrs => hrs.width
    rw [hr, hs] at widths
    simp at widths

end Resolution

end AddressMap
