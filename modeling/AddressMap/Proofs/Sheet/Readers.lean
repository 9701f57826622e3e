import AddressMap.Proofs.Record.Publication
import AddressMap.Proofs.Record.Right
import AddressMap.Proofs.Sheet.Files
import AddressMap.Proofs.Sheet.Reading
import Mathlib.Data.Nat.Bitwise

set_option autoImplicit false

namespace AddressMap

variable {patterns : PatternReader}

theorem Entries.get?_merge_of_mem {α : Type} {layer : Entries α} {key : String} (h : key ∈ layer.keys) :
    ∃ value, (key, value) ∈ layer ∧ ∀ es : Entries α, (es.merge layer).get? key = some value := by
  induction layer with
  | nil => cases h
  | cons e rest ih =>
    have step : ∀ es : Entries α, es.merge (e :: rest) = (es.set e.1 e.2).merge rest := fun _ => rfl
    by_cases hin : key ∈ Entries.keys rest
    · obtain ⟨value, hmem, found⟩ := ih hin
      exact ⟨value, List.mem_cons_of_mem _ hmem, fun es => (step es) ▸ found _⟩
    · obtain rfl : key = e.1 := (List.mem_cons.mp h).resolve_right hin
      refine ⟨e.2, List.mem_cons_self, fun es => ?_⟩
      rw [step, get?_merge_of_not_mem hin, get?_set_self]

def Value.hasBit (i : Nat) : Value → Bool
  | .number (.int n) => 0 ≤ n && n.toNat.testBit i
  | _ => false

namespace Record

theorem toProps_access {r : Record} (h : "resolved_access" ∉ r.props.keys) :
    r.toProps.get? "resolved_access" = some (.ofNat r.access) := by
  rw [toProps, Entries.get?_merge_of_not_mem h]
  have flag : (Value.flag "reserved" r.reserved).get? "resolved_access" = none := by
    cases r.reserved <;> rfl
  simp [Entries.get?_append, Entries.get?_ofOption, Entries.get?, flag]

theorem name_mem_toProps (r : Record) : "name" ∈ r.toProps.keys := by
  rw [← Entries.get?_isSome_iff]
  by_cases h : "name" ∈ r.props.keys
  · obtain ⟨value, _, found⟩ := Entries.get?_merge_of_mem h
    rw [toProps_eq, found]
    rfl
  · rw [toProps_name h]
    rfl

def hasReader (k : Nat) (r : Record) : Bool := r.readers.testBit k

/-- The record says that user number `k` may read it. -/
def publishesReader (k : Nat) (r : Record) : Bool := Sheet.readableBy (16 * 2 ^ k) r.toProps

theorem publishesReader_eq (k : Nat) (r : Record) :
    r.publishesReader k = (r.toProps.get? "resolved_access").any (Value.hasBit (4 + k)) := by
  have mask : 16 * 2 ^ k = 2 ^ (4 + k) := by rw [Nat.pow_add]
  unfold publishesReader Sheet.readableBy
  cases r.toProps.get? "resolved_access" with
  | none => rfl
  | some v =>
    cases v with
    | number n =>
      cases n with
      | int n =>
        dsimp only [Option.any_some, Value.hasBit]
        rw [mask, Nat.and_two_pow]
        cases n.toNat.testBit (4 + k) <;> simp
      | float x => rfl
    | _ => rfl

/-- What a record publishes as long as no free key lies over it. -/
theorem publishesReader_of_not_mem {k : Nat} {r : Record} (h : "resolved_access" ∉ r.props.keys) :
    r.publishesReader k = r.access.testBit (4 + k) := by
  rw [publishesReader_eq, toProps_access h, Option.any_some]
  simp [Value.ofNat, Value.hasBit]

def rights (r : Record) : Nat × Nat × Props := (r.readers, r.writers, r.props)

theorem publishesReader_congr {r s : Record} (h : r.rights = s.rights) (k : Nat) :
    r.publishesReader k = s.publishesReader k := by
  obtain ⟨readers, writers, props⟩ : r.readers = s.readers ∧ r.writers = s.writers ∧ r.props = s.props := by
    simpa [rights] using h
  by_cases hkey : "resolved_access" ∈ r.props.keys
  · obtain ⟨value, _, found⟩ := Entries.get?_merge_of_mem hkey
    rw [publishesReader_eq, publishesReader_eq, toProps_eq, toProps_eq, ← props, found, found]
  · rw [publishesReader_of_not_mem hkey, publishesReader_of_not_mem (props ▸ hkey), access, access, readers, writers]

end Record

namespace Resolution

variable {d : Description} {c : ResolvedMap} {m : FlatMap}

theorem folded_rights (h : resolve d patterns = .ok c) (hm : m ∈ c.maps) {s : Record} (hs : s ∈ m.folded) :
    ∃ r ∈ m.records, s.rights = r.rights := by
  obtain ⟨_, _, _, folds⟩ := resolve_footings h
  rw [folds m hm] at hs
  exact LoopNest.mem_fold_view (fun _ _ _ _ => rfl) hs

/-- The access of a folded record has the bits of its readers behind those of its writers. -/
theorem folded_access (h : resolve d patterns = .ok c) (hm : m ∈ c.maps) {s : Record} (hs : s ∈ m.folded) {k : Nat}
    (hk : k < c.metadata.users.length) : s.access.testBit (4 + k) = s.hasReader k := by
  obtain ⟨r, hr, same⟩ := folded_rights h hm hs
  obtain ⟨readers, writers, _⟩ : s.readers = r.readers ∧ s.writers = r.writers ∧ s.props = r.props := by
    simpa [Record.rights] using same
  obtain ⟨⟨_, bounded⟩, ruled⟩ := resolve_ruled h
  have reading := ((ruled m hm r hr).testBit_access (Nat.lt_of_lt_of_le hk bounded)).1
  rw [Record.access, readers, writers, Record.hasReader, readers]
  exact reading

end Resolution

namespace Sheet

def userSheet (m : FlatMap) (k : Nat) : Option String :=
  readable (m.records.map Record.toProps) (m.folded.map Record.toProps) (16 * 2 ^ k)

/-- The sheet is there exactly if one of the folded records is listed, and its rows are these records. -/
structure Lists (listed : Record → Bool) (m : FlatMap) (sheet : Option String) : Prop where
  present : sheet.isSome ↔ ∃ r ∈ m.folded, listed r
  rows : ∀ text, sheet = some text → ∃ columns, "name" ∈ columns ∧
    rows? text = some (columns :: (m.folded.filter listed).map fun r => cellsOf columns r.toProps)

theorem Lists.congr {listed listed' : Record → Bool} {m : FlatMap} {sheet : Option String}
    (h : Lists listed m sheet) (same : m.folded.filter listed = m.folded.filter listed') :
    Lists listed' m sheet := by
  refine ⟨?_, fun text htext => same ▸ h.rows text htext⟩
  have found : ∀ P : Record → Bool, (∃ r ∈ m.folded, P r) ↔ m.folded.filter P ≠ [] := by
    intro P
    simp [List.filter_eq_nil_iff]
  rw [h.present, found, found, same]

theorem readable_lists {m : FlatMap} {k : Nat}
    (h : ∀ s ∈ m.folded, ∃ r ∈ m.records, s.rights = r.rights) :
    Lists (Record.publishesReader k) m (userSheet m k) := by
  have folded : (m.folded.map Record.toProps).filter (readableBy (16 * 2 ^ k)) =
      (m.folded.filter (Record.publishesReader k)).map Record.toProps := List.filter_map
  refine ⟨?_, fun text htext => ?_⟩
  · rw [userSheet, readable_isSome, List.any_map, List.any_eq_true]
    rfl
  · obtain ⟨listed, rfl⟩ := table_of_readable htext
    rw [folded] at listed ⊢
    rw [ne_eq, List.map_eq_nil_iff] at listed
    -- A record that is listed is the folded form of one whose keys are all columns.
    obtain ⟨s, hs⟩ := List.exists_mem_of_ne_nil _ listed
    obtain ⟨hmem, hread⟩ := List.mem_filter.mp hs
    obtain ⟨r, hr, same⟩ := h s hmem
    rw [Record.publishesReader_congr same] at hread
    have named : "name" ∈ columnsOf ((m.records.map Record.toProps).filter (readableBy (16 * 2 ^ k))) := by
      refine mem_sortedNames.mpr (List.mem_flatMap.mpr ⟨r.toProps, ?_, r.name_mem_toProps⟩)
      exact List.mem_filter.mpr ⟨List.mem_map_of_mem hr, hread⟩
    have columns := List.ne_nil_of_mem named
    have cells : ∀ es, shown (cellsOf (columnsOf ((m.records.map Record.toProps).filter
        (readableBy (16 * 2 ^ k)))) es) = cellsOf _ es :=
      fun es => shown_of_ne_nil (by simpa [cellsOf] using columns)
    refine ⟨_, named, ?_⟩
    rw [rows?_table, shown_of_ne_nil columns]
    simp only [cells, List.map_map, Function.comp_def]

/-- Which records a user's sheet lists, and when these are the records that the user may read. -/
structure Read (m : FlatMap) (k : Nat) : Prop where
  /-- The sheet lists the records that publish the user as a reader. -/
  lists : Lists (Record.publishesReader k) m (userSheet m k)
  /-- These are the readers that were computed, as long as no free key lies over them; -/
  computed : ∀ r ∈ m.folded, "resolved_access" ∉ r.props.keys → r.publishesReader k = r.hasReader k
  /-- otherwise the free key says it. -/
  free : ∀ r ∈ m.folded, "resolved_access" ∈ r.props.keys →
    ∃ v, ("resolved_access", v) ∈ r.props ∧ r.publishesReader k = v.hasBit (4 + k)
  /-- So what is listed is what the user may read, exactly if the free keys agree with the rights. -/
  faithful : m.folded.filter (Record.publishesReader k) = m.folded.filter (Record.hasReader k) ↔
    ∀ r ∈ m.folded, "resolved_access" ∈ r.props.keys → r.publishesReader k = r.hasReader k
  agreed : (∀ r ∈ m.folded, "resolved_access" ∈ r.props.keys → r.publishesReader k = r.hasReader k) →
    Lists (Record.hasReader k) m (userSheet m k)

/-- The sheet of a user lists what the records of the map publish, which is what the user may read unless a free
    key says otherwise. -/
theorem userSheet_read {d : Description} {c : ResolvedMap} (h : resolve d patterns = .ok c) {m : FlatMap}
    (hm : m ∈ c.maps) {k : Nat} {user : String} (hk : c.metadata.users[k]? = some user) :
    (user, 2 ^ k) ∈ Metadata.userBits c.metadata.users ∧ Read m k := by
  have lists : Lists (Record.publishesReader k) m (userSheet m k) :=
    readable_lists fun s hs => Resolution.folded_rights h hm hs
  have computed : ∀ r ∈ m.folded, "resolved_access" ∉ r.props.keys → r.publishesReader k = r.hasReader k := by
    intro r hr hkey
    rw [Record.publishesReader_of_not_mem hkey]
    exact Resolution.folded_access h hm hr (List.getElem?_eq_some_iff.mp hk).1
  have free : ∀ r ∈ m.folded, "resolved_access" ∈ r.props.keys →
      ∃ v, ("resolved_access", v) ∈ r.props ∧ r.publishesReader k = v.hasBit (4 + k) := by
    intro r _ hkey
    obtain ⟨v, hmem, found⟩ := Entries.get?_merge_of_mem hkey
    refine ⟨v, hmem, ?_⟩
    rw [Record.publishesReader_eq, Record.toProps_eq, found, Option.any_some]
  have faithful : m.folded.filter (Record.publishesReader k) = m.folded.filter (Record.hasReader k) ↔
      ∀ r ∈ m.folded, "resolved_access" ∈ r.props.keys → r.publishesReader k = r.hasReader k := by
    constructor
    · intro same r hr _
      have both := congrArg (r ∈ ·) same
      simp only [List.mem_filter, hr, true_and, eq_iff_iff] at both
      exact Bool.eq_iff_iff.mpr both
    · refine fun agree => List.filter_congr fun r hr => ?_
      by_cases hkey : "resolved_access" ∈ r.props.keys
      · exact agree r hr hkey
      · exact computed r hr hkey
  exact ⟨Metadata.mem_userBits.mpr ⟨k, hk, rfl⟩, lists, computed, free, faithful,
    fun agree => lists.congr (faithful.mpr agree)⟩

end Sheet

/-- Nobody may read the two bytes, but the first one has a free key of the name under which rights are published. -/
def Description.exposed : Description where
  sections := [
    ("metadata", .object [("app_name", .string "board"), ("default_type", .string "uint8_t"),
      ("permission_users", .array [.string "guest"])]),
    ("typedefs", .object [("root", .object [("elements", .array [
      .object [("name", .string "level"), ("resolved_access", .ofNat 16)], .string "mode"])])]),
    ("generated_maps", .object [("board", .object [("type", .string "root")])])]

namespace Sheet

open Resolution

theorem finished_exposed : (finished .exposed).error.isNone ∧
    (finished .exposed).state.metadata.map (·.users) = some ["guest"] ∧
    (finished .exposed).state.maps.map (fun m => m.folded.map fun r => (r.name, r.publishesReader 0, r.hasReader 0)) =
      [[("level", true, false), ("mode", false, false)]] := by
  decide +kernel

/-- The guest may read nothing and gets a sheet nevertheless, with the first byte in it. -/
theorem userSheet_read_exposed : ∃ c, resolve .exposed = .ok c ∧ ∃ m ∈ c.maps, c.metadata.users[0]? = some "guest" ∧
    (∀ r ∈ m.folded, r.hasReader 0 = false) ∧ (userSheet m 0).isSome ∧
      Lists (Record.publishesReader 0) m (userSheet m 0) := by
  obtain ⟨hnone, husers, hfolded⟩ := finished_exposed
  obtain ⟨named, hnamed, hnames⟩ := Option.map_eq_some_iff.mp husers
  obtain ⟨c, _, hc, _⟩ := resolves_of_finished hnone
    (Option.isSome_iff_exists.mpr ⟨named, hnamed⟩)
  obtain ⟨r, metadata, hdone, hr, users, maps⟩ := resolve_eq_finished hc
  rw [hdone] at hnamed hfolded
  obtain ⟨m, hmaps, hrecords⟩ := List.map_eq_singleton_iff.mp hfolded
  have hm : m ∈ c.maps := by
    rw [maps]
    exact hmaps ▸ List.mem_singleton_self m
  have guest : c.metadata.users[0]? = some "guest" := by
    rw [users, Option.some.inj (hr.symm.trans hnamed), hnames]
    rfl
  obtain ⟨_, read⟩ := userSheet_read hc hm guest
  have rights : ∀ r ∈ m.folded, (r.name, r.publishesReader 0, r.hasReader 0) ∈
      [("level", true, false), ("mode", false, false)] := fun r hr => hrecords ▸ List.mem_map_of_mem hr
  refine ⟨c, hc, m, hm, guest, fun r hr => ?_, ?_, read.lists⟩
  · have row := rights r hr
    simp only [List.mem_cons, Prod.mk.injEq, List.not_mem_nil, or_false] at row
    rcases row with ⟨_, _, closed⟩ | ⟨_, _, closed⟩ <;> exact closed
  · rw [read.lists.present]
    have first : ("level", true, false) ∈ m.folded.map fun r => (r.name, r.publishesReader 0, r.hasReader 0) :=
      hrecords ▸ List.mem_cons_self
    obtain ⟨r, hr, heq⟩ := List.mem_map.mp first
    exact ⟨r, hr, (Prod.mk.inj (Prod.mk.inj heq).2).1⟩

end Sheet

end AddressMap
