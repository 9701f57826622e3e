import AddressMap.Header.Access
import AddressMap.Proofs.Record.Bound
import AddressMap.Proofs.Record.Right

set_option autoImplicit false

namespace AddressMap

variable {patterns : PatternReader}

namespace Record

def Spans (r : Record) (b : Nat) : Prop := r.mapOffset ≤ b ∧ b < r.byteStop

instance (r : Record) (b : Nat) : Decidable (r.Spans b) := inferInstanceAs (Decidable (_ ∧ _))

end Record

namespace Header

theorem getElem?_orFrom (bits start n : Nat) (table : Array Nat) (b : Nat) :
    (orFrom bits start n table)[b]? =
      table[b]?.map fun byte => if start ≤ b ∧ b < start + n then byte ||| bits else byte := by
  induction n generalizing start table with
  | zero =>
    have none : ¬(start ≤ b ∧ b < start + 0) := by omega
    simp only [orFrom, if_neg none, Option.map_id']
  | succ n ih =>
    rw [orFrom, ih, Array.getElem?_modify]
    by_cases here : start = b
    · have later : ¬(start + 1 ≤ b ∧ b < start + 1 + n) := by omega
      have inside : start ≤ b ∧ b < start + (n + 1) := by omega
      simp only [if_pos here, if_neg later, if_pos inside, Option.map_map, Function.comp_def]
    · have same : (start + 1 ≤ b ∧ b < start + 1 + n) ↔ (start ≤ b ∧ b < start + (n + 1)) := by omega
      simp only [if_neg here, same]

def addRights (size : Nat) (table : Array Nat) (r : Record) : Array Nat :=
  orFrom r.access r.mapOffset (min (r.mapOffset + r.unitSize) size - r.mapOffset) table

theorem accessTable_eq (m : FlatMap) :
    accessTable m = (m.records.foldl (addRights m.size) (Array.replicate m.size 0)).toList := rfl

theorem getElem?_addRights {size : Nat} (table : Array Nat) {r : Record} (hr : r.byteStop ≤ size) (b : Nat) :
    (addRights size table r)[b]? = table[b]?.map fun byte => if r.Spans b then byte ||| r.access else byte := by
  have whole : min (r.mapOffset + r.unitSize) size - r.mapOffset = r.unitSize := by
    unfold Record.byteStop at hr
    omega
  rw [addRights, whole, getElem?_orFrom]
  rfl

/-- A byte after some more records has its own bits and those of the records that span it. -/
theorem getElem?_foldl_addRights {size : Nat} {rs : List Record} (h : ∀ r ∈ rs, r.byteStop ≤ size)
    {table : Array Nat} {b byte : Nat} (hb : table[b]? = some byte) :
    ∃ after, (rs.foldl (addRights size) table)[b]? = some after ∧
      ∀ j, after.testBit j ↔ byte.testBit j ∨ ∃ r ∈ rs, r.Spans b ∧ r.access.testBit j := by
  induction rs generalizing table byte with
  | nil => exact ⟨byte, hb, fun j => by simp⟩
  | cons r rest ih =>
    obtain ⟨hr, hrest⟩ := List.forall_mem_cons.mp h
    have step := getElem?_addRights table hr b
    rw [hb, Option.map_some] at step
    obtain ⟨after, hafter, hbits⟩ := ih hrest step
    refine ⟨after, hafter, fun j => ?_⟩
    rw [hbits, List.exists_mem_cons_iff, ← or_assoc]
    refine or_congr ?_ Iff.rfl
    by_cases spans : r.Spans b
    · simp [spans, Nat.testBit_or]
    · simp [spans]

theorem size_orFrom (bits start n : Nat) (table : Array Nat) : (orFrom bits start n table).size = table.size := by
  induction n generalizing start table with
  | zero => rfl
  | succ n ih => rw [orFrom, ih, Array.size_modify]

theorem length_accessTable (m : FlatMap) : (accessTable m).length = m.size := by
  have all : ∀ (rs : List Record) (table : Array Nat), (rs.foldl (addRights m.size) table).size = table.size := by
    intro rs
    induction rs with
    | nil => exact fun _ => rfl
    | cons r rest ih => exact fun table => (ih _).trans (size_orFrom _ _ _ table)
  rw [accessTable_eq, Array.length_toList, all, Array.size_replicate]

theorem getElem?_accessTable {m : FlatMap} (h : ∀ r ∈ m.records, r.byteStop ≤ m.size) {b : Nat} (hb : b < m.size) :
    ∃ byte, (accessTable m)[b]? = some byte ∧
      ∀ j, byte.testBit j ↔ ∃ r ∈ m.records, r.Spans b ∧ r.access.testBit j := by
  have blank : (Array.replicate m.size 0)[b]? = some 0 := by simp [hb]
  obtain ⟨byte, hbyte, hbits⟩ := getElem?_foldl_addRights h blank
  refine ⟨byte, ?_, fun j => by simp [hbits]⟩
  rw [accessTable_eq, Array.getElem?_toList, hbyte]

/-- A user may read or write a byte exactly if the keys of a record there say so. -/
theorem accessTable_grants {d : Description} {c : ResolvedMap} (h : resolve d patterns = .ok c) {m : FlatMap}
    (hm : m ∈ c.maps) :
    (accessTable m).length = m.size ∧ (∀ r ∈ m.records, r.byteStop ≤ m.size) ∧
      ∀ b < m.size, ∃ byte, (accessTable m)[b]? = some byte ∧
        ∀ (i : Nat) (user : String), c.metadata.users[i]? = some user →
          (byte.testBit (4 + i) ↔
            ∃ r ∈ m.records, r.Spans b ∧ Access.Grants user i (r.props.get? Permission.read.key)) ∧
          (byte.testBit i ↔
            ∃ r ∈ m.records, r.Spans b ∧ Access.Grants user i (r.props.get? Permission.write.key)) := by
  obtain ⟨⟨distinct, bounded⟩, ruled⟩ := Resolution.resolve_ruled h
  have within := Resolution.byteStop_le h hm
  refine ⟨length_accessTable m, within, fun b hb => ?_⟩
  obtain ⟨byte, hbyte, hbits⟩ := getElem?_accessTable within hb
  refine ⟨byte, hbyte, fun i user hi => ?_⟩
  have low : i < 4 := Nat.lt_of_lt_of_le (List.getElem?_eq_some_iff.mp hi).1 bounded
  have rights : ∀ r ∈ m.records,
      (r.access.testBit (4 + i) ↔ Access.Grants user i (r.props.get? Permission.read.key)) ∧
        (r.access.testBit i ↔ Access.Grants user i (r.props.get? Permission.write.key)) := by
    intro r hr
    have own := ruled m hm r hr
    obtain ⟨reading, writing⟩ := own.testBit_access low
    rw [reading, writing]
    exact ⟨Access.permission_testBit distinct hi own.readers, Access.permission_testBit distinct hi own.writers⟩
  constructor
  · rw [hbits]
    exact exists_congr fun r => and_congr_right fun hr => and_congr_right fun _ => (rights r hr).1
  · rw [hbits]
    exact exists_congr fun r => and_congr_right fun hr => and_congr_right fun _ => (rights r hr).2

end Header

/-- Both users may read everything, but only the second may write, and this only the two levels. An override
    opens the flags of the first byte to the first user. -/
def Description.guarded : Description where
  sections := [
    ("metadata", .object [("app_name", .string "board"), ("default_type", .string "uint8_t"),
      ("permission_users", .array [.string "guest", .string "service"])]),
    ("bitfields", .object [("flags", .object [("elements", .array [
      .object [("name", .string "mode"), ("bits", .ofNat 3)],
      .object [("name", .string "state"), ("bits", .ofNat 5)]])])]),
    ("typedefs", .object [("root", .object [
      ("read_permission", .ofNat 3),
      ("elements", .array [
        .object [("name", .string "flags"), ("type", .string "flags")],
        .object [("name", .string "levels"), ("array_size", .ofNat 2),
          ("write_permission", .array [.string "service"])]])])]),
    ("generated_maps", .object [("board", .object [("type", .string "root")])]),
    ("overrides", .object [("flags.mode", .object [("write_permission", .bool true)])])]

namespace Header

theorem finished_guarded : (Resolution.finished .guarded).error.isNone ∧
    (Resolution.finished .guarded).state.metadata.map (·.users) = some ["guest", "service"] ∧
    (Resolution.finished .guarded).state.maps.map accessTable = [[0x31, 0x32, 0x32]] := by
  decide +kernel

/-- The second user may write the last byte, by the name in the element's keys, and not the first one. -/
theorem accessTable_grants_service : ∃ c, resolve .guarded = .ok c ∧ ∃ m ∈ c.maps,
    c.metadata.users[1]? = some "service" ∧ accessTable m = [0x31, 0x32, 0x32] ∧
      (∃ r ∈ m.records, r.Spans 2 ∧ Access.Grants "service" 1 (r.props.get? Permission.write.key)) ∧
      ¬∃ r ∈ m.records, r.Spans 0 ∧ Access.Grants "service" 1 (r.props.get? Permission.write.key) := by
  obtain ⟨hnone, husers, htables⟩ := finished_guarded
  obtain ⟨named, hm, hnames⟩ := Option.map_eq_some_iff.mp husers
  obtain ⟨c, _, hc, _⟩ := Resolution.resolves_of_finished hnone
    (Option.isSome_iff_exists.mpr ⟨named, hm⟩)
  obtain ⟨r, metadata, hdone, hr, users, maps⟩ := Resolution.resolve_eq_finished hc
  rw [hdone] at hm htables
  obtain ⟨m, hmaps, table⟩ := List.map_eq_singleton_iff.mp htables
  have here : m ∈ c.maps := by
    rw [maps]
    exact hmaps ▸ List.mem_singleton_self m
  have second : c.metadata.users[1]? = some "service" := by
    rw [users, Option.some.inj (hr.symm.trans hm), hnames]
    rfl
  obtain ⟨length, _, bytes⟩ := accessTable_grants hc here
  rw [table] at length bytes
  refine ⟨c, hc, m, here, second, table, ?_, ?_⟩
  · obtain ⟨byte, hbyte, rights⟩ := bytes 2 (length ▸ by decide)
    cases hbyte
    exact (rights 1 "service" second).2.mp (by decide)
  · obtain ⟨byte, hbyte, rights⟩ := bytes 0 (length ▸ by decide)
    cases hbyte
    exact fun hin => absurd ((rights 1 "service" second).2.mpr hin) (by decide)

end Header

end AddressMap
