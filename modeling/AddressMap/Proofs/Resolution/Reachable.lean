import AddressMap.Proofs.Record.Termination
import AddressMap.Proofs.Resolution.Stages
import AddressMap.Proofs.Typedef.Order

set_option autoImplicit false

/-!
Stages may be called in any order and any number of times, and what a failing one has finished stays. A
typedef that is laid out again may be of typedefs that were of it before. Still no circle comes about: the
typedefs that a stage has laid out are of earlier ones of the same stage only, and all others are as they
were. So a place in the last order, or behind all of it the old rank, is a rank again.
-/

namespace AddressMap

variable {patterns : PatternReader}

namespace Typedef

theorem itemType?_typedef {s : Scope} {type name : String} {item : Scope.ItemType}
    (h : s.itemType? type = some item) (hk : item.kind = .typedef name) :
    type = name ∧ s.isLeaf type = false := by
  unfold Scope.itemType? at h
  split at h
  · cases h
    cases hk
  rename_i hp
  split at h
  · cases h
    cases hk
  rename_i hb
  split at h
  · cases h
    cases hk
  rename_i he
  split at h
  · cases h
    cases hk
    exact ⟨rfl, by simp [Scope.isLeaf, Entries.has, hp, hb, he]⟩
  · cases h

theorem layout_holds {s : Scope} {owner : String} {d : TypedefDecl} {t : Typedef}
    (h : layout s owner d = .ok t) {type : String} (ht : t.Holds type) :
    type ∈ elementTypes s.fallback d ∧ s.isLeaf type = false := by
  obtain ⟨e, he, hk⟩ := ht
  rcases mem_layout h he with ⟨start, m, hmem, hm⟩ | ⟨_, _, _, rfl⟩
  · obtain ⟨_, item, _, hitem, _, rfl⟩ := element_eq_ok.mp hm
    obtain ⟨rfl, hleaf⟩ := itemType?_typedef hitem hk
    exact ⟨List.mem_map_of_mem hmem, hleaf⟩
  · cases hk

theorem layout_known {s : Scope} {owner : String} {d : TypedefDecl} {t : Typedef}
    (h : layout s owner d = .ok t) {e : Element} (he : e ∈ t.elements) :
    e.Known ⟨s.typedefs, s.bitfields⟩ := by
  have sized := (layout_chained h).2 e he
  unfold Element.Sized at sized
  unfold Element.Known
  cases hk : e.kind with
  | primitive base => trivial
  | enumeration name => trivial
  | bitfield name =>
    rw [hk] at sized
    obtain ⟨b, hb, _⟩ := sized
    exact Option.isSome_of_eq_some hb
  | typedef name =>
    rw [hk] at sized
    obtain ⟨u, hu, _⟩ := sized
    exact Option.isSome_of_eq_some hu

theorem Ordered.left {isLeaf : String → Bool} {fallback : Primitive} {table : Entries TypedefDecl}
    {names rest : List String} (h : Ordered isLeaf fallback table (names ++ rest)) :
    Ordered isLeaf fallback table names := by
  rintro before name after rfl
  exact h before name (after ++ rest) (by rw [List.append_assoc, List.cons_append])

end Typedef

namespace TypeTable

def Ranked (table : TypeTable) (rank : String → Nat) : Prop :=
  ∀ name type, table.Holds name type → rank type < rank name

theorem Ranked.leads {table : TypeTable} {rank : String → Nat} (h : table.Ranked rank) {name type : String}
    (hleads : Relation.TransGen table.Holds name type) : rank type < rank name := by
  induction hleads with
  | single holds => exact h _ _ holds
  | tail _ holds ih => exact Nat.lt_trans (h _ _ holds) ih

theorem Ranked.acyclic {table : TypeTable} {rank : String → Nat} (h : table.Ranked rank) : table.Acyclic :=
  fun _ hcircle => Nat.lt_irrefl _ (h.leads hcircle)

/-- Everything that elements are of is there, and there is a rank. -/
structure Sound (table : TypeTable) : Prop where
  closed : table.Closed
  ranked : ∃ rank, table.Ranked rank

end TypeTable

theorem Element.Known.mono {table table' : TypeTable} {e : Element} (h : e.Known table)
    (hb : table.bitfields.keys ⊆ table'.bitfields.keys) (ht : table.typedefs.keys ⊆ table'.typedefs.keys) :
    e.Known table' := by
  unfold Element.Known at h ⊢
  split at h
  · trivial
  · trivial
  · exact Entries.get?_isSome_iff.mpr (hb (Entries.get?_isSome_iff.mp h))
  · exact Entries.get?_isSome_iff.mpr (ht (Entries.get?_isSome_iff.mp h))

namespace Typedef

variable {s : Scope} {table : Entries TypedefDecl}

theorem layoutAll_closed {names : List String} (h : (⟨s.typedefs, s.bitfields⟩ : TypeTable).Closed) :
    (⟨(layoutAll s table names).state, s.bitfields⟩ : TypeTable).Closed := by
  induction names generalizing s with
  | nil => exact h
  | cons name rest ih =>
    rw [layoutAll]
    split
    · exact ih h
    split
    · exact h
    rename_i t hlay
    have grown : s.typedefs.keys ⊆ (s.typedefs.insert name t).keys :=
      fun other hother => Entries.mem_keys_insert.mpr (.inr hother)
    refine ih (s := { s with typedefs := s.typedefs.insert name t }) ?_
    intro other u hu e he
    change (s.typedefs.insert name t).get? other = some u at hu
    rw [Entries.get?_insert] at hu
    split at hu
    · cases hu
      exact (layout_known hlay he).mono (List.Subset.refl _) grown
    · exact (h other u hu e he).mono (List.Subset.refl _) grown

/-- The typedefs with these names were laid out from their declarations, all others are the old ones. -/
structure Renewed (isLeaf : String → Bool) (fallback : Primitive) (table : Entries TypedefDecl)
    (old ts : Entries Typedef) (names : List String) : Prop where
  kept : ∀ name, name ∉ names → ts.get? name = old.get? name
  uses : ∀ name ∈ names, ∀ t, ts.get? name = some t → ∀ type, t.Holds type →
    Uses isLeaf fallback table name type

section Renewed

variable {isLeaf : String → Bool} {fallback : Primitive} {old ts : Entries Typedef} {names : List String}

theorem Renewed.insert (h : Renewed isLeaf fallback table old ts names) {name : String} {t : Typedef}
    (ht : ∀ type, t.Holds type → Uses isLeaf fallback table name type) :
    Renewed isLeaf fallback table old (ts.insert name t) (names ++ [name]) := by
  constructor
  · intro other hother
    rw [List.mem_append, List.mem_singleton, not_or] at hother
    rw [Entries.get?_insert, if_neg hother.2]
    exact h.kept other hother.1
  · intro other hother u hu
    rw [Entries.get?_insert] at hu
    split at hu
    · rename_i heq
      cases hu
      exact heq ▸ ht
    · rename_i hne
      have hin : other ∈ names := by
        rcases List.mem_append.mp hother with hin | heq
        · exact hin
        · exact absurd (List.mem_singleton.mp heq) hne
      exact h.uses other hin u hu

/-- The place among the new typedefs, and for an old one its rank behind all of them. -/
def rankAfter (names : List String) (rank : String → Nat) (name : String) : Nat :=
  if name ∈ names then names.idxOf name else names.length + rank name

theorem Renewed.ranked (h : Renewed isLeaf fallback table old ts names) (ho : Ordered isLeaf fallback table names)
    {bitfields : Entries Bitfield} {rank : String → Nat} (hr : (⟨old, bitfields⟩ : TypeTable).Ranked rank) :
    (⟨ts, bitfields⟩ : TypeTable).Ranked (rankAfter names rank) := by
  rintro name type ⟨t, ht, holds⟩
  unfold rankAfter
  by_cases hname : name ∈ names
  · obtain ⟨htype, hlt⟩ := ho.uses hname (h.uses name hname t ht type holds)
    rwa [if_pos hname, if_pos htype]
  · rw [if_neg hname]
    by_cases htype : type ∈ names
    · rw [if_pos htype]
      exact Nat.lt_add_right _ (List.idxOf_lt_length_iff.mpr htype)
    · have ht' : old.get? name = some t := (h.kept name hname).symm.trans ht
      rw [if_neg htype]
      exact Nat.add_lt_add_left (hr name type ⟨t, ht', holds⟩) _

end Renewed

theorem layoutAll_renewed {old : Entries Typedef} {before names : List String}
    (h : Renewed s.isLeaf s.fallback table old s.typedefs before) (hnames : names ⊆ table.keys) :
    ∃ laid rest, before ++ names = laid ++ rest ∧
      Renewed s.isLeaf s.fallback table old (layoutAll s table names).state laid := by
  induction names generalizing s before with
  | nil => exact ⟨before, [], rfl, h⟩
  | cons name later ih =>
    obtain ⟨hname, hlater⟩ := List.cons_subset.mp hnames
    obtain ⟨d, hd⟩ := Option.isSome_iff_exists.mp (Entries.get?_isSome_iff.mpr hname)
    rw [layoutAll, hd]
    dsimp only
    split
    · exact ⟨before, name :: later, rfl, h⟩
    rename_i t hlay
    have uses : ∀ type, t.Holds type → Uses s.isLeaf s.fallback table name type :=
      fun type ht => ⟨d, hd, layout_holds hlay ht⟩
    obtain ⟨laid, rest, heq, renewed⟩ := ih (s := { s with typedefs := s.typedefs.insert name t })
      (h.insert uses) hlater
    exact ⟨laid, rest, by rw [← heq, List.append_assoc, List.singleton_append], renewed⟩

/-- What an order places is in the table, behind all that it uses. -/
theorem placed_of_order {isLeaf : String → Bool} {fallback : Primitive} (hkeys : table.keys.Nodup)
    {names : List String} (horder : order isLeaf fallback table = .ok names) :
    names ⊆ table.keys ∧ Ordered isLeaf fallback table names := by
  have ending : OrderEnding isLeaf fallback table (order isLeaf fallback table) := order_ending hkeys
  rw [horder] at ending
  cases ending with
  | finished hp => exact ⟨hp.subset, hp.ordered⟩

theorem layoutAll_sound (h : (⟨s.typedefs, s.bitfields⟩ : TypeTable).Sound) (hkeys : table.keys.Nodup)
    {names : List String} (horder : order s.isLeaf s.fallback table = .ok names) :
    (⟨(layoutAll s table names).state, s.bitfields⟩ : TypeTable).Sound := by
  refine ⟨layoutAll_closed h.closed, ?_⟩
  obtain ⟨rank, hrank⟩ := h.ranked
  obtain ⟨sub, ordered⟩ := placed_of_order hkeys horder
  have none : Renewed s.isLeaf s.fallback table s.typedefs s.typedefs [] :=
    ⟨fun _ _ => rfl, fun _ hnil => absurd hnil List.not_mem_nil⟩
  obtain ⟨laid, rest, heq, renewed⟩ := layoutAll_renewed none sub
  rw [List.nil_append] at heq
  exact ⟨_, renewed.ranked (heq ▸ ordered).left hrank⟩

end Typedef

namespace Resolution

variable {r : Resolution} {es : Props}

theorem resolveInto_keys {α β : Type} {resolve : String → α → Except Error β} {table : Entries β}
    {entries : Entries α} : table.keys ⊆ (resolveInto resolve table entries).state.keys := by
  induction entries generalizing table with
  | nil => exact List.Subset.refl _
  | cons e rest ih =>
    rw [resolveInto]
    split
    · exact List.Subset.refl _
    · exact fun name hname => ih (Entries.mem_keys_insert.mpr (.inr hname))

theorem addMetadata_types (r : Resolution) (es : Props) : (r.addMetadata es).state.types = r.types := by
  unfold addMetadata
  split
  · rfl
  · split <;> rfl

theorem addEnums_types (r : Resolution) (es : Props) : (r.addEnums es).state.types = r.types := by
  unfold addEnums
  split
  · rfl
  · dsimp only
    split <;> rfl

theorem addBitfields_types (r : Resolution) (es : Props) : (r.addBitfields es).state.typedefs = r.typedefs ∧
    r.bitfields.keys ⊆ (r.addBitfields es).state.bitfields.keys := by
  unfold addBitfields
  split
  · exact ⟨rfl, List.Subset.refl _⟩
  · dsimp only
    split
    · exact ⟨rfl, List.Subset.refl _⟩
    · exact ⟨rfl, resolveInto_keys⟩

/-- A typedef stage that gets as far as an order lays typedefs out in it, whether it succeeds or not. -/
theorem addTypedefs_types (r : Resolution) (es : Props) : (r.addTypedefs es).state.types = r.types ∨
    ∃ table names, table.keys.Perm es.keys ∧ Typedef.order r.scope.isLeaf r.fallbackType table = .ok names ∧
      (r.addTypedefs es).state.types = ⟨(Typedef.layoutAll r.scope table names).state, r.bitfields⟩ := by
  unfold addTypedefs
  split
  · exact .inl rfl
  rename_i entries hread
  split
  · exact .inl rfl
  rename_i table hexp
  split
  · exact .inl rfl
  rename_i names horder
  refine .inr ⟨table, names, ?_, horder, ?_⟩
  · rw [expandFrom_keys hexp, ← readEntries_keys hread]
    exact (Entries.sortByKey_perm entries).map _
  · dsimp only
    split <;> rfl

theorem addMaps_types (r : Resolution) (es : Props) : (r.addMaps es).state.types = r.types := by
  unfold addMaps
  split
  · rfl
  split
  · rfl
  dsimp only
  split
  · rfl
  unfold checkDefaultMap
  dsimp only
  repeat' split
  all_goals rfl

theorem addFingerprints_types (r : Resolution) : r.addFingerprints.state.types = r.types := by
  unfold addFingerprints
  split <;> rfl

theorem addBitfields_sound (h : r.types.Sound) : (r.addBitfields es).state.types.Sound := by
  obtain ⟨same, grown⟩ := addBitfields_types r es
  obtain ⟨rank, hrank⟩ := h.ranked
  refine ⟨fun name t ht e he => ?_, rank, fun name type ⟨t, ht, holds⟩ => ?_⟩
  · change (r.addBitfields es).state.typedefs.get? name = some t at ht
    rw [same] at ht
    have named : r.typedefs.keys = (r.addBitfields es).state.typedefs.keys := congrArg Entries.keys same.symm
    exact (h.closed name t ht e he).mono grown fun _ hother => named ▸ hother
  · change (r.addBitfields es).state.typedefs.get? name = some t at ht
    rw [same] at ht
    exact hrank name type ⟨t, ht, holds⟩

theorem addTypedefs_sound (h : r.types.Sound) (hes : es.keys.Nodup) : (r.addTypedefs es).state.types.Sound := by
  rcases addTypedefs_types r es with same | ⟨table, names, hkeys, horder, heq⟩
  · exact same ▸ h
  · exact heq ▸ Typedef.layoutAll_sound h (hkeys.nodup_iff.mpr hes) horder

inductive Stage where
  | defines
  | metadata
  | enums
  | bitfields
  | typedefs
  | maps
  | overrides
  | records
  | fingerprints

def Stage.run (s : Stage) (patterns : PatternReader) (es : Props) (r : Resolution) : Outcome Resolution :=
  match s with
  | .defines => r.addDefines es
  | .metadata => r.addMetadata es
  | .enums => r.addEnums es
  | .bitfields => r.addBitfields es
  | .typedefs => r.addTypedefs es
  | .maps => r.addMaps es
  | .overrides => r.addOverrides es patterns
  | .records => r.finishRecords
  | .fingerprints => r.addFingerprints

structure Call where
  stage : Stage
  entries : Props
  distinct : entries.keys.Nodup

def Call.run (c : Call) (patterns : PatternReader) (r : Resolution) : Outcome Resolution :=
  c.stage.run patterns c.entries r

/-- The state after the calls, each of which goes on with what the one before it has left. -/
def reach (patterns : PatternReader) (calls : List Call) : Resolution :=
  calls.foldl (fun r c => (c.run patterns r).state) start

theorem start_sound : start.types.Sound := by
  refine ⟨fun name t ht => ?_, fun _ => 0, fun name type ⟨t, ht, _⟩ => ?_⟩ <;> cases ht

theorem call_sound (h : r.types.Sound) (c : Call) : (c.run patterns r).state.types.Sound := by
  obtain ⟨stage, entries, distinct⟩ := c
  cases stage with
  | defines => exact h
  | metadata => exact addMetadata_types r entries ▸ h
  | enums => exact addEnums_types r entries ▸ h
  | bitfields => exact addBitfields_sound h
  | typedefs => exact addTypedefs_sound h distinct
  | maps => exact addMaps_types r entries ▸ h
  | overrides => exact h
  | records => exact h
  | fingerprints => exact addFingerprints_types r ▸ h

theorem reach_sound (calls : List Call) : (reach patterns calls).types.Sound := by
  have run : ∀ r : Resolution, r.types.Sound →
      (calls.foldl (fun r c => (c.run patterns r).state) r).types.Sound := by
    induction calls with
    | nil => exact fun _ h => h
    | cons c rest ih => exact fun r h => ih _ (call_sound h c)
  exact run start start_sound

theorem readEntries_ne_unknownType {α : Type} {kind : Section} {read : Value → Option α} {type context : String} :
    readEntries kind read es ≠ .error (.unknownType type context) := by
  induction es with
  | nil => exact fun h => by cases h
  | cons e rest ih =>
    obtain ⟨name, v⟩ := e
    rw [readEntries]
    split
    · exact fun h => by cases h
    · exact fun h => ih (map_eq_error.mp h)

theorem checkDefaultMap_ne_unknownType {names : List String} {type context : String} :
    (r.checkDefaultMap names).error ≠ some (.unknownType type context) := by
  unfold checkDefaultMap
  dsimp only
  split
  · split <;> exact fun h => by cases h
  · exact fun h => by cases h

theorem flattenAll_error {table : TypeTable} (hc : table.Closed) (ha : table.Acyclic) {uid : Nat}
    {maps : List FlatMap} {entries : Entries MapDecl} {e : Error}
    (h : (flattenAll table uid maps entries).error = some e) : ∃ name d, (name, d) ∈ entries ∧
      table.typedefs.get? d.type = none ∧ e = .unknownType d.type s!"map {name}" := by
  induction entries generalizing uid maps with
  | nil => cases h
  | cons entry rest ih =>
    obtain ⟨name, d⟩ := entry
    rw [flattenAll] at h
    split at h
    · rename_i hroot
      cases h
      exact ⟨name, d, List.mem_cons_self, hroot, rfl⟩
    rename_i root hroot
    obtain ⟨rs, next, hwalk⟩ := Walk.flatten_returns hc ha hroot uid
    rw [hwalk] at h
    obtain ⟨name', d', hmem, hnone, heq⟩ := ih h
    exact ⟨name', d', List.mem_cons_of_mem _ hmem, hnone, heq⟩

/-- What walks rely on, and what follows for them. -/
structure Walkable (r : Resolution) : Prop where
  /-- The typedefs and bitfields that elements are of are there, -/
  closed : r.types.Closed
  /-- no typedef leads back to itself, -/
  acyclic : r.types.Acyclic
  /-- so the walk over every typedef comes to its end, with or without a bound on the depth, -/
  ends : ∀ name root, r.typedefs.get? name = some root → ∀ uid, ∃ (rs : List Record) (last : Walk.Cursor),
    Walk.flatten r.types root uid = .ok (rs, last.uid) ∧
      Walk.Visits r.types (root.elements.map (⟨none, root.props, []⟩, ·)) ⟨0, uid⟩ (rs, last)
  /-- and a type that maps miss is one that a map itself names. -/
  blames : ∀ es type context, (r.addMaps es).error = some (.unknownType type context) →
    ∃ entries name d, readEntries .maps Declaration.map? es = .ok entries ∧ (name, d) ∈ entries ∧
      d.type = type ∧ r.typedefs.get? type = none ∧ context = s!"map {name}"

theorem walkable_of_sound (h : r.types.Sound) : r.Walkable := by
  obtain ⟨rank, hrank⟩ := h.ranked
  refine ⟨h.closed, hrank.acyclic, fun name root hroot uid => ?_, fun es type context he => ?_⟩
  · obtain ⟨rs, next, hwalk⟩ := Walk.flatten_returns h.closed hrank.acyclic hroot uid
    obtain ⟨last, rfl, run⟩ := Walk.visits_of_flatten hwalk
    exact ⟨rs, last, hwalk, run⟩
  · unfold addMaps at he
    split at he
    · rename_i hread
      cases he
      exact absurd hread readEntries_ne_unknownType
    rename_i entries hread
    split at he
    · cases he
    dsimp only at he
    split at he
    · rename_i hflat
      obtain ⟨name, d, hmem, hnone, heq⟩ := flattenAll_error h.closed hrank.acyclic (hflat.trans he)
      cases heq
      exact ⟨entries, name, d, hread, hmem, rfl, hnone, rfl⟩
    · exact absurd he checkDefaultMap_ne_unknownType

/-- However stages are called, every walk ends. -/
theorem reach_walkable (patterns : PatternReader) (calls : List Call) : (reach patterns calls).Walkable := 
  walkable_of_sound (reach_sound calls)

def single (name type : String) (size : Value) : String × Value :=
  (name, .object [("elements", .array [.object [("name", .string "item"), ("type", .string type),
    ("array_size", size)]])])

/-- The cell of the board is turned into a board of the cell, by a stage that fails behind that. -/
def turnedRound : List Call := [
  ⟨.typedefs, [single "cell" "uint8_t" (.ofNat 2), single "board" "cell" (.ofNat 2)], by decide⟩,
  ⟨.typedefs, [single "board" "uint8_t" (.ofNat 2), single "cell" "board" (.ofNat 2),
    single "wheel" "cell" (.array [])], by decide⟩]

def holdsTypes (r : Resolution) (name : String) : Option (List String) :=
  (r.typedefs.get? name).map (·.deps)

theorem turnedRound_walkable :
    holdsTypes (reach Pattern.read (turnedRound.take 1)) "board" = some ["cell"] ∧
    holdsTypes (reach Pattern.read turnedRound) "board" = some [] ∧
      holdsTypes (reach Pattern.read turnedRound) "cell" = some ["board"] ∧
    holdsTypes (reach Pattern.read turnedRound) "wheel" = none ∧ (reach Pattern.read turnedRound).Walkable := by
  have before : holdsTypes (reach Pattern.read (turnedRound.take 1)) "board" = some ["cell"] := by decide +kernel
  have after : ["board", "cell", "wheel"].map (holdsTypes (reach Pattern.read turnedRound)) =
      [some [], some ["board"], none] := by decide +kernel
  simp only [List.map_cons, List.map_nil, List.cons.injEq, and_true] at after
  exact ⟨before, after.1, after.2.1, after.2.2, reach_walkable Pattern.read turnedRound⟩

end Resolution

end AddressMap
