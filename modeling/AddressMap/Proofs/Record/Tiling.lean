import AddressMap.Proofs.Resolution.Tables
import Mathlib.Algebra.Order.Ring.Nat
import Mathlib.Data.List.Basic

set_option autoImplicit false

namespace AddressMap

variable {patterns : PatternReader}

namespace Record

def bitStart (r : Record) : Nat :=
  match r.shape with
  | .item _ => 8 * r.mapOffset
  | .bits s => 8 * r.mapOffset + s.offset

def bitWidth (r : Record) : Nat :=
  match r.shape with
  | .item _ => 8 * r.unitSize
  | .bits s => s.width

def bitStop (r : Record) : Nat := r.bitStart + r.bitWidth

def Covers (r : Record) (bit : Nat) : Prop := r.bitStart ≤ bit ∧ bit < r.bitStop

end Record

/-- The records follow each other from bit `start` to bit `stop`, none of them empty. -/
def Tiles (start stop : Nat) : List Record → Prop
  | [] => start = stop
  | r :: rest => r.bitStart = start ∧ 0 < r.bitWidth ∧ Tiles r.bitStop stop rest

theorem tiles_le {start stop : Nat} {rs : List Record} (h : Tiles start stop rs) : start ≤ stop := by
  induction rs generalizing start with
  | nil => exact Nat.le_of_eq h
  | cons r rest ih =>
    obtain ⟨hstart, hwidth, htail⟩ := h
    have hle := ih htail
    unfold Record.bitStop at hle
    omega

theorem tiles_nil_iff {start stop : Nat} {rs : List Record} (h : Tiles start stop rs) :
    rs = [] ↔ start = stop := by
  cases rs with
  | nil => exact ⟨fun _ => h, fun _ => rfl⟩
  | cons r rest =>
    obtain ⟨hstart, hwidth, htail⟩ := h
    have hle := tiles_le htail
    unfold Record.bitStop at hle
    constructor
    · intro hnil
      cases hnil
    · intro heq
      omega

theorem tiles_covers_le {start stop : Nat} {rs : List Record} (h : Tiles start stop rs) {bit i : Nat}
    {r : Record} (hr : rs[i]? = some r) (hbit : r.Covers bit) : start ≤ bit := by
  induction rs generalizing start i with
  | nil => simp at hr
  | cons s rest ih =>
    obtain ⟨hstart, hwidth, htail⟩ := h
    cases i with
    | zero =>
      simp only [List.getElem?_cons_zero, Option.some.injEq] at hr
      subst hr
      exact hstart ▸ hbit.1
    | succ i =>
      have hle := ih htail (by simpa using hr)
      unfold Record.bitStop at hle
      omega

/-- A tiling covers each of its bits at exactly one of its places. -/
theorem tiles_existsUnique {start stop : Nat} {rs : List Record} (h : Tiles start stop rs) {bit : Nat}
    (hstart : start ≤ bit) (hstop : bit < stop) : ∃! i : Nat, ∃ r, rs[i]? = some r ∧ r.Covers bit := by
  induction rs generalizing start with
  | nil =>
    have heq : start = stop := h
    omega
  | cons r rest ih =>
    obtain ⟨hs, hwidth, htail⟩ := h
    by_cases hin : bit < r.bitStop
    · refine ⟨0, ⟨r, by simp, hs ▸ hstart, hin⟩, ?_⟩
      rintro i ⟨s, hi, hcover⟩
      cases i with
      | zero => rfl
      | succ i =>
        have hle := tiles_covers_le htail (by simpa using hi) hcover
        omega
    · obtain ⟨i, ⟨s, hi, hcover⟩, hunique⟩ := ih htail (by omega)
      refine ⟨i + 1, ⟨s, by simpa using hi, hcover⟩, ?_⟩
      rintro j ⟨t, hj, hcover'⟩
      cases j with
      | zero =>
        simp only [List.getElem?_cons_zero, Option.some.injEq] at hj
        subst hj
        exact absurd hcover'.2 hin
      | succ j => exact congrArg (· + 1) (hunique j ⟨t, by simpa using hj, hcover'⟩)

/-- The records lie one behind the other from byte `start` to byte `stop`. An item is a unit of its own,
    the members of a bitfield share one; `used` bits of the first unit are taken already. -/
def Stacks (start used stop : Nat) : List Record → Prop
  | [] => used = 0 ∧ start = stop
  | r :: rest => r.mapOffset = start ∧
    match r.shape with
    | .item _ => used = 0 ∧ 0 < r.unitSize ∧ Stacks (start + r.unitSize) 0 stop rest
    | .bits s => s.offset = used ∧ 0 < s.width ∧
      (used + s.width = 8 * r.unitSize ∧ Stacks (start + r.unitSize) 0 stop rest ∨
        used + s.width < 8 * r.unitSize ∧ Stacks start (used + s.width) stop rest)

theorem stacks_append {start used middle stop : Nat} {rs ss : List Record}
    (hr : Stacks start used middle rs) (hs : Stacks middle 0 stop ss) :
    Stacks start used stop (rs ++ ss) := by
  induction rs generalizing start used with
  | nil =>
    obtain ⟨rfl, rfl⟩ := hr
    exact hs
  | cons r rest ih =>
    obtain ⟨hoffset, hshape⟩ := hr
    refine ⟨hoffset, ?_⟩
    split at hshape
    · exact ⟨hshape.1, hshape.2.1, ih hshape.2.2⟩
    · refine ⟨hshape.1, hshape.2.1, ?_⟩
      rcases hshape.2.2 with ⟨hfull, htail⟩ | ⟨hmore, htail⟩
      · exact .inl ⟨hfull, ih htail⟩
      · exact .inr ⟨hmore, ih htail⟩

theorem stacks_congr {start used stop : Nat} {rs ss : List Record}
    (h : rs.map Record.placement = ss.map Record.placement) (hs : Stacks start used stop ss) :
    Stacks start used stop rs := by
  induction rs generalizing start used ss with
  | nil =>
    cases ss with
    | nil => exact hs
    | cons s rest => cases h
  | cons r rest ih =>
    cases ss with
    | nil => cases h
    | cons s tail =>
      simp only [List.map_cons, List.cons.injEq, Record.placement, Placement.mk.injEq] at h
      obtain ⟨⟨_, hoffset, hshape, hunit, _⟩, htail⟩ := h
      unfold Stacks at hs ⊢
      rw [hoffset, hshape, hunit]
      refine ⟨hs.1, ?_⟩
      have hs := hs.2
      split at hs
      · exact ⟨hs.1, hs.2.1, ih htail hs.2.2⟩
      · refine ⟨hs.1, hs.2.1, ?_⟩
        rcases hs.2.2 with ⟨hfull, hrest⟩ | ⟨hmore, hrest⟩
        · exact .inl ⟨hfull, ih htail hrest⟩
        · exact .inr ⟨hmore, ih htail hrest⟩

theorem tiles_of_stacks {start used stop : Nat} {rs : List Record} (h : Stacks start used stop rs) :
    Tiles (8 * start + used) (8 * stop) rs := by
  induction rs generalizing start used with
  | nil =>
    obtain ⟨rfl, rfl⟩ := h
    exact rfl
  | cons r rest ih =>
    obtain ⟨rfl, hshape⟩ := h
    unfold Tiles Record.bitStop Record.bitStart Record.bitWidth
    split at hshape
    · obtain ⟨rfl, hunit, htail⟩ := hshape
      have tail := ih htail
      rw [Nat.add_zero, Nat.mul_add] at tail
      exact ⟨rfl, by omega, tail⟩
    · obtain ⟨rfl, hwidth, hrest⟩ := hshape
      refine ⟨rfl, hwidth, ?_⟩
      rcases hrest with ⟨hfull, htail⟩ | ⟨_, htail⟩
      · have tail := ih htail
        rw [Nat.add_zero, Nat.mul_add, ← hfull, ← Nat.add_assoc] at tail
        exact tail
      · have tail := ih htail
        rw [← Nat.add_assoc] at tail
        exact tail

theorem stacks_start_le {start used stop : Nat} {rs : List Record} (h : Stacks start used stop rs) :
    ∀ r ∈ rs, start ≤ r.mapOffset := by
  induction rs generalizing start used with
  | nil => simp
  | cons r rest ih =>
    obtain ⟨hoffset, hshape⟩ := h
    intro s hs
    rcases List.mem_cons.mp hs with rfl | hs
    · exact Nat.le_of_eq hoffset.symm
    · split at hshape
      · have hle := ih hshape.2.2 s hs
        omega
      · rcases hshape.2.2 with ⟨_, htail⟩ | ⟨_, htail⟩
        · have hle := ih htail s hs
          omega
        · exact ih htail s hs

theorem stacks_ordered {start used stop : Nat} {rs : List Record} (h : Stacks start used stop rs) :
    rs.Pairwise fun r s => r.mapOffset ≤ s.mapOffset := by
  induction rs generalizing start used with
  | nil => exact .nil
  | cons r rest ih =>
    have hle := stacks_start_le h
    obtain ⟨hoffset, hshape⟩ := h
    refine .cons (fun s hs => hoffset ▸ hle s (List.mem_cons_of_mem _ hs)) ?_
    split at hshape
    · exact ih hshape.2.2
    · rcases hshape.2.2 with ⟨_, htail⟩ | ⟨_, htail⟩
      · exact ih htail
      · exact ih htail

namespace Walk

/-- A step that succeeds walks over so many bytes. -/
def Advances (step : Cursor → Step) (bytes : Nat) : Prop :=
  ∀ c rs c', step c = .ok (rs, c') → c'.offset = c.offset + bytes ∧ Stacks c.offset 0 c'.offset rs

def total {α : Type} (size : α → Nat) : List α → Nat
  | [] => 0
  | x :: rest => size x + total size rest

theorem total_const {α : Type} (n : Nat) (xs : List α) : total (fun _ => n) xs = n * xs.length := by
  induction xs with
  | nil => rfl
  | cons x rest ih =>
    rw [total, ih, List.length_cons, Nat.mul_succ]
    omega

theorem total_chained {start stop : Nat} {es : List Element} (h : Element.Chained start stop es) :
    stop = start + total Element.size es := by
  induction es generalizing start with
  | nil => exact Eq.symm h
  | cons e rest ih =>
    have htail := ih h.2
    rw [htail, Element.stop, h.1, total]
    omega

theorem sequence_advances {α : Type} {step : α → Cursor → Step} {size : α → Nat} {xs : List α}
    (h : ∀ x ∈ xs, Advances (step x) (size x)) : Advances (sequence step xs) (total size xs) := by
  induction xs with
  | nil =>
    intro c rs c' hstep
    cases hstep
    exact ⟨rfl, rfl, rfl⟩
  | cons x rest ih =>
    intro c rs c' hstep
    simp only [sequence] at hstep
    split at hstep
    · cases hstep
    rename_i records next hx
    obtain ⟨⟨tail, last⟩, htail, heq⟩ := map_eq_ok.mp hstep
    cases heq
    obtain ⟨hnext, hstack⟩ := h x List.mem_cons_self c records next hx
    obtain ⟨hlast, hstacks⟩ := ih (fun y hy => h y (List.mem_cons_of_mem _ hy)) next tail _ htail
    refine ⟨?_, stacks_append hstack hstacks⟩
    rw [hlast, hnext, total]
    omega

theorem length_itemsFrom (p : Place) (e : Element) (size uid index n : Nat) :
    (itemsFrom p e size uid index n).length = n := by
  induction n generalizing index with
  | zero => rfl
  | succ n ih => rw [itemsFrom, List.length_cons, ih]

theorem eachItem_advances {p : Place} {e : Element} {body : Place → Cursor → Step}
    (h : ∀ p, Advances (body p) e.itemSize) : Advances (eachItem p e body) e.size := by
  intro c rs c' hstep
  unfold eachItem at hstep
  unfold Element.size
  cases hcount : e.count with
  | none =>
    rw [hcount] at hstep
    rw [Option.getD_none, Nat.mul_one]
    exact h _ c rs c' hstep
  | some n =>
    rw [hcount] at hstep
    have all : Advances (sequence body (itemsFrom p e n c.uid 0 n)) _ := sequence_advances fun q _ => h q
    rw [total_const, length_itemsFrom] at all
    exact all { c with uid := c.uid + 1 } rs c' hstep

theorem leaf_advances {e : Element} (h : 0 < e.itemSize) (p : Place) :
    Advances (leaf e p) e.itemSize := by
  intro c rs c' hstep
  cases hstep
  exact ⟨rfl, rfl, rfl, h, rfl, rfl⟩

theorem stacks_of_packs {offset unit : Nat} {record : BitfieldMember → Record}
    (hr : ∀ m, (record m).mapOffset = offset ∧ (record m).unitSize = unit ∧
      (record m).shape = .bits ⟨m.bits, m.width, m.offset⟩)
    {used : Nat} {ms : List BitfieldMember} (h : Bitfield.Packs used (8 * unit) ms) (hne : ms ≠ []) :
    Stacks offset used (offset + unit) (ms.map record) := by
  induction ms generalizing used with
  | nil => exact absurd rfl hne
  | cons m rest ih =>
    obtain ⟨hstart, hwidth, htail⟩ := h
    obtain ⟨hoffset, hunit, hshape⟩ := hr m
    rw [List.map_cons]
    unfold Stacks
    rw [hshape, hunit]
    refine ⟨hoffset, hstart, hwidth, ?_⟩
    cases rest with
    | nil => exact .inl ⟨htail, rfl, rfl⟩
    | cons n more =>
      have hle := Bitfield.packs_le htail.2.2
      have hpos := htail.2.1
      refine .inr ⟨?_, ih htail (List.cons_ne_nil n more)⟩
      dsimp only
      omega

theorem bits_advances {b : Bitfield} (h : b.Packed) (p : Place) : Advances (bits b p) b.base.size := by
  intro c rs c' hstep
  cases hstep
  have hne : b.members ≠ [] := by
    intro hnil
    have hpos := b.base.size_pos
    unfold Bitfield.Packed at h
    rw [hnil] at h
    have heq : 0 = 8 * b.base.size := h
    omega
  refine ⟨rfl, stacks_of_packs ?_ h hne⟩
  exact fun _ => ⟨rfl, rfl, rfl⟩

theorem visit_eq_ok {table : TypeTable} {depth : Nat} {p : Place} {e : Element} {c : Cursor}
    {r : List Record × Cursor} (h : visit table depth p e c = .ok r) :
    ((∃ base, e.kind = .primitive base) ∨ ∃ name, e.kind = .enumeration name) ∧
        eachItem p e (leaf e) c = .ok r ∨
      (∃ name b, e.kind = .bitfield name ∧ table.bitfields.get? name = some b ∧
        eachItem ((p.inherit e.props).inherit b.props) e (bits b) c = .ok r) ∨
      ∃ name t depth', e.kind = .typedef name ∧ table.typedefs.get? name = some t ∧
        depth = depth' + 1 ∧ eachItem ((p.inherit e.props).inherit t.props) e
          (fun p => sequence (visit table depth' p) t.elements) c = .ok r := by
  unfold visit at h
  split at h
  · rename_i base hk
    exact .inl ⟨.inl ⟨base, hk⟩, h⟩
  · rename_i name hk
    exact .inl ⟨.inr ⟨name, hk⟩, h⟩
  · rename_i name hk
    split at h
    · cases h
    · rename_i b hb
      exact .inr (.inl ⟨name, b, hk, hb, h⟩)
  · rename_i name hk
    split at h
    · cases h
    · rename_i t ht
      split at h
      · cases h
      · rename_i depth'
        exact .inr (.inr ⟨name, t, depth', hk, ht, rfl, h⟩)

theorem visit_advances {table : TypeTable} (ht : table.Resolved) (depth : Nat) (p : Place) {e : Element}
    (he : e.Sized table.bitfields table.typedefs) : Advances (visit table depth p e) e.size := by
  induction depth using Nat.strongRecOn generalizing p e with
  | _ depth ih =>
    intro c rs c' hstep
    unfold Element.Sized at he
    rcases visit_eq_ok hstep with ⟨hk, h⟩ | ⟨name, b, hk, hb, h⟩ | ⟨name, t, below, hk, hget, rfl, h⟩
    · have hpos : 0 < e.itemSize := by
        rcases hk with ⟨base, hk⟩ | ⟨name, hk⟩
        · simpa only [hk] using he
        · simpa only [hk] using he
      exact eachItem_advances (leaf_advances hpos) c rs c' h
    · simp only [hk, hb, Option.some.injEq, exists_eq_left'] at he
      exact eachItem_advances (he ▸ bits_advances (ht.packed name b hb)) c rs c' h
    · simp only [hk, hget, Option.some.injEq, exists_eq_left'] at he
      -- The elements of a typedef fill it, so their sizes sum up to its own.
      have hsize : t.size = total Element.size t.elements := by
        rw [total_chained (ht.chained name t hget), Nat.zero_add]
      refine eachItem_advances (fun q => ?_) c rs c' h
      rw [← he, hsize]
      exact sequence_advances fun f hf => ih below (Nat.lt_succ_self below) q (ht.sized name t hget f hf)

theorem flatten_stacks {table : TypeTable} (ht : table.Resolved) {name : String} {root : Typedef}
    (hroot : table.typedefs.get? name = some root) {uid next : Nat} {rs : List Record}
    (h : flatten table root uid = .ok (rs, next)) : Stacks 0 0 root.size rs := by
  obtain ⟨⟨records, c⟩, hwalk, heq⟩ := map_eq_ok.mp h
  cases heq
  have all := sequence_advances fun e he =>
    visit_advances ht table.typedefs.length ⟨none, root.props, []⟩ (ht.sized name root hroot e he)
  obtain ⟨hoffset, stacked⟩ := all _ _ _ hwalk
  rw [total_chained (ht.chained name root hroot)]
  rwa [hoffset] at stacked

end Walk

theorem FlatMap.WalkedIn.stacked {table : TypeTable} (ht : table.Resolved) {m : FlatMap}
    (h : m.WalkedIn table) : Stacks 0 0 m.size m.records := by
  obtain ⟨root, records, uid, next, hroot, hsize, hwalk, hplace⟩ := h
  rw [hsize]
  exact stacks_congr hplace (Walk.flatten_stacks ht hroot hwalk)

/-- The records of a map tile it from its first bit to its last, in byte order. -/
theorem Resolution.records_tile_map {d : Description} {c : ResolvedMap} (h : resolve d patterns = .ok c)
    {m : FlatMap} (hm : m ∈ c.maps) :
    Tiles 0 (8 * m.size) m.records ∧ (m.records = [] ↔ m.size = 0) ∧
      (∀ bit < 8 * m.size, ∃! i : Nat, ∃ r, m.records[i]? = some r ∧ r.Covers bit) ∧
      m.records.Pairwise fun r s => r.mapOffset ≤ s.mapOffset := by
  obtain ⟨table, walked⟩ := resolve_walkedFrom h
  have stacked := (walked.walked m hm).stacked walked.resolved
  have tiles : Tiles 0 (8 * m.size) m.records := tiles_of_stacks stacked
  refine ⟨tiles, ?_, ?_, stacks_ordered stacked⟩
  · rw [tiles_nil_iff tiles]
    omega
  · intro bit hbit
    exact tiles_existsUnique tiles (Nat.zero_le bit) hbit

/-- Two pairs, each of a bitfield that uses three of its bits and of two bytes. -/
def Description.pairs : Description where
  sections := [
    ("metadata", .object [("app_name", .string "board"), ("default_type", .string "uint8_t")]),
    ("bitfields", .object [("flags", .object [
      ("elements", .array [.object [("name", .string "mode"), ("bits", .ofNat 3)]])])]),
    ("typedefs", .object [
      ("pair", .object [("elements", .array [
        .object [("name", .string "state"), ("type", .string "flags")],
        .object [("name", .string "values"), ("array_size", .ofNat 2)]])]),
      ("root", .object [("elements", .array [
        .object [("name", .string "pairs"), ("type", .string "pair"), ("array_size", .ofNat 2)]])])]),
    ("generated_maps", .object [("board", .object [("type", .string "root")])])]

namespace Resolution

theorem finished_pairs : (finished .pairs).error.isNone ∧ (finished .pairs).state.metadata.isSome ∧
    (finished .pairs).state.maps.map FlatMap.size = [6] := by
  decide +kernel

theorem records_tile_pairs : ∃ c, resolve .pairs = .ok c ∧ ∃ m ∈ c.maps, m.size = 6 ∧
    Tiles 0 48 m.records ∧ m.records ≠ [] := by
  obtain ⟨hnone, hmeta, hsizes⟩ := finished_pairs
  obtain ⟨c, metadata, hc, rfl⟩ := resolves_of_finished hnone hmeta
  obtain ⟨m, hm, hsize⟩ := List.map_eq_singleton_iff.mp hsizes
  have hmem : m ∈ (finished .pairs).state.maps := by simp [hm]
  obtain ⟨tiles, hnil, _⟩ := records_tile_map hc hmem
  rw [hsize] at tiles hnil
  exact ⟨_, hc, m, hmem, hsize, tiles, by simp [hnil]⟩

end Resolution

end AddressMap
