import AddressMap.Proofs.Names
import AddressMap.Proofs.Typedef.Layout
import Mathlib.Algebra.Order.Group.Nat
import Mathlib.Order.Bounds.Basic

set_option autoImplicit false

namespace AddressMap

/-- One item of the type is of this kind and size. -/
inductive Scope.Types (s : Scope) (type : String) : ElementKind → Nat → Prop
  | primitive {p : Primitive} (h : Primitive.ofName? type = some p) : Types s type (.primitive p) p.size
  | bitfield {b : Bitfield} (fresh : Primitive.ofName? type = none) (h : s.bitfields.get? type = some b) :
      Types s type (.bitfield type) b.base.size
  | enumeration {e : Enumeration} (fresh : Primitive.ofName? type = none ∧ s.bitfields.get? type = none)
      (h : s.enums.get? type = some e) : Types s type (.enumeration type) e.base.size
  | typedef {t : Typedef}
      (fresh : Primitive.ofName? type = none ∧ s.bitfields.get? type = none ∧ s.enums.get? type = none)
      (h : s.typedefs.get? type = some t) : Types s type (.typedef type) t.size

structure Scope.Aligns (s : Scope) : Prop where
  elements : ∀ a, s.align = some a → 0 < a
  structures : ∀ a, s.structAlign = some a → 0 < a

namespace Typedef

open Element

/-- The value evaluates to this number of 64 bits. -/
def Measures (env : Env) (v : Value) (n : Nat) : Prop := evaluateValue v env = .ok (.int n) ∧ n < sizeLimit

/-- As many items as the array size says, if there is one. -/
def Counts (env : Env) (arraySize : Option Value) (count : Option Nat) : Prop :=
  match arraySize with
  | none => count = none
  | some v => ∃ n, Measures env v n ∧ count = some n

/-- The element is the declared one: its items are of the type, and there are as many as it says. -/
structure Declares (s : Scope) (d : ElementDecl) (e : Element) : Prop where
  name : e.name = d.name
  type : e.type = d.type
  item : s.Types (d.type.getD s.fallback.name) e.kind e.itemSize
  count : Counts s.env d.arraySize e.count
  size : e.size = e.itemSize * e.count.getD 1

def declaredIn (es : List Element) : List Element := es.filter fun e => !e.reserved

def paddingsIn (es : List Element) : List Element := es.filter fun e => e.reserved

def paddingName (index : Nat) : String := s!"padding_{index}"

/-- From `start` to `stop` stand the declared elements, aligned, and as much padding as that takes. The names of
    the paddings count up from `pads`. -/
structure Contents (s : Scope) (start pads : Nat) (ds : List ElementDecl) (stop : Nat) (es : List Element) :
    Prop where
  chained : Chained start stop es
  declared : List.Forall₂ (Declares s) ds (declaredIn es)
  aligned : ∀ a, s.align = some a → a ∣ stop ∧ ∀ e ∈ declaredIn es, a ∣ e.offset
  padding : ∀ e ∈ paddingsIn es, 0 < e.size ∧ ∃ a, s.align = some a ∧ e.size < a
  numbered : (paddingsIn es).map (·.name) = (List.range' pads (paddingsIn es).length).map paddingName

/-- The size of a typedef whose contents end at `stop`. -/
def Sizes (s : Scope) (total : Option Value) (stop size : Nat) : Prop :=
  match total with
  | some v => Measures s.env v size ∧ stop ≤ size
  | none =>
    match s.structAlign with
    | some a => IsLeast {n | a ∣ n ∧ stop ≤ n} size
    | none => size = stop

/-- What the size leaves free behind the contents is one padding. -/
def fill (stop size : Nat) : List Element := if stop < size then [.padding "padding" stop (size - stop)] else []

structure Exact (s : Scope) (d : TypedefDecl) (t : Typedef) : Prop where
  chained : Chained 0 t.size t.elements
  declared : List.Forall₂ (Declares s) d.members (declaredIn t.elements)
  aligned : ∀ a, s.align = some a → ∀ e ∈ declaredIn t.elements, a ∣ e.offset
  nonempty : ∀ e ∈ paddingsIn t.elements, 0 < e.size
  names : (t.elements.map (·.name)).Nodup
  filled : ∃ contents stop, Contents s 0 0 d.members stop contents ∧ Sizes s d.head.totalSize stop t.size ∧
    t.elements = contents ++ fill stop t.size

structure Sizable (s : Scope) (d : TypedefDecl) : Prop where
  members : ∀ m ∈ d.members, ∃ kind size count, s.Types (m.type.getD s.fallback.name) kind size ∧
    Counts s.env m.arraySize count ∧ size * count.getD 1 < sizeLimit
  total : ∀ v, d.head.totalSize = some v → ∃ n, Measures s.env v n

/-- The two ways in which known contents are no layout. -/
inductive Misfit (s : Scope) (owner : String) (d : TypedefDecl) (contents : List Element) (stop : Nat) :
    Error → Prop
  | exceeds {v : Value} {total : Nat} (hv : d.head.totalSize = some v) (ht : Measures s.env v total)
      (h : total < stop) : Misfit s owner d contents stop
        (.invalidDefinition .typedef owner (.exceedsTotal total stop))
  | repeated {size : Nat} {name : String} (hsize : Sizes s d.head.totalSize stop size)
      (h : ((contents ++ fill stop size).map (·.name)).Duplicate name) :
      Misfit s owner d contents stop (.duplicate name owner)

theorem evaluateSize_eq_ok {env : Env} (owner key : String) {v : Value} {n : Nat} :
    evaluateSize env owner key v = .ok n ↔ Measures env v n := by
  unfold evaluateSize Measures
  cases evaluateValue v env with
  | error e => simp
  | ok x =>
    cases x with
    | int i =>
      simp only [guard_eq_ok (e := invalid owner _) (by simp [invalid]), Except.ok.injEq, Scalar.int.injEq,
        Bool.or_eq_true, decide_eq_true_eq, not_or]
      simp only [sizeLimit]
      omega
    | _ => simp [invalid]

theorem itemCount_eq_ok {s : Scope} {owner : String} {d : ElementDecl} {count : Option Nat} :
    itemCount s owner d = .ok count ↔ Counts s.env d.arraySize count := by
  unfold itemCount Counts
  cases d.arraySize with
  | none => simp [eq_comm]
  | some v =>
    dsimp only
    rw [map_eq_ok]
    exact exists_congr fun n => and_congr (evaluateSize_eq_ok _ _) eq_comm

theorem types_iff {s : Scope} {type : String} {kind : ElementKind} {size : Nat} :
    s.Types type kind size ↔ ∃ item, s.itemType? type = some item ∧ item.kind = kind ∧ item.size = size := by
  unfold Scope.itemType?
  constructor
  · intro h
    cases h with
    | primitive h => simp [h]
    | bitfield fresh h => simp [fresh, h]
    | enumeration fresh h => simp [fresh, h]
    | typedef fresh h => simp [fresh, h]
  · rintro ⟨item, h, rfl, rfl⟩
    split at h
    · rename_i p hp
      cases h
      exact .primitive hp
    rename_i hp
    split at h
    · rename_i b hb
      cases h
      exact .bitfield hp hb
    rename_i hb
    split at h
    · rename_i e he
      cases h
      exact .enumeration ⟨hp, hb⟩ he
    rename_i he
    split at h
    · rename_i t ht
      cases h
      exact .typedef ⟨hp, hb, he⟩ ht
    · cases h

theorem element_declares {s : Scope} {owner : String} {offset : Nat} {d : ElementDecl} {e : Element}
    (h : element s owner offset d = .ok e) : Declares s d e ∧ e.offset = offset ∧ e.reserved = false := by
  obtain ⟨count, item, hcount, hitem, _, rfl⟩ := element_eq_ok.mp h
  exact ⟨⟨rfl, rfl, types_iff.mpr ⟨item, hitem, rfl, rfl⟩, itemCount_eq_ok.mp hcount, rfl⟩, rfl, rfl⟩

theorem gap_lt {a : Nat} (ha : 0 < a) (n : Nat) : gap (some a) n < a := by
  have := Nat.mod_lt n ha
  simp only [gap]
  split <;> omega

theorem dvd_add_gap {a : Nat} (ha : 0 < a) (n : Nat) : a ∣ n + gap (some a) n := by
  have := Nat.mod_lt n ha
  simp only [gap]
  split
  · rename_i h
    exact Nat.dvd_of_mod_eq_zero h
  · have split := Nat.div_add_mod n a
    have next : n + (a - n % a) = a * (n / a + 1) := by
      rw [Nat.mul_add_one]
      omega
    exact ⟨_, next⟩

theorem add_gap_least {a : Nat} (ha : 0 < a) (n : Nat) :
    IsLeast {m | a ∣ m ∧ n ≤ m} (n + gap (some a) n) := by
  refine ⟨⟨dvd_add_gap ha n, Nat.le_add_right _ _⟩, ?_⟩
  rintro m ⟨hm, hn⟩
  by_contra hlt
  have short := gap_lt ha n
  have far := Nat.le_of_dvd (by omega) (Nat.dvd_sub (dvd_add_gap ha n) hm)
  omega

theorem finalSize_eq_ok {s : Scope} (ha : s.Aligns) (owner : String) {total : Option Value} {stop size : Nat} :
    finalSize s owner total stop = .ok size ↔ Sizes s total stop size := by
  unfold finalSize Sizes
  cases total with
  | none =>
    dsimp only
    rw [Except.ok.injEq]
    cases h : s.structAlign with
    | none => simp [gap, eq_comm]
    | some a =>
      have least := add_gap_least (ha.structures a h) stop
      exact ⟨fun heq => heq ▸ least, fun hsize => least.unique hsize⟩
  | some v =>
    dsimp only
    rw [← evaluateSize_eq_ok owner "total_size"]
    cases evaluateSize s.env owner "total_size" v with
    | error e => simp
    | ok total =>
      simp only [guard_eq_ok (e := invalid owner _) (by simp [invalid]), Except.ok.injEq]
      omega

namespace Contents

variable {s : Scope} {start pads stop : Nat} {ds : List ElementDecl} {es : List Element}

theorem nil (h : ∀ a, s.align = some a → a ∣ start) : Contents s start pads [] start [] :=
  ⟨rfl, .nil, fun a ha => ⟨h a ha, by simp [declaredIn]⟩, by simp [paddingsIn], rfl⟩

theorem cons {d : ElementDecl} {e : Element} (hd : Declares s d e) (hr : e.reserved = false)
    (hstart : e.offset = start) (ha : ∀ a, s.align = some a → a ∣ start)
    (h : Contents s e.stop pads ds stop es) : Contents s start pads (d :: ds) stop (e :: es) := by
  have declared : declaredIn (e :: es) = e :: declaredIn es := by simp [declaredIn, hr]
  have paddings : paddingsIn (e :: es) = paddingsIn es := by simp [paddingsIn, hr]
  refine ⟨⟨hstart, h.chained⟩, ?_, fun a hs => ⟨(h.aligned a hs).1, ?_⟩, ?_, ?_⟩
  · rw [declared]
    exact .cons hd h.declared
  · rw [declared]
    exact List.forall_mem_cons.mpr ⟨hstart ▸ ha a hs, (h.aligned a hs).2⟩
  · rw [paddings]
    exact h.padding
  · rw [paddings]
    exact h.numbered

theorem pad {a bytes : Nat} (hs : s.align = some a) (hpos : 0 < bytes) (hlt : bytes < a)
    (h : Contents s (start + bytes) (pads + 1) ds stop es) :
    Contents s start pads ds stop (.padding (paddingName pads) start bytes :: es) := by
  have size : (Element.padding (paddingName pads) start bytes).size = bytes := Nat.one_mul bytes
  have declared : declaredIn (.padding (paddingName pads) start bytes :: es) = declaredIn es := rfl
  have paddings : paddingsIn (.padding (paddingName pads) start bytes :: es) =
      .padding (paddingName pads) start bytes :: paddingsIn es := rfl
  refine ⟨chained_append (chained_padding _ _ _) h.chained, declared ▸ h.declared, declared ▸ h.aligned, ?_, ?_⟩
  · rw [paddings, List.forall_mem_cons, size]
    exact ⟨⟨hpos, a, hs, hlt⟩, h.padding⟩
  · rw [paddings, List.map_cons, h.numbered, List.length_cons, List.range'_succ]
    rfl

end Contents

theorem elementsFrom_contents {s : Scope} (ha : s.Aligns) {owner : String} {start pads : Nat}
    {ds : List ElementDecl} {es : List Element} (hstart : ∀ a, s.align = some a → a ∣ start)
    (h : elementsFrom s owner start pads ds = .ok es) : ∃ stop, Contents s start pads ds stop es := by
  induction ds generalizing start pads es with
  | nil =>
    cases h
    exact ⟨start, .nil hstart⟩
  | cons d rest ih =>
    simp only [elementsFrom] at h
    split at h
    · cases h
    rename_i e he
    obtain ⟨declares, offset, unreserved⟩ := element_declares he
    split at h
    · rename_i hgap
      obtain ⟨fs, hf, rfl⟩ := map_eq_ok.mp h
      have next : ∀ a, s.align = some a → a ∣ e.stop := by
        intro a hs
        have multiple := dvd_add_gap (ha.elements a hs) e.stop
        rwa [← hs, hgap] at multiple
      obtain ⟨stop, tail⟩ := ih next hf
      exact ⟨stop, .cons declares unreserved offset hstart tail⟩
    · rename_i hgap
      obtain ⟨fs, hf, rfl⟩ := map_eq_ok.mp h
      cases hs : s.align with
      | none => exact absurd rfl (hs ▸ hgap)
      | some a =>
        rw [hs] at hgap hf
        have next : ∀ b, s.align = some b → b ∣ e.stop + gap (some a) e.stop := by
          intro b hb
          obtain rfl := Option.some.inj (hs.symm.trans hb)
          exact dvd_add_gap (ha.elements _ hs) e.stop
        obtain ⟨stop, tail⟩ := ih next hf
        have padded := tail.pad hs (Nat.pos_of_ne_zero hgap) (gap_lt (ha.elements a hs) _)
        exact ⟨stop, .cons declares unreserved offset hstart padded⟩

theorem elementsFrom_of_sizable {s : Scope} (owner : String) {ds : List ElementDecl}
    (h : ∀ m ∈ ds, ∃ kind size count, s.Types (m.type.getD s.fallback.name) kind size ∧
      Counts s.env m.arraySize count ∧ size * count.getD 1 < sizeLimit) (start pads : Nat) :
    ∃ es, elementsFrom s owner start pads ds = .ok es := by
  induction ds generalizing start pads with
  | nil => exact ⟨[], rfl⟩
  | cons d rest ih =>
    obtain ⟨⟨kind, size, count, htype, hcount, hlimit⟩, hrest⟩ := List.forall_mem_cons.mp h
    obtain ⟨item, hitem, rfl, rfl⟩ := types_iff.mp htype
    obtain ⟨e, first⟩ : ∃ e, element s owner start d = .ok e :=
      ⟨_, element_eq_ok.mpr ⟨count, item, itemCount_eq_ok.mpr hcount, hitem, hlimit, rfl⟩⟩
    rw [elementsFrom, first]
    dsimp only
    split
    · obtain ⟨fs, hf⟩ := ih hrest _ _
      exact ⟨_, map_eq_ok.mpr ⟨fs, hf, rfl⟩⟩
    · obtain ⟨fs, hf⟩ := ih hrest _ _
      exact ⟨_, map_eq_ok.mpr ⟨fs, hf, rfl⟩⟩

theorem declaredIn_fill (stop size : Nat) (es : List Element) : declaredIn (es ++ fill stop size) = declaredIn es := by
  unfold declaredIn fill
  split <;> simp [Element.padding]

theorem padTo_contents {s : Scope} {ds : List ElementDecl} {stop : Nat} {es : List Element}
    (h : Contents s 0 0 ds stop es) (size : Nat) : padTo es size = es ++ fill stop size := by
  unfold padTo fill
  dsimp only
  rw [stopOf_chained h.chained]
  split
  · rfl
  · exact (List.append_nil es).symm

theorem layout_exact {s : Scope} (ha : s.Aligns) {name : String} {d : TypedefDecl} {t : Typedef}
    (h : layout s name d = .ok t) : Exact s d t := by
  obtain ⟨contents, size, hcontents, hsize, hunique, rfl⟩ := layout_eq_ok.mp h
  obtain ⟨stop, inside⟩ := elementsFrom_contents ha (fun a _ => Nat.dvd_zero a) hcontents
  have elements := padTo_contents inside size
  have declared : declaredIn (padTo contents size) = declaredIn contents := by rw [elements, declaredIn_fill]
  refine ⟨(layout_chained h).1, ?_, ?_, ?_, checkUnique_eq_ok.mp hunique, contents, stop, inside, ?_, elements⟩
  · exact declared ▸ inside.declared
  · intro a hs
    exact declared ▸ (inside.aligned a hs).2
  · intro e he
    rw [elements] at he
    obtain ⟨hmem, reserved⟩ := List.mem_filter.mp he
    rcases List.mem_append.mp hmem with hmem | hmem
    · exact (inside.padding e (List.mem_filter.mpr ⟨hmem, reserved⟩)).1
    · unfold fill at hmem
      split at hmem
      · rw [List.mem_singleton.mp hmem]
        simp only [Element.padding, Element.size, Option.getD_some]
        omega
      · cases hmem
  · rw [← finalSize_eq_ok ha name, ← stopOf_chained inside.chained]
    exact hsize

theorem finalSize_eq_error {s : Scope} {owner : String} {total : Option Value} {stop : Nat} {e : Error}
    (ht : ∀ v, total = some v → ∃ n, Measures s.env v n) (h : finalSize s owner total stop = .error e) :
    ∃ v n, total = some v ∧ Measures s.env v n ∧ n < stop ∧
      e = .invalidDefinition .typedef owner (.exceedsTotal n stop) := by
  unfold finalSize at h
  cases total with
  | none => cases h
  | some v =>
    obtain ⟨n, hn⟩ := ht v rfl
    dsimp only at h
    rw [(evaluateSize_eq_ok owner _).mpr hn] at h
    dsimp only at h
    split at h
    · rename_i hlt
      cases h
      exact ⟨v, n, rfl, hn, hlt, rfl⟩
    · cases h

/-- Known contents fail to be a layout only for their size or their names. -/
theorem layout_misfit {s : Scope} (ha : s.Aligns) {name : String} {d : TypedefDecl} (hd : Sizable s d) :
    ∃ contents stop, elementsFrom s name 0 0 d.members = .ok contents ∧ Contents s 0 0 d.members stop contents ∧
      ∀ e, layout s name d = .error e → Misfit s name d contents stop e := by
  obtain ⟨contents, hcontents⟩ := elementsFrom_of_sizable name hd.members 0 0
  obtain ⟨stop, inside⟩ := elementsFrom_contents ha (fun a _ => Nat.dvd_zero a) hcontents
  refine ⟨contents, stop, hcontents, inside, fun e h => ?_⟩
  have hstop := stopOf_chained inside.chained
  rcases bind_eq_error.mp h with h | ⟨_, heq, h⟩
  · rw [hcontents] at h
    cases h
  obtain rfl := Except.ok.inj (hcontents.symm.trans heq)
  rw [hstop] at h
  rcases bind_eq_error.mp h with h | ⟨size, hsize, h⟩
  · obtain ⟨v, n, hv, hn, hlt, rfl⟩ := finalSize_eq_error hd.total h
    exact .exceeds hv hn hlt
  rcases bind_eq_error.mp h with h | ⟨_, _, h⟩
  · obtain ⟨repeated, rfl, hdup⟩ := duplicate_of_checkUnique h
    rw [padTo_contents inside] at hdup
    exact .repeated ((finalSize_eq_ok ha name).mp hsize) hdup
  · cases h

end Typedef

end AddressMap
