import AddressMap.Proofs.Entries
import AddressMap.Proofs.Outcome
import AddressMap.Typedef.Layout

set_option autoImplicit false

namespace AddressMap

/-- The elements follow each other without gaps from `start` to `stop`. -/
def Element.Chained (start stop : Nat) : List Element → Prop
  | [] => start = stop
  | e :: rest => e.offset = start ∧ Chained e.stop stop rest

def Element.Sized (bitfields : Entries Bitfield) (typedefs : Entries Typedef) (e : Element) : Prop :=
  match e.kind with
  | .primitive _ | .enumeration _ => 0 < e.itemSize
  | .bitfield name => ∃ b, bitfields.get? name = some b ∧ b.base.size = e.itemSize
  | .typedef name => ∃ t, typedefs.get? name = some t ∧ t.size = e.itemSize

namespace Typedef

open Element

theorem chained_append {start middle stop : Nat} {es fs : List Element}
    (he : Chained start middle es) (hf : Chained middle stop fs) : Chained start stop (es ++ fs) := by
  induction es generalizing start with
  | nil =>
    have h : start = middle := he
    simpa only [h, List.nil_append] using hf
  | cons e rest ih => exact ⟨he.1, ih he.2⟩

theorem chained_padding (name : String) (start size : Nat) :
    Chained start (start + size) [.padding name start size] := by
  refine ⟨rfl, ?_⟩
  simp [Chained, padding, Element.stop, Element.size]

theorem padding_sized (bitfields : Entries Bitfield) (typedefs : Entries Typedef) (name : String)
    (start size : Nat) : (Element.padding name start size).Sized bitfields typedefs :=
  Nat.one_pos

theorem stopOf_chained {stop : Nat} {es : List Element} (h : Chained 0 stop es) : stopOf es = stop := by
  have last : ∀ (fs : List Element) (start : Nat) (e : Element), Chained start stop (e :: fs) →
      ((e :: fs).getLast?.map Element.stop).getD 0 = stop := by
    intro fs
    induction fs with
    | nil => exact fun _ _ h => h.2
    | cons f fs ih =>
      intro _ e h
      rw [List.getLast?_cons_cons]
      exact ih e.stop f h.2
  cases es with
  | nil => exact h
  | cons e fs => exact last fs 0 e h

theorem itemType?_sized {s : Scope} {type : String} {item : Scope.ItemType}
    (h : s.itemType? type = some item) {e : Element} (hk : e.kind = item.kind)
    (hs : e.itemSize = item.size) : e.Sized s.bitfields s.typedefs := by
  unfold Element.Sized
  rw [hk, hs]
  unfold Scope.itemType? at h
  split at h
  · cases h
    exact Primitive.size_pos _
  · split at h
    · rename_i b hb
      cases h
      exact ⟨b, hb, rfl⟩
    · split at h
      · cases h
        exact Primitive.size_pos _
      · split at h
        · rename_i t ht
          cases h
          exact ⟨t, ht, rfl⟩
        · cases h

theorem element_eq_ok {s : Scope} {owner : String} {offset : Nat} {d : ElementDecl} {e : Element} :
    element s owner offset d = .ok e ↔ ∃ count item, itemCount s owner d = .ok count ∧
      s.itemType? (d.type.getD s.fallback.name) = some item ∧ item.size * count.getD 1 < sizeLimit ∧
      ⟨d.name, d.type, d.arraySize, d.description.or item.description, false, item.name, item.size,
        offset, count, item.props.merge d.props, item.kind⟩ = e := by
  unfold element
  rw [bind_eq_ok]
  refine exists_congr fun count => ?_
  dsimp only
  cases hi : s.itemType? (d.type.getD s.fallback.name) with
  | none => simp
  | some item =>
    simp only [guard_eq_ok (e := invalid owner _) (by simp [invalid]), Except.ok.injEq, Nat.not_le,
      Option.some.injEq, exists_and_left, exists_eq_left']

theorem element_sized {s : Scope} {owner : String} {offset : Nat} {d : ElementDecl} {e : Element}
    (h : element s owner offset d = .ok e) :
    e.offset = offset ∧ e.Sized s.bitfields s.typedefs := by
  obtain ⟨count, item, _, hi, _, rfl⟩ := element_eq_ok.mp h
  exact ⟨rfl, itemType?_sized hi rfl rfl⟩

theorem elementsFrom_chained {s : Scope} {owner : String} {offset pads : Nat} {ds : List ElementDecl}
    {es : List Element} (h : elementsFrom s owner offset pads ds = .ok es) :
    ∃ stop, Chained offset stop es := by
  induction ds generalizing offset pads es with
  | nil =>
    cases h
    exact ⟨offset, rfl⟩
  | cons d rest ih =>
    simp only [elementsFrom] at h
    split at h
    · cases h
    rename_i e he
    obtain ⟨start, _⟩ := element_sized he
    split at h
    · obtain ⟨fs, hf, rfl⟩ := map_eq_ok.mp h
      obtain ⟨stop, tail⟩ := ih hf
      exact ⟨stop, start, tail⟩
    · obtain ⟨fs, hf, rfl⟩ := map_eq_ok.mp h
      obtain ⟨stop, tail⟩ := ih hf
      exact ⟨stop, start, chained_append (chained_padding _ _ _) tail⟩

theorem mem_elementsFrom {s : Scope} {owner : String} {offset pads : Nat} {ds : List ElementDecl}
    {es : List Element} (h : elementsFrom s owner offset pads ds = .ok es) {e : Element} (he : e ∈ es) :
    (∃ start d, d ∈ ds ∧ element s owner start d = .ok e) ∨
      ∃ name start bytes, e = .padding name start bytes := by
  induction ds generalizing offset pads es with
  | nil =>
    cases h
    cases he
  | cons d rest ih =>
    -- What the rest has, the whole has.
    have tail : ∀ {offset pads fs}, elementsFrom s owner offset pads rest = .ok fs → e ∈ fs →
        (∃ start d', d' ∈ d :: rest ∧ element s owner start d' = .ok e) ∨
          ∃ name start bytes, e = .padding name start bytes := by
      intro _ _ _ hf hin
      rcases ih hf hin with ⟨start, d', hd', heq⟩ | hpad
      · exact .inl ⟨start, d', List.mem_cons_of_mem _ hd', heq⟩
      · exact .inr hpad
    simp only [elementsFrom] at h
    split at h
    · cases h
    rename_i first hfirst
    split at h
    · obtain ⟨fs, hf, rfl⟩ := map_eq_ok.mp h
      rcases List.mem_cons.mp he with rfl | he
      · exact .inl ⟨offset, d, List.mem_cons_self, hfirst⟩
      · exact tail hf he
    · obtain ⟨fs, hf, rfl⟩ := map_eq_ok.mp h
      rcases List.mem_cons.mp he with rfl | he
      · exact .inl ⟨offset, d, List.mem_cons_self, hfirst⟩
      · rcases List.mem_cons.mp he with rfl | he
        · exact .inr ⟨_, _, _, rfl⟩
        · exact tail hf he

theorem finalSize_ge {s : Scope} {owner : String} {total : Option Value} {contents size : Nat}
    (h : finalSize s owner total contents = .ok size) : contents ≤ size := by
  unfold finalSize at h
  split at h
  · cases h
    omega
  · split at h
    · cases h
    · rw [guard_eq_ok (by simp [invalid])] at h
      obtain ⟨hge, heq⟩ := h
      cases heq
      omega

theorem layout_eq_ok {s : Scope} {name : String} {d : TypedefDecl} {t : Typedef} :
    layout s name d = .ok t ↔ ∃ contents size, elementsFrom s name 0 0 d.members = .ok contents ∧
      finalSize s name d.head.totalSize (stopOf contents) = .ok size ∧
      checkUnique name ((padTo contents size).map (·.name)) = .ok () ∧
      ⟨padTo contents size, d.head.totalSize, size, d.head.description, d.head.props⟩ = t := by
  unfold layout
  rw [bind_eq_ok]
  refine exists_congr fun contents => ?_
  rw [bind_eq_ok, ← exists_and_left]
  refine exists_congr fun size => ?_
  dsimp only
  rw [check_bind_eq_ok]
  simp only [pure, Except.pure, Except.ok.injEq]

theorem padTo_chained {size : Nat} {es : List Element} (h : Chained 0 (stopOf es) es)
    (hsize : stopOf es ≤ size) : Chained 0 size (padTo es size) := by
  unfold padTo
  dsimp only
  split
  · have pad := chained_padding "padding" (stopOf es) (size - stopOf es)
    rw [Nat.add_sub_cancel' hsize] at pad
    exact chained_append h pad
  · have heq : stopOf es = size := by omega
    rwa [heq] at h

theorem mem_padTo {size : Nat} {es : List Element} {e : Element} (h : e ∈ padTo es size) :
    e ∈ es ∨ ∃ start bytes, e = .padding "padding" start bytes := by
  unfold padTo at h
  dsimp only at h
  split at h
  · rcases List.mem_append.mp h with h | h
    · exact .inl h
    · exact .inr ⟨_, _, List.mem_singleton.mp h⟩
  · exact .inl h

theorem mem_layout {s : Scope} {name : String} {d : TypedefDecl} {t : Typedef}
    (h : layout s name d = .ok t) {e : Element} (he : e ∈ t.elements) :
    (∃ start m, m ∈ d.members ∧ element s name start m = .ok e) ∨
      ∃ pad start bytes, e = .padding pad start bytes := by
  obtain ⟨contents, size, hc, _, _, rfl⟩ := layout_eq_ok.mp h
  rcases mem_padTo he with he | ⟨start, bytes, rfl⟩
  · exact mem_elementsFrom hc he
  · exact .inr ⟨_, _, _, rfl⟩

theorem layout_chained {s : Scope} {name : String} {d : TypedefDecl} {t : Typedef}
    (h : layout s name d = .ok t) :
    Chained 0 t.size t.elements ∧ ∀ e ∈ t.elements, e.Sized s.bitfields s.typedefs := by
  constructor
  · obtain ⟨contents, size, hc, hs, _, rfl⟩ := layout_eq_ok.mp h
    obtain ⟨stop, chained⟩ := elementsFrom_chained hc
    have hstop := stopOf_chained chained
    subst hstop
    exact padTo_chained chained (finalSize_ge hs)
  · intro e he
    rcases mem_layout h he with ⟨_, _, _, hm⟩ | ⟨_, _, _, rfl⟩
    · exact (element_sized hm).2
    · exact padding_sized _ _ _ _ _

theorem itemType?_enumeration {s : Scope} {type name : String} {item : Scope.ItemType}
    (h : s.itemType? type = some item) (hk : item.kind = .enumeration name) : (s.enums.get? name).isSome := by
  unfold Scope.itemType? at h
  split at h
  · cases h
    cases hk
  · split at h
    · cases h
      cases hk
    · split at h
      · rename_i e he
        cases h
        cases hk
        rw [he]
        rfl
      · split at h
        · cases h
          cases hk
        · cases h

theorem layout_enumeration {s : Scope} {owner : String} {d : TypedefDecl} {t : Typedef}
    (h : layout s owner d = .ok t) {e : Element} (he : e ∈ t.elements) {name : String}
    (hk : e.kind = .enumeration name) : (s.enums.get? name).isSome := by
  rcases mem_layout h he with ⟨start, m, _, hm⟩ | ⟨_, _, _, rfl⟩
  · obtain ⟨_, item, _, hitem, _, rfl⟩ := element_eq_ok.mp hm
    exact itemType?_enumeration hitem hk
  · cases hk

section Extension

variable {s : Scope} {ts : Entries Typedef}

theorem itemType?_extend (hs : s.typedefs.Extends ts) {type : String} {item : Scope.ItemType}
    (h : s.itemType? type = some item) : ({ s with typedefs := ts }).itemType? type = some item := by
  unfold Scope.itemType? at h ⊢
  dsimp only at h ⊢
  split at h
  · exact h
  · split at h
    · exact h
    · split at h
      · exact h
      · split at h
        · rename_i t ht
          rw [hs type t ht]
          exact h
        · cases h

theorem element_extend (hs : s.typedefs.Extends ts) {owner : String} {offset : Nat} {d : ElementDecl}
    {e : Element} (h : element s owner offset d = .ok e) :
    element { s with typedefs := ts } owner offset d = .ok e := by
  obtain ⟨count, item, hc, hi, hsize, heq⟩ := element_eq_ok.mp h
  exact element_eq_ok.mpr ⟨count, item, hc, itemType?_extend hs hi, hsize, heq⟩

theorem elementsFrom_extend (hs : s.typedefs.Extends ts) {owner : String} {offset pads : Nat}
    {ds : List ElementDecl} {es : List Element} (h : elementsFrom s owner offset pads ds = .ok es) :
    elementsFrom { s with typedefs := ts } owner offset pads ds = .ok es := by
  induction ds generalizing offset pads es with
  | nil => exact h
  | cons d rest ih =>
    simp only [elementsFrom] at h ⊢
    split at h
    · cases h
    rename_i e he
    rw [element_extend hs he]
    dsimp only
    split at h
    · rename_i hpad
      obtain ⟨fs, hf, rfl⟩ := map_eq_ok.mp h
      simp only [hpad, if_true, ih hf, Except.map]
    · rename_i hpad
      obtain ⟨fs, hf, rfl⟩ := map_eq_ok.mp h
      simp only [hpad, if_false, ih hf, Except.map]

theorem layout_extend (hs : s.typedefs.Extends ts) {name : String} {d : TypedefDecl} {t : Typedef}
    (h : layout s name d = .ok t) : layout { s with typedefs := ts } name d = .ok t := by
  obtain ⟨contents, size, hc, hsize, hu, heq⟩ := layout_eq_ok.mp h
  exact layout_eq_ok.mpr ⟨contents, size, elementsFrom_extend hs hc, hsize, hu, heq⟩

end Extension

/-- Every typedef in scope is the layout of its declaration in this very scope. -/
def Laid (s : Scope) (table : Entries TypedefDecl) : Prop :=
  ∀ name t, s.typedefs.get? name = some t →
    ∃ d, table.get? name = some d ∧ layout s name d = .ok t

theorem laid_insert {s : Scope} {table : Entries TypedefDecl} (hl : Laid s table) {name : String}
    {d : TypedefDecl} {t : Typedef} (hd : table.get? name = some d) (ht : layout s name d = .ok t) :
    s.typedefs.Extends (s.typedefs.insert name t) ∧
      Laid { s with typedefs := s.typedefs.insert name t } table := by
  have ext : s.typedefs.Extends (s.typedefs.insert name t) := by
    apply Entries.extends_insert
    intro old hold
    obtain ⟨d', hd', hlay⟩ := hl name old hold
    rw [hd] at hd'
    cases hd'
    rw [ht] at hlay
    cases hlay
    rfl
  refine ⟨ext, ?_⟩
  intro other u hu
  rw [Entries.get?_insert] at hu
  by_cases ho : other = name
  · simp only [ho, if_true, Option.some.injEq] at hu
    subst ho hu
    exact ⟨d, hd, layout_extend ext ht⟩
  · simp only [ho, if_false] at hu
    obtain ⟨d', hd', hlay⟩ := hl other u hu
    exact ⟨d', hd', layout_extend ext hlay⟩

theorem layoutAll_laid {s : Scope} {table : Entries TypedefDecl} {order : List String}
    {ts : Entries Typedef} (hl : Laid s table) (h : layoutAll s table order = .done ts) :
    Laid { s with typedefs := ts } table := by
  induction order generalizing s with
  | nil =>
    cases h
    exact hl
  | cons name rest ih =>
    simp only [layoutAll] at h
    split at h
    · exact ih hl h
    · rename_i d hd
      split at h
      · cases h
      · rename_i t ht
        exact ih (s := { s with typedefs := s.typedefs.insert name t }) (laid_insert hl hd ht).2 h

end Typedef

end AddressMap
