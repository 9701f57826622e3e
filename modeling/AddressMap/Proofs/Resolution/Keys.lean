import AddressMap.Proofs.Entries.Layer
import AddressMap.Proofs.Resolution.Tables
import AddressMap.Proofs.Value.Distinct

set_option autoImplicit false

namespace AddressMap

def Description.declared {μ η : Type} (d : Description) (s : Section) (read : Value → Option (Declared μ η)) :
    Except Error (Entries (Declared μ η)) :=
  (Resolution.readEntries s read (d.entries s)).bind fun entries => Reference.expand s entries.sortByKey

/-- The free keys of an entry are distinct, and those of its members are, each on its own. -/
structure Declared.Keyed {μ η : Type} (keys : μ → Props) (head : η → Props) (d : Declared μ η) : Prop where
  head : (head d.head).keys.Nodup
  members : ∀ m ∈ d.members, (keys m).keys.Nodup

theorem mem_of_mapM_eq_some {α β : Type} {f : α → Option β} {xs : List α} {ys : List β}
    (h : xs.mapM f = some ys) {y : β} (hy : y ∈ ys) : ∃ x ∈ xs, f x = some y := by
  induction xs generalizing ys with
  | nil =>
    cases h
    cases hy
  | cons x rest ih =>
    simp only [List.mapM_cons, Option.bind_eq_bind, Option.bind_eq_some_iff] at h
    obtain ⟨first, hfirst, others, hothers, heq⟩ := h
    cases heq
    rcases List.mem_cons.mp hy with rfl | hy
    · exact ⟨x, List.mem_cons_self, hfirst⟩
    · obtain ⟨x', hx', hread⟩ := ih hothers hy
      exact ⟨x', List.mem_cons_of_mem _ hx', hread⟩

namespace Declaration

theorem nodup_others {es : Props} (h : es.keys.Nodup) (known : List String) : (others es known).keys.Nodup :=
  h.sublist (List.filter_sublist.map _)

theorem members?_keyed {μ : Type} {ofName : String → μ} {ofEntries? : Props → Option μ} {keys : μ → Props}
    (hname : ∀ name, keys (ofName name) = [])
    (hentries : ∀ es m, es.keys.Nodup → ofEntries? es = some m → (keys m).keys.Nodup) {es : Props} {ms : List μ}
    (hd : (Value.object es).distinct) (h : members? ofName ofEntries? es = some ms) :
    ∀ m ∈ ms, (keys m).keys.Nodup := by
  unfold members? at h
  split at h
  · cases h
    simp
  · rename_i xs hxs
    have inside : (Value.array xs).distinct :=
      Value.distinct_of_mem (Value.distinct_object.mp hd).2 (Entries.mem_of_get? hxs)
    intro m hm
    obtain ⟨x, hx, hread⟩ := mem_of_mapM_eq_some h hm
    split at hread
    · cases hread
      rw [hname]
      exact List.nodup_nil
    · have distinct := Value.distinctItems_iff.mp (by simpa only [Value.distinct] using inside) _ hx
      exact hentries _ m (Value.distinct_object.mp distinct).1 hread
    · cases hread
  · cases h

theorem typedef?_keyed {v : Value} {d : TypedefDecl} (hv : v.distinct) (h : typedef? v = some d) :
    d.Keyed ElementDecl.props TypedefHead.props := by
  cases v with
  | object es =>
    simp only [typedef?, entries?, Option.bind_eq_bind, Option.bind_some, Option.bind_eq_some_iff] at h
    obtain ⟨ms, hms, _, _, _, _, h⟩ := h
    cases h
    refine ⟨nodup_others (Value.distinct_object.mp hv).1 _, members?_keyed (fun _ => rfl) ?_ hv hms⟩
    intro fs m hfs hm
    simp only [element?, Option.bind_eq_bind, Option.bind_eq_some_iff] at hm
    obtain ⟨_, _, _, _, _, _, hm⟩ := hm
    cases hm
    exact nodup_others hfs _
  | _ => cases h

theorem bitfield?_keyed {v : Value} {d : BitfieldDecl} (hv : v.distinct) (h : bitfield? v = some d) :
    d.Keyed BitDecl.props BitfieldHead.props := by
  cases v with
  | object es =>
    simp only [bitfield?, entries?, Option.bind_eq_bind, Option.bind_some, Option.bind_eq_some_iff] at h
    obtain ⟨ms, hms, _, _, _, _, _, _, h⟩ := h
    cases h
    refine ⟨nodup_others (Value.distinct_object.mp hv).1 _, members?_keyed (fun _ => rfl) ?_ hv hms⟩
    intro fs m hfs hm
    simp only [bit?, Option.bind_eq_bind, Option.bind_eq_some_iff] at hm
    obtain ⟨_, _, _, _, hm⟩ := hm
    cases hm
    exact nodup_others hfs _
  | _ => cases h

theorem enum?_keyed {v : Value} {d : EnumDecl} (hv : v.distinct) (h : enum? v = some d) :
    d.Keyed OptionDecl.props EnumHead.props := by
  cases v with
  | object es =>
    simp only [enum?, entries?, Option.bind_eq_bind, Option.bind_some, Option.bind_eq_some_iff] at h
    obtain ⟨ms, hms, _, _, _, _, _, _, _, _, h⟩ := h
    cases h
    refine ⟨nodup_others (Value.distinct_object.mp hv).1 _, members?_keyed (fun _ => rfl) ?_ hv hms⟩
    intro fs m hfs hm
    simp only [option?, Option.bind_eq_bind, Option.bind_eq_some_iff] at hm
    obtain ⟨_, _, _, _, hm⟩ := hm
    cases hm
    exact nodup_others hfs _
  | _ => cases h

end Declaration

namespace Reference

variable {μ η : Type} {table : Entries (Declared μ η)}

theorem Expanded.backed {d d' : Declared μ η} (h : Expanded table d d') :
    d'.head = d.head ∧ ∀ m ∈ d'.members, m ∈ d.members ∨ ∃ e ∈ table, m ∈ e.2.members := by
  obtain ⟨ds, hds, rfl⟩ := h
  refine ⟨rfl, fun m hm => ?_⟩
  obtain ⟨other, hother, hin⟩ := List.mem_flatMap.mp hm
  rcases List.mem_cons.mp (List.mem_reverse.mp hother) with rfl | hother
  · exact .inl hin
  · obtain ⟨e, he, rfl⟩ := mem_of_chain hds hother
    exact .inr ⟨e, he, hin⟩

theorem expand_keyed {kind : Section} {keys : μ → Props} {head : η → Props}
    (ht : ∀ e ∈ table, e.2.Keyed keys head) {expanded : Entries (Declared μ η)}
    (h : expand kind table = .ok expanded) : ∀ e ∈ expanded, e.2.Keyed keys head := by
  intro e' he'
  obtain ⟨e, he, hexp⟩ := mem_expandFrom h he'
  obtain ⟨same, members⟩ := (expanded_of_expandEntry hexp).backed
  refine ⟨same ▸ (ht e he).head, fun m hm => ?_⟩
  rcases members m hm with hm | ⟨other, hother, hm⟩
  · exact (ht e he).members m hm
  · exact (ht other hother).members m hm

end Reference

theorem Resolution.mem_readEntries {α : Type} {kind : Section} {read : Value → Option α} {es : Props}
    {entries : Entries α} (h : readEntries kind read es = .ok entries) {x : String × α} (hx : x ∈ entries) :
    ∃ e ∈ es, read e.2 = some x.2 := by
  induction es generalizing entries with
  | nil =>
    cases h
    cases hx
  | cons e rest ih =>
    obtain ⟨name, v⟩ := e
    simp only [readEntries] at h
    split at h
    · cases h
    rename_i first hfirst
    obtain ⟨tail, htail, rfl⟩ := map_eq_ok.mp h
    rcases List.mem_cons.mp hx with rfl | hx
    · exact ⟨(name, v), List.mem_cons_self, hfirst⟩
    · obtain ⟨e, he, hread⟩ := ih htail hx
      exact ⟨e, List.mem_cons_of_mem _ he, hread⟩

theorem Description.declared_keyed {μ η : Type} {d : Description} (hd : d.WellFormed) {s : Section}
    {read : Value → Option (Declared μ η)} {keys : μ → Props} {head : η → Props}
    (hread : ∀ v x, v.distinct → read v = some x → x.Keyed keys head) {table : Entries (Declared μ η)}
    (h : d.declared s read = .ok table) : ∀ e ∈ table, e.2.Keyed keys head := by
  obtain ⟨entries, hentries, hexpand⟩ := bind_eq_ok.mp h
  refine Reference.expand_keyed (fun e he => ?_) hexpand
  obtain ⟨raw, hraw, hparse⟩ := Resolution.mem_readEntries hentries ((Entries.sortByKey_perm entries).mem_iff.mp he)
  exact hread _ _ (Value.distinct_of_mem (Value.distinct_object.mp (hd.entries s)).2 hraw) hparse

namespace Element

def enumProps (enums : Entries Enumeration) (e : Element) : Props :=
  ((e.enumName.bind enums.get?).map (·.props)).getD []

/-- The element is padding, or that of a member, with the member's keys over those of its enum. -/
def KeysOf (enums : Entries Enumeration) (members : List ElementDecl) (e : Element) : Prop :=
  (e.reserved ∧ e.props = []) ∨
    ∃ m ∈ members, e.name = m.name ∧ e.props = (e.enumProps enums).merge m.props

end Element

theorem Typedef.layout_keys {s : Scope} {name : String} {d : TypedefDecl} {t : Typedef}
    (h : layout s name d = .ok t) : t.props = d.head.props ∧ ∀ e ∈ t.elements, e.KeysOf s.enums d.members := by
  constructor
  · obtain ⟨_, _, _, _, _, rfl⟩ := layout_eq_ok.mp h
    rfl
  · intro e he
    rcases mem_layout h he with ⟨start, m, hm, helement⟩ | ⟨pad, start, bytes, rfl⟩
    · obtain ⟨count, item, _, hitem, _, rfl⟩ := element_eq_ok.mp helement
      refine .inr ⟨m, hm, rfl, congrArg (Entries.merge · m.props) ?_⟩
      unfold Scope.itemType? at hitem
      split at hitem
      · cases hitem
        rfl
      split at hitem
      · cases hitem
        rfl
      split at hitem
      · rename_i enum henum
        cases hitem
        simp [Element.enumProps, Element.enumName, henum]
      split at hitem
      · cases hitem
        rfl
      · cases hitem
    · exact .inl ⟨rfl, rfl⟩

theorem Bitfield.resolve_keys {env : Env} {name : String} {d : BitfieldDecl} {b : Bitfield}
    (h : resolve env name d = .ok b) : b.props = d.head.props ∧
      ∀ m ∈ b.members, (m.reserved ∧ m.props = []) ∨ ∃ f ∈ d.members, m.name = f.name ∧ m.props = f.props := by
  obtain ⟨declared, base, hd, _, _, _, _, rfl⟩ := resolve_eq_ok.mp h
  have own : ∀ {offset ds ms}, membersFrom env name offset ds = .ok ms →
      ∀ m ∈ ms, ∃ f ∈ ds, m.name = f.name ∧ m.props = f.props := by
    intro offset ds
    induction ds generalizing offset with
    | nil =>
      intro ms hms
      cases hms
      simp
    | cons f rest ih =>
      intro ms hms
      simp only [membersFrom] at hms
      split at hms
      · cases hms
      obtain ⟨tail, htail, rfl⟩ := map_eq_ok.mp hms
      intro m hm
      rcases List.mem_cons.mp hm with rfl | hm
      · exact ⟨f, List.mem_cons_self, rfl, rfl⟩
      · obtain ⟨g, hg, same⟩ := ih htail m hm
        exact ⟨g, List.mem_cons_of_mem _ hg, same⟩
  refine ⟨rfl, fun m hm => ?_⟩
  dsimp only [filled] at hm
  split at hm
  · rcases List.mem_append.mp hm with hm | hm
    · exact .inr (own hd m hm)
    · cases List.mem_singleton.mp hm
      exact .inl ⟨rfl, rfl⟩
  · exact .inr (own hd m hm)

theorem Enumeration.resolve_props {env : Env} {fallback : Primitive} {name : String} {d : EnumDecl}
    {e : Enumeration} (h : resolve env fallback name d = .ok e) : e.props = d.head.props := by
  unfold resolve at h
  obtain ⟨base, _, h⟩ := bind_eq_ok.mp h
  split at h
  · obtain ⟨members, _, h⟩ := bind_eq_ok.mp h
    rw [check_bind_eq_ok] at h
    cases h.2
    rfl
  · cases h

namespace Resolution

/-- Enums, bitfields and typedefs have the free keys of their declarations, and so have their members. -/
structure TakesKeys (r : Resolution) (enums : Entries EnumDecl) (bitfields : Entries BitfieldDecl)
    (typedefs : Entries TypedefDecl) : Prop where
  enums : ∀ name e, r.enums.get? name = some e → ∃ d, (name, d) ∈ enums ∧ e.props = d.head.props
  bitfields : ∀ name b, r.bitfields.get? name = some b → ∃ d, (name, d) ∈ bitfields ∧
    b.props = d.head.props ∧ ∀ m ∈ b.members, (m.reserved ∧ m.props = []) ∨
      ∃ f ∈ d.members, m.name = f.name ∧ m.props = f.props
  typedefs : ∀ name t, r.typedefs.get? name = some t → ∃ d, (name, d) ∈ typedefs ∧
    t.props = d.head.props ∧ ∀ e ∈ t.elements, e.KeysOf r.enums d.members

variable {d : Description}

theorem addEnums_keys {r r' : Resolution} (h : r.addEnums (d.entries .enums) = .done r') (hr : r.enums = []) :
    ∃ table, d.declared .enums Declaration.enum? = .ok table ∧
      ∀ name e, r'.enums.get? name = some e → ∃ x, (name, x) ∈ table ∧ e.props = x.head.props := by
  obtain ⟨entries, expanded, enums, hread, hexp, hinto, rfl⟩ := addEnums_eq_done h
  refine ⟨expanded, bind_eq_ok.mpr ⟨entries, hread, hexp⟩, fun name e he => ?_⟩
  rw [hr] at hinto
  rcases resolveInto_get? hinto he with hnil | ⟨x, hx, hres⟩
  · cases hnil
  · exact ⟨x, hx, Enumeration.resolve_props hres⟩

theorem addBitfields_keys {r r' : Resolution} (h : r.addBitfields (d.entries .bitfields) = .done r')
    (hr : r.bitfields = []) : ∃ table, d.declared .bitfields Declaration.bitfield? = .ok table ∧
      ∀ name b, r'.bitfields.get? name = some b → ∃ x, (name, x) ∈ table ∧ b.props = x.head.props ∧
        ∀ m ∈ b.members, (m.reserved ∧ m.props = []) ∨ ∃ f ∈ x.members, m.name = f.name ∧ m.props = f.props := by
  obtain ⟨entries, expanded, bitfields, hread, hexp, hinto, rfl⟩ := addBitfields_eq_done h
  refine ⟨expanded, bind_eq_ok.mpr ⟨entries, hread, hexp⟩, fun name b hb => ?_⟩
  rw [hr] at hinto
  rcases resolveInto_get? hinto hb with hnil | ⟨x, hx, hres⟩
  · cases hnil
  · exact ⟨x, hx, Bitfield.resolve_keys hres⟩

theorem addTypedefs_keys {r r' : Resolution} (h : r.addTypedefs (d.entries .typedefs) = .done r')
    (hr : r.typedefs = []) : ∃ table, d.declared .typedefs Declaration.typedef? = .ok table ∧
      ∀ name t, r'.typedefs.get? name = some t → ∃ x, (name, x) ∈ table ∧ t.props = x.head.props ∧
        ∀ e ∈ t.elements, e.KeysOf r.enums x.members := by
  obtain ⟨entries, table, order, ts, hread, hexp, _, hlay, rfl, _⟩ := addTypedefs_eq_done h
  refine ⟨table, bind_eq_ok.mpr ⟨entries, hread, hexp⟩, fun name t ht => ?_⟩
  have empty : r.scope.typedefs = [] := hr
  have none : Typedef.Laid r.scope table := by
    intro name t hget
    rw [empty] at hget
    cases hget
  obtain ⟨x, hx, hlayout⟩ := Typedef.layoutAll_laid none hlay name t ht
  exact ⟨x, Entries.mem_of_get? hx, Typedef.layout_keys hlayout⟩

/-- Once the maps are flattened, every type has the free keys that the description declares for it. -/
theorem flattened_keys {r : Resolution} (h : flattened d = .done r) : ∃ enums bitfields typedefs,
    d.declared .enums Declaration.enum? = .ok enums ∧ d.declared .bitfields Declaration.bitfield? = .ok bitfields ∧
      d.declared .typedefs Declaration.typedef? = .ok typedefs ∧ r.TakesKeys enums bitfields typedefs := by
  obtain ⟨r₁, r₂, r₃, r₄, r₅, h₁, h₂, h₃, h₄, h₅, h₆⟩ := flattened_eq_done h
  have empty := empty_of_stages h₁ h₂
  have empty₃ : r₃.bitfields = [] ∧ r₃.typedefs = [] := by
    obtain ⟨_, _, _, _, _, _, rfl⟩ := addEnums_eq_done h₃
    exact ⟨empty.2.1, empty.2.2.1⟩
  have kept₄ : r₄.typedefs = [] ∧ r₄.enums = r₃.enums := by
    obtain ⟨_, _, _, _, _, _, rfl⟩ := addBitfields_eq_done h₄
    exact ⟨empty₃.2, rfl⟩
  obtain ⟨enums, henums, fromEnums⟩ := addEnums_keys h₃ empty.1
  obtain ⟨bitfields, hbitfields, fromBitfields⟩ := addBitfields_keys h₄ empty₃.1
  obtain ⟨typedefs, htypedefs, fromTypedefs⟩ := addTypedefs_keys h₅ kept₄.1
  rw [← kept₄.2] at fromEnums
  obtain ⟨_, _, _, _, _, _, _, _, rfl, _⟩ := addTypedefs_eq_done h₅
  obtain ⟨_, _, _, _, _, _, rfl⟩ := addMaps_eq_done h₆
  exact ⟨enums, bitfields, typedefs, henums, hbitfields, htypedefs, fromEnums, fromBitfields, fromTypedefs⟩

end Resolution

structure TypeTable.Keyed (table : TypeTable) : Prop where
  typedefs : ∀ name t, table.typedefs.get? name = some t →
    t.props.keys.Nodup ∧ ∀ e ∈ t.elements, e.props.keys.Nodup
  bitfields : ∀ name b, table.bitfields.get? name = some b →
    b.props.keys.Nodup ∧ ∀ m ∈ b.members, m.props.keys.Nodup

namespace Resolution

theorem TakesKeys.keyed {d : Description} {r : Resolution} {enums : Entries EnumDecl}
    {bitfields : Entries BitfieldDecl} {typedefs : Entries TypedefDecl} (h : r.TakesKeys enums bitfields typedefs)
    (hd : d.WellFormed) (he : d.declared .enums Declaration.enum? = .ok enums)
    (hb : d.declared .bitfields Declaration.bitfield? = .ok bitfields)
    (ht : d.declared .typedefs Declaration.typedef? = .ok typedefs) :
    (⟨r.typedefs, r.bitfields⟩ : TypeTable).Keyed := by
  have enumsKeyed := Description.declared_keyed hd (fun _ _ => Declaration.enum?_keyed) he
  have bitfieldsKeyed := Description.declared_keyed hd (fun _ _ => Declaration.bitfield?_keyed) hb
  have typedefsKeyed := Description.declared_keyed hd (fun _ _ => Declaration.typedef?_keyed) ht
  constructor
  · intro name t hget
    obtain ⟨x, hx, hprops, helements⟩ := h.typedefs name t hget
    have declared := typedefsKeyed _ hx
    refine ⟨hprops ▸ declared.head, fun e hmem => ?_⟩
    rcases helements e hmem with ⟨_, hnil⟩ | ⟨m, hm, _, hkeys⟩
    · rw [hnil]
      exact List.nodup_nil
    · rw [hkeys]
      refine Entries.nodup_keys_merge ?_ _
      unfold Element.enumProps
      cases henum : e.enumName.bind r.enums.get? with
      | none => exact List.nodup_nil
      | some enum =>
        obtain ⟨key, _, hget⟩ := Option.bind_eq_some_iff.mp henum
        obtain ⟨y, hy, hsame⟩ := h.enums key enum hget
        rw [Option.map_some, Option.getD_some, hsame]
        exact (enumsKeyed _ hy).head
  · intro name b hget
    obtain ⟨x, hx, hprops, hmembers⟩ := h.bitfields name b hget
    have declared := bitfieldsKeyed _ hx
    refine ⟨hprops ▸ declared.head, fun m hmem => ?_⟩
    rcases hmembers m hmem with ⟨_, hnil⟩ | ⟨f, hf, _, hkeys⟩
    · rw [hnil]
      exact List.nodup_nil
    · exact hkeys ▸ declared.members f hf

end Resolution

end AddressMap
