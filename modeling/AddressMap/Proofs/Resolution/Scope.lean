import AddressMap.Proofs.Define.Listing
import AddressMap.Proofs.Resolution.Keys
import AddressMap.Proofs.Typedef.Exactness
import AddressMap.Proofs.Typedef.Order
import AddressMap.Proofs.View.Reading

set_option autoImplicit false

namespace AddressMap

variable {patterns : PatternReader}

namespace Define

variable {t t' : Table} {env : Env} {pending : Entries PendingDefine} {name : String}

/-- What is known is what the defines come to. -/
def Table.Backed (t : Table) : Prop := ∀ name, t.env.get? name = (t.defines.get? name).map (·.resolved)

theorem pass_get? (env : Env) (pending : Entries PendingDefine) (name : String) :
    (name ∉ (pass env pending).resolved.keys → (pass env pending).env.get? name = env.get? name) ∧
      (name ∈ (pass env pending).resolved.keys ∨ (env.get? name).isSome →
        ((pass env pending).env.get? name).isSome) := by
  induction pending generalizing env with
  | nil => exact ⟨fun _ => rfl, fun h => h.resolve_left List.not_mem_nil⟩
  | cons e rest ih =>
    obtain ⟨first, d⟩ := e
    rw [pass]
    split
    · rename_i x _
      obtain ⟨other, known⟩ := ih (env.insert first x)
      simp only [Entries.keys, List.map_cons, List.mem_cons, not_or]
      constructor
      · rintro ⟨hne, hrest⟩
        rw [other hrest, Entries.get?_insert, if_neg hne]
      · intro h
        apply known
        rw [Entries.get?_insert]
        by_cases hn : name = first
        · exact .inr (by rw [if_pos hn]; rfl)
        · rw [if_neg hn]
          exact h.imp_left fun hin => hin.resolve_left hn
    · split
      · exact ih env
      · exact ⟨fun _ => rfl, fun h => h.resolve_left List.not_mem_nil⟩

theorem addAll_backed {resolved : Entries PendingDefine} (hknown : ∀ name ∈ resolved.keys, (t.env.get? name).isSome)
    (h : ∀ name, name ∉ resolved.keys → t.env.get? name = (t.defines.get? name).map (·.resolved)) :
    (t.addAll resolved).Backed := by
  induction resolved generalizing t with
  | nil => exact fun name => h name List.not_mem_nil
  | cons e rest ih =>
    obtain ⟨first, d⟩ := e
    obtain ⟨hfirst, hrest⟩ := List.forall_mem_cons.mp hknown
    obtain ⟨x, hx⟩ := Option.isSome_iff_exists.mp hfirst
    have step : t.addAll ((first, d) :: rest) =
        ({ t with defines := t.defines.insert first ⟨d.value, x, d.description, d.props⟩ } : Table).addAll rest := by
      simp only [Table.addAll, List.foldl_cons, hx]
    rw [step]
    refine ih hrest fun name hname => ?_
    dsimp only
    rw [Entries.get?_insert]
    by_cases hn : name = first
    · rw [if_pos hn, hn]
      exact hx
    · rw [if_neg hn]
      exact h name fun hin => (List.mem_cons.mp hin).elim hn hname

theorem passes_backed {n : Nat} (h : passes n t pending = .done t') (ht : t.Backed) :
    t'.Backed ∧ ∀ name, (t'.env.get? name).isSome → (t.env.get? name).isSome ∨ name ∈ pending.keys := by
  induction n generalizing t pending with
  | zero =>
    cases pending with
    | nil =>
      cases h
      exact ⟨ht, fun _ => .inl⟩
    | cons => cases h
  | succ n ih =>
    cases pending with
    | nil =>
      cases h
      exact ⟨ht, fun _ => .inl⟩
    | cons e rest =>
      rw [passes.eq_def] at h
      dsimp only at h
      split at h
      · cases h
      split at h
      · cases h
      have values := pass_get? t.env (e :: rest)
      have keys := (pass_splits t.env (e :: rest)).map Prod.fst
      rw [List.map_append] at keys
      obtain ⟨backed, known⟩ := ih h (addAll_backed (fun name hname => (values name).2 (.inl hname))
        fun name hname => ((values name).1 hname).trans (ht name))
      refine ⟨backed, fun name hname => ?_⟩
      rcases known name hname with hsome | hin
      · rw [addAll_env] at hsome
        by_cases hin : name ∈ (pass t.env (e :: rest)).resolved.keys
        · exact .inr (keys.mem_iff.mp (List.mem_append_left _ hin))
        · exact .inl ((values name).1 hin ▸ hsome)
      · exact .inr (keys.mem_iff.mp (List.mem_append_right _ hin))

theorem resolve_backed {es : Props} (h : resolve ⟨[], []⟩ es = .done t) :
    t.Backed ∧ ∀ name, (t.env.get? name).isSome → name ∈ es.keys := by
  unfold resolve at h
  split at h
  · cases h
  rename_i pending hpending
  obtain ⟨backed, known⟩ := passes_backed h fun _ => rfl
  refine ⟨backed, fun name hname => ?_⟩
  have hin := (known name hname).resolve_left (by simp [Entries.get?])
  rw [← pendingAll_keys hpending]
  exact ((Entries.sortByKey_perm pending).map Prod.fst).mem_iff.mp hin

end Define

namespace Typedef

theorem orderPasses_perm {isLeaf : String → Bool} {fallback : Primitive} {n : Nat} {known names : List String}
    {pending : Entries TypedefDecl} (h : orderPasses isLeaf fallback n known pending = .ok names) :
    names.Perm (known ++ pending.keys) := by
  induction n generalizing known pending with
  | zero =>
    cases pending with
    | nil =>
      cases h
      simp [Entries.keys]
    | cons => cases h
  | succ n ih =>
    cases pending with
    | nil =>
      cases h
      simp [Entries.keys]
    | cons e rest =>
      rw [orderPasses.eq_def] at h
      dsimp only at h
      split at h
      · cases h
      · have perm := ih h
        rw [List.append_assoc] at perm
        exact perm.trans ((orderPass_splits known (e :: rest)).append_left known)

theorem layoutAll_isSome {s : Scope} {table : Entries TypedefDecl} {order : List String} {ts : Entries Typedef}
    (h : layoutAll s table order = .done ts) {name : String}
    (hn : (s.typedefs.get? name).isSome ∨ (name ∈ order ∧ name ∈ table.keys)) : (ts.get? name).isSome := by
  induction order generalizing s with
  | nil =>
    cases h
    exact hn.resolve_right fun hin => absurd hin.1 List.not_mem_nil
  | cons first rest ih =>
    rw [List.mem_cons, or_and_right] at hn
    rw [layoutAll] at h
    split at h
    · rename_i hnone
      refine ih h (hn.imp_right fun hin => hin.resolve_left ?_)
      rintro ⟨rfl, hkey⟩
      rw [← Entries.get?_isSome_iff, hnone] at hkey
      cases hkey
    · split at h
      · cases h
      · refine ih h ?_
        dsimp only
        rw [Entries.get?_insert]
        split
        · exact .inl rfl
        · rename_i hne
          exact hn.imp_right fun hin => hin.resolve_left fun hfirst => hne hfirst.1

end Typedef

/-- Constants, types and alignments of the scope are those that the result publishes. -/
structure ResolvedMap.Publishes (c : ResolvedMap) (s : Scope) : Prop where
  defines : ∀ name x, s.env.get? name = some x ↔ ∃ d, (name, d) ∈ c.defines ∧ d.resolved = x
  fallback : s.fallback = c.metadata.defaultType
  align : s.align = c.metadata.align
  structAlign : s.structAlign = c.metadata.structAlign
  enums : ∀ name e, s.enums.get? name = some e ↔ (name, e) ∈ c.enums
  bitfields : ∀ name b, s.bitfields.get? name = some b ↔ (name, b) ∈ c.bitfields
  typedefs : ∀ name t, s.typedefs.get? name = some t ↔ (name, t) ∈ c.typedefs

theorem Metadata.resolve_aligns {es : Props} {m : Metadata} (h : resolve es = .ok m) :
    m.align ≠ some 0 ∧ m.structAlign ≠ some 0 := by
  obtain ⟨d, _, parts, _, type, _, hchecked⟩ := resolve_eq_ok.mp h
  obtain ⟨halign, hstruct, _, _, rfl⟩ := MetadataDecl.checked_eq_ok.mp hchecked
  exact ⟨halign, hstruct⟩

namespace Resolution

def Backed (r : Resolution) : Prop :=
  ∀ name x, r.env.get? name = some x ↔ ∃ d, (name, d) ∈ inOrder r.defineOrder r.defines ∧ d.resolved = x

theorem addDefines_backed {r : Resolution} {es : Props} (h : start.addDefines es = .done r) : r.Backed := by
  intro name x
  obtain ⟨t, ht, rfl⟩ := addDefines_eq_done h
  obtain ⟨backed, listed⟩ := Define.resolve_backed ht
  dsimp only
  simp only [mem_inOrder]
  rw [backed name, Option.map_eq_some_iff]
  refine exists_congr fun d => and_congr_left fun hx => ⟨fun hd => ⟨listed name ?_, hd⟩, And.right⟩
  rw [backed name, hd]
  rfl

theorem addTypedefs_laid {r r' : Resolution} {d : Description} (h : r.addTypedefs (d.entries .typedefs) = .done r')
    (ht : r.typedefs = []) : ∃ table, d.declared .typedefs Declaration.typedef? = .ok table ∧
      Typedef.Laid r'.scope table ∧ ∀ name ∈ table.keys, (r'.typedefs.get? name).isSome := by
  obtain ⟨entries, table, order, ts, hread, hexpand, horder, hlay, rfl, _⟩ := addTypedefs_eq_done h
  refine ⟨table, bind_eq_ok.mpr ⟨entries, hread, hexpand⟩, ?_, fun name hname => ?_⟩
  · refine Typedef.layoutAll_laid (fun name t hget => ?_) hlay
    rw [show r.scope.typedefs = [] from ht] at hget
    cases hget
  · exact Typedef.layoutAll_isSome hlay (.inr ⟨(Typedef.orderPasses_perm horder).mem_iff.mpr hname, hname⟩)

/-- Types are laid out with the constants and the metadata that are published with them. -/
theorem stages_keep {r₁ r₂ r₃ r₄ r₅ : Resolution} {metadata enums bitfields typedefs : Props}
    (h₂ : r₁.addMetadata metadata = .done r₂) (h₃ : r₂.addEnums enums = .done r₃)
    (h₄ : r₃.addBitfields bitfields = .done r₄) (h₅ : r₄.addTypedefs typedefs = .done r₅) :
    r₅.env = r₁.env ∧ r₅.defines = r₁.defines ∧ r₅.defineOrder = r₁.defineOrder ∧ r₄.typedefs = r₂.typedefs ∧
      r₅.metadata = r₂.metadata := by
  obtain ⟨_, _, _, _, _, _, rfl⟩ := addEnums_eq_done h₃
  obtain ⟨_, _, _, _, _, _, rfl⟩ := addBitfields_eq_done h₄
  obtain ⟨_, _, _, _, _, _, _, _, rfl, _⟩ := addTypedefs_eq_done h₅
  rcases addMetadata_eq_done h₂ with rfl | ⟨_, _, rfl⟩ <;> exact ⟨rfl, rfl, rfl, rfl, rfl⟩

theorem Published.publishes {r : Resolution} (h : r.Published) (hb : r.Backed) {m m' : Metadata}
    (hm : r.metadata = some m) (align : m'.align = m.align) (structAlign : m'.structAlign = m.structAlign)
    (type : m'.defaultType = m.defaultType) (maps : List FlatMap) (name : Option String) :
    (finish { r with metadata := some m', maps := maps, defaultMap := name }).Publishes r.scope where
  defines := hb
  fallback := by simp [scope, fallbackType, hm, finish, type]
  align := by simp [scope, hm, finish, align]
  structAlign := by simp [scope, hm, finish, structAlign]
  enums name e := ⟨fun he => mem_inOrder.mpr ⟨h.enums name e he, he⟩, fun he => (mem_inOrder.mp he).2⟩
  bitfields name b := ⟨fun hb => mem_inOrder.mpr ⟨h.bitfields name b hb, hb⟩, fun hb => (mem_inOrder.mp hb).2⟩
  typedefs name t := ⟨fun ht => mem_inOrder.mpr ⟨h.typedefs name t ht, ht⟩, fun ht => (mem_inOrder.mp ht).2⟩

theorem addMetadata_aligns {r r' : Resolution} {es : Props} (h : r.addMetadata es = .done r')
    (hr : r.metadata = none) {m : Metadata} (hm : r'.metadata = some m) :
    m.align ≠ some 0 ∧ m.structAlign ≠ some 0 := by
  rcases addMetadata_eq_done h with rfl | ⟨m', hm', rfl⟩
  · rw [hr] at hm
    cases hm
  · cases hm
    exact Metadata.resolve_aligns hm'

/-- The typedefs of a result solve the layout equations in the scope that is published with them. -/
theorem resolve_laid {d : Description} {c : ResolvedMap} (h : resolve d patterns = .ok c) :
    ∃ s table, c.Publishes s ∧ s.Aligns ∧ d.declared .typedefs Declaration.typedef? = .ok table ∧
      Typedef.Laid s table ∧ ∀ name ∈ table.keys, (s.typedefs.get? name).isSome := by
  obtain ⟨r₈, r₉, hdone, h₉, rfl⟩ := resolve_eq_ok.mp h
  obtain ⟨r₁, r₂, r₃, r₄, r₅, r₆, r₇, h₁, h₂, h₃, h₄, h₅, h₆, h₇, h₈⟩ := finished_eq_done hdone
  have published := (published_of_stages h₁ h₂ h₃ h₄ h₅).1
  obtain ⟨henv, hdefines, horder, htypedefs, hmetadata⟩ := stages_keep h₂ h₃ h₄ h₅
  obtain ⟨table, hdeclared, laid, complete⟩ :=
    addTypedefs_laid h₅ (htypedefs.trans (empty_of_stages h₁ h₂).2.2.1)
  have backed : r₅.Backed := by
    unfold Backed
    rw [henv, hdefines, horder]
    exact addDefines_backed h₁
  obtain ⟨m, hm, rfl⟩ := addFingerprints_eq_done h₉
  rw [finished_metadata h₃ h₄ h₅ h₆ h₇ h₈] at hm
  have none : r₁.metadata = none := (addDefines_beside h₁).metadata
  obtain ⟨halign, hstruct⟩ := addMetadata_aligns h₂ none hm
  rw [← hmetadata] at hm
  obtain ⟨_, _, _, _, _, _, rfl⟩ := addMaps_eq_done h₆
  obtain ⟨_, _, rfl⟩ := addOverrides_eq_done h₇
  obtain ⟨_, _, rfl⟩ := finishRecords_eq_done h₈
  refine ⟨r₅.scope, table, published.publishes backed hm ?_ ?_ ?_ _ _, ⟨?_, ?_⟩, hdeclared, laid, complete⟩
  · rfl
  · rfl
  · rfl
  · intro a ha
    simp only [scope, hm, Option.bind_some] at ha
    exact Nat.pos_of_ne_zero fun hzero => halign (hzero ▸ ha)
  · intro a ha
    simp only [scope, hm, Option.bind_some] at ha
    exact Nat.pos_of_ne_zero fun hzero => hstruct (hzero ▸ ha)

theorem addBitfields_resolved {r r' : Resolution} {es : Props} (h : r.addBitfields es = .done r')
    (hr : r.bitfields = []) {name : String} {b : Bitfield} (hb : r'.bitfields.get? name = some b) :
    ∃ decl, Bitfield.resolve r.env name decl = .ok b := by
  obtain ⟨_, _, _, _, _, hinto, rfl⟩ := addBitfields_eq_done h
  rw [hr] at hinto
  rcases resolveInto_get? hinto hb with hnil | ⟨decl, _, hdecl⟩
  · cases hnil
  · exact ⟨decl, hdecl⟩

theorem resolve_bitfields {d : Description} {c : ResolvedMap} (h : resolve d patterns = .ok c) :
    ∃ env : Env, (∀ name x, env.get? name = some x ↔ ∃ d, (name, d) ∈ c.defines ∧ d.resolved = x) ∧
      ∀ name b, (name, b) ∈ c.bitfields → ∃ decl, Bitfield.resolve env name decl = .ok b := by
  obtain ⟨r₈, r₉, hdone, h₉, rfl⟩ := resolve_eq_ok.mp h
  obtain ⟨r₁, r₂, r₃, r₄, r₅, r₆, r₇, h₁, h₂, h₃, h₄, h₅, h₆, h₇, h₈⟩ := finished_eq_done hdone
  have backed := addDefines_backed h₁
  have empty : r₃.bitfields = [] := by
    obtain ⟨_, _, _, _, _, _, rfl⟩ := addEnums_eq_done h₃
    exact (empty_of_stages h₁ h₂).2.1
  have env : r₃.env = r₁.env := by
    obtain ⟨_, _, _, _, _, _, rfl⟩ := addEnums_eq_done h₃
    rcases addMetadata_eq_done h₂ with rfl | ⟨_, _, rfl⟩ <;> rfl
  have resolved := fun name b => @addBitfields_resolved _ _ _ h₄ empty name b
  obtain ⟨_, hdefines, horder, _⟩ := stages_keep h₂ h₃ h₄ h₅
  obtain ⟨_, _, _, _, _, _, _, _, rfl, _⟩ := addTypedefs_eq_done h₅
  obtain ⟨_, _, _, _, _, _, rfl⟩ := addMaps_eq_done h₆
  obtain ⟨_, _, rfl⟩ := addOverrides_eq_done h₇
  obtain ⟨_, _, rfl⟩ := finishRecords_eq_done h₈
  obtain ⟨_, _, rfl⟩ := addFingerprints_eq_done h₉
  refine ⟨r₁.env, ?_, fun name b hb => env ▸ resolved name b (mem_inOrder.mp hb).2⟩
  dsimp only at hdefines horder
  simp only [finish, hdefines, horder]
  exact backed

/-- Every typedef that is declared is published with its exact layout. And a layout of known types and sizes fails
    only because it is larger than it may be, or because two of its names coincide. -/
theorem typedefs_exact :
    (∀ (d : Description) (c : ResolvedMap), resolve d patterns = .ok c →
      ∃ s table, c.Publishes s ∧ d.declared .typedefs Declaration.typedef? = .ok table ∧
        (∀ name t, (name, t) ∈ c.typedefs → ∃ decl, table.get? name = some decl ∧ Typedef.Exact s decl t) ∧
        ∀ name ∈ table.keys, ∃ t, (name, t) ∈ c.typedefs) ∧
    ∀ (s : Scope) (name : String) (decl : TypedefDecl), s.Aligns → Typedef.Sizable s decl →
      ∃ contents stop, Typedef.elementsFrom s name 0 0 decl.members = .ok contents ∧
        Typedef.Contents s 0 0 decl.members stop contents ∧
        ∀ e, Typedef.layout s name decl = .error e → Typedef.Misfit s name decl contents stop e := by
  constructor
  · intro d c h
    obtain ⟨s, table, published, aligns, hdeclared, laid, complete⟩ := resolve_laid h
    refine ⟨s, table, published, hdeclared, fun name t ht => ?_, fun name hname => ?_⟩
    · obtain ⟨decl, hdecl, hlayout⟩ := laid name t ((published.typedefs name t).mpr ht)
      exact ⟨decl, hdecl, Typedef.layout_exact aligns hlayout⟩
    · obtain ⟨t, ht⟩ := Option.isSome_iff_exists.mp (complete name hname)
      exact ⟨t, (published.typedefs name t).mp ht⟩
  · exact fun s name decl aligns sizable => Typedef.layout_misfit aligns sizable

end Resolution

/-- Elements are padded to four bytes, and typedefs to eight unless they say their size. -/
def Description.padded : Description where
  sections := [
    ("metadata", .object [("app_name", .string "board"), ("default_type", .string "uint8_t"), ("align", .ofNat 4),
      ("struct_align", .ofNat 8)]),
    ("typedefs", .object [
      ("cell", .object [("elements", .array [
        .object [("name", .string "level"), ("array_size", .ofNat 6)],
        .object [("name", .string "unit"), ("type", .string "uint32_t")],
        .object [("name", .string "alarm")]])]),
      ("root", .object [("total_size", .ofNat 40), ("elements", .array [
        .object [("name", .string "state")],
        .object [("name", .string "cells"), ("type", .string "cell"), ("array_size", .ofNat 2)]])])]),
    ("generated_maps", .object [("board", .object [("type", .string "root")])])]

namespace Resolution

theorem finished_padded : (finished .padded).error.isNone ∧ (finished .padded).state.metadata.isSome ∧
    (inOrder (finished .padded).state.typedefOrder (finished .padded).state.typedefs).map
      (fun t => (t.1, t.2.size)) = [("cell", 16), ("root", 40)] := by
  decide +kernel

/-- Elements whose padding has the name of the one behind it. -/
def shadowed : TypedefDecl :=
  ⟨[⟨"level", none, none, none, []⟩, ⟨"padding_0", some "uint32_t", none, none, []⟩], none, ⟨none, none, []⟩⟩

def aligned : Scope := ⟨[], .u8, some 4, some 8, [], [], []⟩

theorem aligned_aligns : aligned.Aligns := ⟨fun a h => by cases h; decide, fun a h => by cases h; decide⟩

theorem sizable_shadowed : Typedef.Sizable aligned shadowed := by
  refine ⟨List.forall_mem_cons.mpr ⟨?_, List.forall_mem_cons.mpr ⟨?_, nofun⟩⟩, nofun⟩
  · exact ⟨_, _, none, .primitive (p := .u8) rfl, rfl, by decide⟩
  · exact ⟨_, _, none, .primitive (p := .u32) rfl, rfl, by decide⟩

theorem typedefs_exact_padded :
    (∃ c s decl t, resolve .padded = .ok c ∧ c.Publishes s ∧ ("root", t) ∈ c.typedefs ∧ t.size = 40 ∧
      Typedef.Exact s decl t) ∧
    ∃ contents stop, Typedef.Contents aligned 0 0 shadowed.members stop contents ∧
      Typedef.Misfit aligned "pair" shadowed contents stop (.duplicate "padding_0" "pair") := by
  obtain ⟨exact, misfit⟩ := typedefs_exact
  constructor
  · obtain ⟨hnone, hmeta, hsizes⟩ := finished_padded
    obtain ⟨c, _, hc, hfinish⟩ := resolves_of_finished hnone hmeta
    have sizes : c.typedefs.map (fun t => (t.1, t.2.size)) = [("cell", 16), ("root", 40)] := by
      rw [hfinish]
      exact hsizes
    have root : ("root", 40) ∈ c.typedefs.map fun t => (t.1, t.2.size) := by simp [sizes]
    obtain ⟨⟨name, t⟩, ht, heq⟩ := List.mem_map.mp root
    obtain ⟨rfl, size⟩ := Prod.mk.inj heq
    obtain ⟨s, table, published, _, layouts, _⟩ := exact .padded c hc
    obtain ⟨decl, _, hexact⟩ := layouts "root" t ht
    exact ⟨c, s, decl, t, hc, published, ht, size, hexact⟩
  · obtain ⟨contents, stop, _, inside, only⟩ := misfit aligned "pair" shadowed aligned_aligns sizable_shadowed
    exact ⟨contents, stop, inside, only _ rfl⟩

end Resolution

end AddressMap
