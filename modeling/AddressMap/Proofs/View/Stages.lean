import AddressMap.Proofs.Resolution.Stages
import AddressMap.Proofs.View.Define
import AddressMap.Proofs.View.Walk

set_option autoImplicit false

namespace AddressMap

variable {keep : String → Bool}

theorem Reference.expand_congr {μ μ' η η' : Type} {f : μ → μ'} {g : η → η'} (kind : Section)
    {table table' : Entries (Declared μ η)}
    (h : (table.mapValues (Declared.map f g)).sortByKey = (table'.mapValues (Declared.map f g)).sortByKey) :
    (expand kind table.sortByKey).toOption.map (Entries.mapValues · (Declared.map f g)) =
      (expand kind table'.sortByKey).toOption.map (Entries.mapValues · (Declared.map f g)) := by
  rw [Entries.sortByKey_mapValues, Entries.sortByKey_mapValues] at h
  rw [← toOption_map, ← toOption_map, ← expand_map, ← expand_map, h]

namespace Resolution

def byName {α β : Type} (v : α → β) (entries : Entries α) : Entries β := (entries.mapValues v).sortByKey

/-- Sections that are read to entries with the same views by name, or both of them not at all. -/
def ReadAlike {α β : Type} (kind : Section) (read : Value → Option α) (v : α → β) (es fs : Props) : Prop :=
  (readEntries kind read es).toOption.map (byName v) = (readEntries kind read fs).toOption.map (byName v)

section Types

variable {r r' : Resolution} {es fs : Props}

theorem addDefines_reached (r : Resolution) (es : Props) : (r.addDefines es).reached =
    (Define.resolve ⟨r.env, r.defines⟩ es).reached.map fun t =>
      { r with defineOrder := es.keys, env := t.env, defines := t.defines } :=
  Outcome.reached_map _ fun t : Define.Table => { r with defineOrder := es.keys, env := t.env, defines := t.defines }

theorem addDefines_congr (h : r.scope.view keep = r'.scope.view keep)
    (hes : (Define.pendingAll es).toOption.map Define.pendingView =
      (Define.pendingAll fs).toOption.map Define.pendingView) :
    (r.addDefines es).reached.map (fun s => s.scope.view keep) =
      (r'.addDefines fs).reached.map (fun s => s.scope.view keep) := by
  rw [addDefines_reached, addDefines_reached, Option.map_map, Option.map_map]
  refine map_congr_of_views (Define.resolve_congr (Scope.mk.inj h).1 hes) fun t t' ht => ?_
  exact congrArg₂ (fun s env => { s with env : Scope }) h ht

theorem addEnums_reached (r : Resolution) (es : Props) : (r.addEnums es).reached =
    (readEntries .enums Declaration.enum? es).toOption.bind fun entries =>
      (Reference.expand .enums entries.sortByKey).toOption.bind fun expanded =>
        (resolveInto (Enumeration.resolve r.env r.fallbackType) r.enums expanded).reached.map fun table =>
          { r with enumOrder := es.keys, enums := table } := by
  unfold addEnums
  cases readEntries .enums Declaration.enum? es with
  | error e => rfl
  | ok entries =>
    dsimp only
    cases hx : Reference.expand .enums entries.sortByKey with
    | error e =>
      simp only [Except.toOption, Option.bind_some, hx]
      rfl
    | ok expanded =>
      simp only [Except.toOption, Option.bind_some, hx]
      exact Outcome.reached_map _ fun table => { r with enumOrder := es.keys, enums := table }

theorem addEnums_congr (h : r.scope.view keep = r'.scope.view keep)
    (hes : ReadAlike .enums Declaration.enum? (EnumDecl.view keep) es fs) :
    (r.addEnums es).reached.map (fun s => s.scope.view keep) =
      (r'.addEnums fs).reached.map (fun s => s.scope.view keep) := by
  obtain ⟨henv, hfallback, _, _, enums, _⟩ := Scope.mk.inj h
  change r.env = r'.env at henv
  change r.fallbackType = r'.fallbackType at hfallback
  rw [addEnums_reached, addEnums_reached]
  refine bind_map_congr hes fun entries entries' hentries => ?_
  refine bind_map_congr (Reference.expand_congr .enums hentries) fun ds ds' hds => ?_
  rw [Option.map_map, Option.map_map]
  refine map_congr_of_views (resolveInto_congr (fun name x x' hx => ?_) enums hds) fun t t' ht => ?_
  · rw [henv, hfallback]
    exact Enumeration.resolve_congr r'.env r'.fallbackType name hx
  · exact congrArg₂ (fun s enums => { s with enums : Scope }) h ht

theorem addBitfields_reached (r : Resolution) (es : Props) : (r.addBitfields es).reached =
    (readEntries .bitfields Declaration.bitfield? es).toOption.bind fun entries =>
      (Reference.expand .bitfields entries.sortByKey).toOption.bind fun expanded =>
        (resolveInto (Bitfield.resolve r.env) r.bitfields expanded).reached.map fun table =>
          { r with bitfieldOrder := es.keys, bitfields := table } := by
  unfold addBitfields
  cases readEntries .bitfields Declaration.bitfield? es with
  | error e => rfl
  | ok entries =>
    dsimp only
    cases hx : Reference.expand .bitfields entries.sortByKey with
    | error e =>
      simp only [Except.toOption, Option.bind_some, hx]
      rfl
    | ok expanded =>
      simp only [Except.toOption, Option.bind_some, hx]
      exact Outcome.reached_map _ fun table => { r with bitfieldOrder := es.keys, bitfields := table }

theorem addBitfields_congr (h : r.scope.view keep = r'.scope.view keep)
    (hes : ReadAlike .bitfields Declaration.bitfield? (BitfieldDecl.view keep) es fs) :
    (r.addBitfields es).reached.map (fun s => s.scope.view keep) =
      (r'.addBitfields fs).reached.map (fun s => s.scope.view keep) := by
  obtain ⟨henv, _, _, _, _, bitfields, _⟩ := Scope.mk.inj h
  change r.env = r'.env at henv
  rw [addBitfields_reached, addBitfields_reached]
  refine bind_map_congr hes fun entries entries' hentries => ?_
  refine bind_map_congr (Reference.expand_congr .bitfields hentries) fun ds ds' hds => ?_
  rw [Option.map_map, Option.map_map]
  refine map_congr_of_views (resolveInto_congr (fun name x x' hx => ?_) bitfields hds) fun t t' ht => ?_
  · rw [henv]
    exact Bitfield.resolve_congr r'.env name hx
  · exact congrArg₂ (fun s bitfields => { s with bitfields : Scope }) h ht

theorem keys_congr {α β : Type} {v : α → β} {es fs : Entries α} (h : es.mapValues v = fs.mapValues v) :
    es.keys = fs.keys := by
  have keys := congrArg (List.map Prod.fst) h
  simpa [Entries.mapValues, Entries.keys, Function.comp_def] using keys

theorem shared_congr {α β γ δ : Type} {v : α → γ} {w : β → δ} {es fs : Entries α} {es' fs' : Entries β}
    (h : es.mapValues v = fs.mapValues v) (h' : es'.mapValues w = fs'.mapValues w) :
    shared es es' = shared fs fs' := by
  unfold shared
  rw [keys_congr h, funext (Scope.has_congr h')]

theorem checkTypeNames_congr (h : r.scope.view keep = r'.scope.view keep) :
    r.checkTypeNames = r'.checkTypeNames := by
  obtain ⟨_, _, _, _, enums, bitfields, typedefs⟩ := Scope.mk.inj h
  change r.enums.mapValues _ = r'.enums.mapValues _ at enums
  change r.bitfields.mapValues _ = r'.bitfields.mapValues _ at bitfields
  change r.typedefs.mapValues _ = r'.typedefs.mapValues _ at typedefs
  unfold checkTypeNames
  rw [shared_congr typedefs bitfields, shared_congr typedefs enums, shared_congr bitfields enums]

theorem addTypedefs_reached (r : Resolution) (es : Props) : (r.addTypedefs es).reached =
    (readEntries .typedefs Declaration.typedef? es).toOption.bind fun entries =>
      (Reference.expand .typedefs entries.sortByKey).toOption.bind fun table =>
        (Typedef.order r.scope.isLeaf r.fallbackType table).toOption.bind fun order =>
          (Typedef.layoutAll r.scope table order).reached.bind fun typedefs =>
            let s := { r with typedefs, typedefOrder := order }
            if s.checkTypeNames.isNone then some s else none := by
  unfold addTypedefs
  cases readEntries .typedefs Declaration.typedef? es with
  | error e => rfl
  | ok entries =>
    dsimp only
    cases hx : Reference.expand .typedefs entries.sortByKey with
    | error e =>
      simp only [Except.toOption, Option.bind_some, hx]
      rfl
    | ok table =>
      dsimp only
      cases ho : Typedef.order r.scope.isLeaf r.fallbackType table with
      | error e =>
        simp only [Except.toOption, Option.bind_some, hx, ho]
        rfl
      | ok order =>
        simp only [Except.toOption, Option.bind_some, hx, ho]
        obtain ⟨typedefs, e⟩ := Typedef.layoutAll r.scope table order
        cases e with
        | some e => rfl
        | none =>
          simp only [Outcome.reached, Outcome.toExcept, Except.toOption, Option.bind_some]
          cases checkTypeNames { r with typedefs, typedefOrder := order } <;> rfl

theorem addTypedefs_congr (h : r.scope.view keep = r'.scope.view keep)
    (hes : ReadAlike .typedefs Declaration.typedef? (TypedefDecl.view keep) es fs) :
    (r.addTypedefs es).reached.map (fun s => s.scope.view keep) =
      (r'.addTypedefs fs).reached.map (fun s => s.scope.view keep) := by
  have hfallback : r.fallbackType = r'.fallbackType := (Scope.mk.inj h).2.1
  rw [addTypedefs_reached, addTypedefs_reached, Scope.isLeaf_congr h, hfallback]
  refine bind_map_congr hes fun entries entries' hentries => ?_
  refine bind_map_congr (Reference.expand_congr .typedefs hentries) fun table table' htable => ?_
  -- The order is computed from the views alone, so both runs go through the same names.
  have orders : Typedef.order r'.scope.isLeaf r'.fallbackType table =
      Typedef.order r'.scope.isLeaf r'.fallbackType table' := by
    rw [← Typedef.order_view _ _ keep, ← Typedef.order_view _ _ keep table']
    exact congrArg _ htable
  rw [orders]
  refine bind_map_same _ fun order => ?_
  refine bind_map_congr (Typedef.layoutAll_congr h htable order) fun typedefs typedefs' htypedefs => ?_
  have scopes : Scope.view keep (scope { r with typedefs, typedefOrder := order }) =
      Scope.view keep (scope { r' with typedefs := typedefs', typedefOrder := order }) := by
    have placed := congrArg₂ (fun s typedefs => { s with typedefs : Scope }) h htypedefs
    exact placed
  dsimp only
  rw [checkTypeNames_congr scopes]
  split
  · exact congrArg some scopes
  · rfl

end Types

section Maps

def recordsOf (maps : List FlatMap) : Entries (List Record) := maps.map fun m => (m.name, m.records)

def seenMaps (keep : String → Bool) (maps : List FlatMap) : Entries (List Record) :=
  byName (List.map (Record.view keep)) (recordsOf maps)

def seenWalk (keep : String → Bool) (table : TypeTable) (type : String) : Option (List Record) :=
  (table.typedefs.get? type).bind fun root =>
    (Walk.flatten table root 0).toOption.map fun r => r.1.map (Record.view keep)

theorem seenWalk_congr {table table' : TypeTable} (h : table.view keep = table'.view keep) (type : String) :
    seenWalk keep table type = seenWalk keep table' type := by
  have walks := bind_map_congr (w := id) (Scope.get?_congr (TypeTable.mk.inj h).1 type)
    fun root root' hroot => congrArg (Option.map id) (Walk.flatten_congr h hroot 0 0)
  rwa [Option.map_id, id, id] at walks

/-- Each map has the records of its own walk, whichever maps come before it. -/
theorem flattenAll_seen (table : TypeTable) (uid : Nat) (maps : List FlatMap) (entries : Entries MapDecl) :
    (flattenAll table uid maps entries).reached.map (fun ms =>
        (recordsOf ms).mapValues (List.map (Record.view keep))) =
      (Entries.whole (entries.mapValues fun d => seenWalk keep table d.type)).map
        ((recordsOf maps).mapValues (List.map (Record.view keep)) ++ ·) := by
  induction entries generalizing uid maps with
  | nil => simp [flattenAll, Outcome.reached_done, Entries.mapValues, Entries.whole]
  | cons e rest ih =>
    obtain ⟨name, d⟩ := e
    rw [Entries.mapValues_cons, Entries.whole]
    unfold flattenAll seenWalk
    cases table.typedefs.get? d.type with
    | none => rfl
    | some root =>
      -- This walk starts at the number that the maps before it left free, `seenWalk` at zero.
      have walks : (Walk.flatten table root uid).toOption.map (fun r => r.1.map (Record.view keep)) =
          (Walk.flatten table root 0).toOption.map fun r => r.1.map (Record.view keep) :=
        Walk.flatten_congr rfl rfl uid 0
      dsimp only [Option.bind_some]
      rw [← walks]
      cases Walk.flatten table root uid with
      | error e => rfl
      | ok r =>
        dsimp only
        rw [ih]
        simp only [Except.toOption, Option.map_some, Option.bind_some, Option.map_map, Function.comp_def,
          recordsOf, Entries.mapValues, List.map_append, List.map_cons, List.map_nil, List.append_assoc,
          List.singleton_append]
        rfl

theorem flattenAll_congr {table table' : TypeTable} (h : table.view keep = table'.view keep)
    (uid uid' : Nat) {maps maps' : List FlatMap} (hmaps : seenMaps keep maps = seenMaps keep maps')
    {entries entries' : Entries MapDecl} (he : byName MapDecl.type entries = byName MapDecl.type entries') :
    (flattenAll table uid maps entries).reached.map (seenMaps keep) =
      (flattenAll table' uid' maps' entries').reached.map (seenMaps keep) := by
  have walked : (Entries.whole (entries.mapValues fun d => seenWalk keep table d.type)).map Entries.sortByKey =
      (Entries.whole (entries'.mapValues fun d => seenWalk keep table' d.type)).map Entries.sortByKey := by
    rw [Entries.whole_sortByKey, Entries.whole_sortByKey, ← funext (seenWalk_congr h)]
    exact congrArg _ (Entries.sortByKey_of_views (fun x y hxy => congrArg (seenWalk keep table) hxy) he)
  have split : ∀ o : Option (List FlatMap), o.map (seenMaps keep) =
      (o.map fun ms => (recordsOf ms).mapValues (List.map (Record.view keep))).map Entries.sortByKey := by
    intro o
    rw [Option.map_map]
    rfl
  rw [split, split, flattenAll_seen, flattenAll_seen, Option.map_map, Option.map_map]
  exact map_congr_of_views walked fun es fs hes => Entries.append_congr hmaps hes

end Maps

end Resolution

end AddressMap
