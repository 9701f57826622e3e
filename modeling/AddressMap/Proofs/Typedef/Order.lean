import AddressMap.Proofs.Typedef.Layout
import AddressMap.Typedef.Order
import Mathlib.Data.Fintype.EquivFin
import Mathlib.Logic.Relation

set_option autoImplicit false

/-!
A typedef uses the types of its elements that are no leaves. The passes place typedefs behind everything
they use, so nothing that leads into a circle or to a type that is not declared is ever placed. And they
only stop where each typedef that is left uses one that is not placed: among finitely many, going on from
one to the next must come back, or end at a type that is not declared.
-/

namespace AddressMap.Typedef

open Relation (TransGen ReflTransGen)

section Uses

variable (isLeaf : String → Bool) (fallback : Primitive) (table : Entries TypedefDecl)

/-- An element of the typedef is of this type, and the type is no leaf. -/
def Uses (name type : String) : Prop :=
  ∃ d, table.get? name = some d ∧ type ∈ elementTypes fallback d ∧ isLeaf type = false

/-- Every typedef comes after all types it uses. -/
def Ordered (names : List String) : Prop :=
  ∀ before name after, names = before ++ name :: after →
    ∀ type, Uses isLeaf fallback table name type → type ∈ before

/-- The typedef leads into a circle, or to a type that is not declared. -/
def Doomed (name : String) : Prop :=
  ∃ type, ReflTransGen (Uses isLeaf fallback table) name type ∧
    (type ∉ table.keys ∨ TransGen (Uses isLeaf fallback table) type type)

end Uses

variable {isLeaf : String → Bool} {fallback : Primitive} {table : Entries TypedefDecl}

theorem ordered_nil : Ordered isLeaf fallback table [] := by
  intro before name after h
  exact absurd h.symm (List.append_ne_nil_of_right_ne_nil _ (List.cons_ne_nil _ _))

theorem ordered_concat {names : List String} {name : String} (h : Ordered isLeaf fallback table names)
    (huses : ∀ type, Uses isLeaf fallback table name type → type ∈ names) :
    Ordered isLeaf fallback table (names ++ [name]) := by
  intro before other after heq type htype
  rcases List.eq_nil_or_concat after with rfl | ⟨after, last, rfl⟩
  · obtain ⟨rfl, hlast⟩ := List.append_inj' heq rfl
    cases hlast
    exact huses type htype
  · rw [List.concat_eq_append, ← List.cons_append, ← List.append_assoc] at heq
    exact h before other after (List.append_inj' heq rfl).1 type htype

/-- What is used comes from an earlier place. -/
theorem Ordered.uses {names : List String} (h : Ordered isLeaf fallback table names) {name type : String}
    (hn : name ∈ names) (huses : Uses isLeaf fallback table name type) :
    type ∈ names ∧ names.idxOf type < names.idxOf name := by
  obtain ⟨before, after, heq, hfirst⟩ := List.eq_append_cons_of_mem hn
  have hin := h before name after heq type huses
  subst heq
  refine ⟨List.mem_append_left _ hin, ?_⟩
  rw [List.idxOf_append_of_mem hin, List.idxOf_append_of_notMem hfirst, List.idxOf_cons_self]
  exact Nat.lt_add_right 0 (List.idxOf_lt_length_iff.mpr hin)

theorem Ordered.leads {names : List String} (h : Ordered isLeaf fallback table names) {name type : String}
    (hn : name ∈ names) (hleads : TransGen (Uses isLeaf fallback table) name type) :
    type ∈ names ∧ names.idxOf type < names.idxOf name := by
  induction hleads with
  | single huses => exact h.uses hn huses
  | tail _ huses ih =>
    obtain ⟨hin, hlt⟩ := h.uses ih.1 huses
    exact ⟨hin, Nat.lt_trans hlt ih.2⟩

theorem Ordered.acyclic {names : List String} (h : Ordered isLeaf fallback table names) {name : String}
    (hn : name ∈ names) : ¬TransGen (Uses isLeaf fallback table) name name :=
  fun hcircle => Nat.lt_irrefl _ (h.leads hn hcircle).2

theorem Ordered.not_doomed {names : List String} (h : Ordered isLeaf fallback table names)
    (hsub : names ⊆ table.keys) {name : String} (hn : name ∈ names) :
    ¬Doomed isLeaf fallback table name := by
  rintro ⟨type, hleads, hend⟩
  have hin : type ∈ names := by
    rcases Relation.reflTransGen_iff_eq_or_transGen.mp hleads with rfl | hleads
    · exact hn
    · exact (h.leads hn hleads).1
  rcases hend with hout | hcircle
  · exact hout (hsub hin)
  · exact h.acyclic hin hcircle

theorem Uses.mem_keys {name type : String} (h : Uses isLeaf fallback table name type) :
    name ∈ table.keys := by
  obtain ⟨d, hd, _⟩ := h
  exact Entries.mem_keys_of_get? hd

theorem Doomed.of_uses {name type : String} (h : Uses isLeaf fallback table name type)
    (hd : Doomed isLeaf fallback table type) : Doomed isLeaf fallback table name := by
  obtain ⟨last, hleads, hend⟩ := hd
  exact ⟨last, .head h hleads, hend⟩

/-- Where each of finitely many names uses another one of them or a type that is not declared, all of
    them are doomed. -/
theorem doomed_of_stuck {names : List String}
    (h : ∀ name ∈ names, ∃ type, Uses isLeaf fallback table name type ∧
      (type ∈ names ∨ type ∉ table.keys)) {name : String} (hn : name ∈ names) :
    Doomed isLeaf fallback table name := by
  by_contra hsafe
  -- The names that are not doomed are finitely many, without a circle, and each uses another one.
  let Safe := { name : String // name ∈ names ∧ ¬Doomed isLeaf fallback table name }
  have hfinite : Finite Safe := by
    refine Finite.of_injective (fun x : Safe => (⟨x.1, x.2.1⟩ : { name // name ∈ names })) fun x y heq => ?_
    exact Subtype.ext (Subtype.mk.inj heq)
  let Below : Safe → Safe → Prop := fun x y => TransGen (Uses isLeaf fallback table) y.1 x.1
  have htrans : IsTrans Safe Below := ⟨fun _ _ _ hxy hyz => hyz.trans hxy⟩
  have hirrefl : Std.Irrefl Below := ⟨fun x hcircle => x.2.2 ⟨x.1, .refl, .inr hcircle⟩⟩
  have hwf : WellFounded Below := Finite.wellFounded_of_trans_of_irrefl Below
  obtain ⟨last⟩ : Nonempty Safe := ⟨⟨name, hn, hsafe⟩⟩
  induction last using hwf.induction with
  | _ last ih =>
    obtain ⟨type, huses, hin | hout⟩ := h last.1 last.2.1
    · have hnext : ¬Doomed isLeaf fallback table type := fun hd => last.2.2 (.of_uses huses hd)
      exact ih ⟨type, hin, hnext⟩ (.single huses)
    · exact last.2.2 ⟨type, .single huses, .inl hout⟩

theorem firstMissing_eq_none {known : List String} {d : TypedefDecl}
    (h : firstMissing isLeaf fallback known d = none) :
    ∀ type ∈ elementTypes fallback d, isLeaf type = false → type ∈ known := by
  intro type htype hleaf
  have := List.find?_eq_none.mp h type htype
  simpa [hleaf] using this

theorem firstMissing_eq_some {known : List String} {d : TypedefDecl} {type : String}
    (h : firstMissing isLeaf fallback known d = some type) :
    type ∈ elementTypes fallback d ∧ isLeaf type = false ∧ type ∉ known := by
  refine ⟨List.mem_of_find?_eq_some h, ?_⟩
  have := List.find?_some h
  simpa using this

theorem orderPass_splits (known : List String) (pending : Entries TypedefDecl) :
    ((orderPass isLeaf fallback known pending).ordered ++
      (orderPass isLeaf fallback known pending).postponed.keys).Perm pending.keys := by
  induction pending generalizing known with
  | nil => exact .refl _
  | cons e rest ih =>
    obtain ⟨name, d⟩ := e
    rw [orderPass]
    split
    · exact (ih _).cons _
    · exact List.perm_middle.trans ((ih known).cons _)

theorem orderPass_sublist (known : List String) (pending : Entries TypedefDecl) :
    (orderPass isLeaf fallback known pending).postponed.Sublist pending := by
  induction pending generalizing known with
  | nil => exact .slnil
  | cons e rest ih =>
    obtain ⟨name, d⟩ := e
    rw [orderPass]
    split
    · exact (ih _).cons _
    · exact (ih _).cons_cons _

/-- The pass knows what was placed before it and what it has placed itself. -/
theorem orderPass_ordered {names known : List String} {pending : Entries TypedefDecl}
    (hknown : ∀ name, name ∈ known ↔ name ∈ names) (h : Ordered isLeaf fallback table names)
    (hp : ∀ e ∈ pending, table.get? e.1 = some e.2) :
    Ordered isLeaf fallback table (names ++ (orderPass isLeaf fallback known pending).ordered) := by
  induction pending generalizing names known with
  | nil => rwa [orderPass, List.append_nil]
  | cons e rest ih =>
    obtain ⟨name, d⟩ := e
    have htail := fun e he => hp e (List.mem_cons_of_mem _ he)
    rw [orderPass]
    split
    · rename_i hnone
      have hplaced : Ordered isLeaf fallback table (names ++ [name]) := by
        refine ordered_concat h fun type ⟨d', hd', htype, hleaf⟩ => ?_
        rw [hp (name, d) List.mem_cons_self] at hd'
        cases hd'
        exact (hknown type).mp (firstMissing_eq_none hnone type htype hleaf)
      have hnext : ∀ other, other ∈ name :: known ↔ other ∈ names ++ [name] := by
        intro other
        rw [List.mem_cons, List.mem_append, List.mem_singleton, hknown, or_comm]
      have hrest := ih hnext hplaced htail
      rwa [List.append_assoc] at hrest
    · exact ih hknown h htail

theorem orderPass_stuck {known : List String} {pending : Entries TypedefDecl}
    (h : (orderPass isLeaf fallback known pending).ordered = []) : ∀ e ∈ pending,
      ∃ type ∈ elementTypes fallback e.2, isLeaf type = false ∧ type ∉ known := by
  induction pending generalizing known with
  | nil => exact fun _ he => by cases he
  | cons e rest ih =>
    obtain ⟨name, d⟩ := e
    rw [orderPass] at h
    split at h
    · cases h
    · rename_i type hmissing
      exact List.forall_mem_cons.mpr ⟨⟨type, firstMissing_eq_some hmissing⟩, ih h⟩

/-- What the passes have come to: `names` are placed, `pending` are the others. -/
structure Placed (isLeaf : String → Bool) (fallback : Primitive) (table : Entries TypedefDecl)
    (names : List String) (pending : Entries TypedefDecl) : Prop where
  ordered : Ordered isLeaf fallback table names
  rest : pending.Sublist table
  split : (names ++ pending.keys).Perm table.keys

namespace Placed

variable {names : List String} {pending : Entries TypedefDecl}

theorem entries (h : Placed isLeaf fallback table names pending) (hkeys : table.keys.Nodup) :
    ∀ e ∈ pending, table.get? e.1 = some e.2 :=
  fun _ he => Entries.get?_of_mem hkeys (h.rest.subset he)

theorem pass (h : Placed isLeaf fallback table names pending) (hkeys : table.keys.Nodup) :
    Placed isLeaf fallback table (names ++ (orderPass isLeaf fallback names pending).ordered)
      (orderPass isLeaf fallback names pending).postponed := by
  refine ⟨orderPass_ordered (fun _ => .rfl) h.ordered (h.entries hkeys), ?_, ?_⟩
  · exact (orderPass_sublist names pending).trans h.rest
  · rw [List.append_assoc]
    exact ((orderPass_splits names pending).append_left names).trans h.split

theorem complete (h : Placed isLeaf fallback table names []) : names.Perm table.keys := by
  simpa only [Entries.keys, List.map_nil, List.append_nil] using h.split

theorem subset (h : Placed isLeaf fallback table names pending) : names ⊆ table.keys :=
  fun _ hn => h.split.mem_iff.mp (List.mem_append_left _ hn)

end Placed

/-- How the passes end: with everything placed, or where each typedef that is left uses one that is not
    placed. -/
inductive OrderEnding (isLeaf : String → Bool) (fallback : Primitive) (table : Entries TypedefDecl) :
    Except Error (List String) → Prop
  | finished {names : List String} (h : Placed isLeaf fallback table names []) :
      OrderEnding isLeaf fallback table (.ok names)
  | stuck {names types : List String} {pending : Entries TypedefDecl}
      (h : Placed isLeaf fallback table names pending) (hne : pending ≠ [])
      (hstuck : ∀ e ∈ pending, ∃ type ∈ elementTypes fallback e.2, isLeaf type = false ∧ type ∉ names) :
      OrderEnding isLeaf fallback table (.error (.unresolved (.typedefs pending.keys types)))

theorem orderPasses_ending (hkeys : table.keys.Nodup) {n : Nat} {names : List String}
    {pending : Entries TypedefDecl} (h : Placed isLeaf fallback table names pending)
    (hn : pending.length ≤ n) :
    OrderEnding isLeaf fallback table (orderPasses isLeaf fallback n names pending) := by
  induction n generalizing names pending with
  | zero =>
    obtain rfl := List.eq_nil_of_length_eq_zero (Nat.le_zero.mp hn)
    exact .finished h
  | succ n ih =>
    cases pending with
    | nil => exact .finished h
    | cons e rest =>
      rw [orderPasses.eq_def]
      dsimp only
      split
      · rename_i hempty
        exact .stuck h (List.cons_ne_nil _ _) (orderPass_stuck (List.isEmpty_iff.mp hempty))
      · rename_i hsome
        apply ih (h.pass hkeys)
        -- Something was placed, so less is pending.
        have splits : ((orderPass isLeaf fallback names (e :: rest)).ordered ++ _).Perm _ :=
          orderPass_splits names (e :: rest)
        have count := splits.length_eq
        have hpos := List.length_pos_iff.mpr fun hnil => hsome (List.isEmpty_iff.mpr hnil)
        simp only [List.length_append, Entries.keys, List.length_map] at count
        omega

theorem order_ending (hkeys : table.keys.Nodup) :
    OrderEnding isLeaf fallback table (order isLeaf fallback table) :=
  orderPasses_ending hkeys ⟨ordered_nil, .refl _, .refl _⟩ (Nat.le_refl _)

/-- Where the passes are stuck, what is left is doomed, and nothing else is. -/
theorem Placed.doomed_iff {names : List String} {pending : Entries TypedefDecl}
    (h : Placed isLeaf fallback table names pending) (hkeys : table.keys.Nodup)
    (hstuck : ∀ e ∈ pending, ∃ type ∈ elementTypes fallback e.2, isLeaf type = false ∧ type ∉ names)
    (name : String) : name ∈ pending.keys ↔ name ∈ table.keys ∧ Doomed isLeaf fallback table name := by
  have declared : ∀ other, other ∈ table.keys ↔ other ∈ names ∨ other ∈ pending.keys := fun other => by
    rw [← h.split.mem_iff, List.mem_append]
  constructor
  · refine fun hn => ⟨(declared name).mpr (.inr hn), doomed_of_stuck (fun other hother => ?_) hn⟩
    obtain ⟨⟨_, d⟩, hmem, rfl⟩ := List.mem_map.mp hother
    obtain ⟨type, htype, hleaf, hout⟩ := hstuck _ hmem
    refine ⟨type, ⟨d, h.entries hkeys _ hmem, htype, hleaf⟩, ?_⟩
    by_cases hin : type ∈ table.keys
    · exact .inl (((declared type).mp hin).resolve_left hout)
    · exact .inr hin
  · rintro ⟨hn, hd⟩
    refine ((declared name).mp hn).resolve_left fun hplaced => ?_
    exact h.ordered.not_doomed h.subset hplaced hd

section Layout

variable {s : Scope} {owner type context : String}

theorem itemType?_isSome {name : String} (h : s.isLeaf name = false → (s.typedefs.get? name).isSome) :
    (s.itemType? name).isSome := by
  simp only [Scope.isLeaf, Entries.has, Bool.or_eq_false_iff, and_imp] at h
  unfold Scope.itemType?
  split
  · rfl
  rename_i hp
  split
  · rfl
  rename_i hb
  split
  · rfl
  rename_i he
  simp only [hp, hb, he, Option.isSome_none, forall_const] at h
  obtain ⟨t, ht⟩ := Option.isSome_iff_exists.mp h
  rw [ht]
  rfl

theorem evaluateSize_ne_unknownType {key : String} {v : Value} :
    evaluateSize s.env owner key v ≠ .error (.unknownType type context) := by
  unfold evaluateSize
  repeat' split
  all_goals exact fun h => by cases h

theorem element_ne_unknownType {offset : Nat} {d : ElementDecl}
    (hd : (s.itemType? (d.type.getD s.fallback.name)).isSome) :
    element s owner offset d ≠ .error (.unknownType type context) := by
  obtain ⟨item, hitem⟩ := Option.isSome_iff_exists.mp hd
  intro h
  rcases bind_eq_error.mp h with hcount | ⟨count, _, h⟩
  · unfold itemCount at hcount
    split at hcount
    · cases hcount
    · exact evaluateSize_ne_unknownType (map_eq_error.mp hcount)
  · simp only [hitem] at h
    split at h <;> cases h

theorem elementsFrom_ne_unknownType {offset pads : Nat} {ds : List ElementDecl}
    (hds : ∀ d ∈ ds, (s.itemType? (d.type.getD s.fallback.name)).isSome) :
    elementsFrom s owner offset pads ds ≠ .error (.unknownType type context) := by
  induction ds generalizing offset pads with
  | nil => exact fun h => by cases h
  | cons d rest ih =>
    obtain ⟨hd, hrest⟩ := List.forall_mem_cons.mp hds
    intro h
    rw [elementsFrom] at h
    split at h
    · rename_i e he
      cases h
      exact element_ne_unknownType hd he
    · dsimp only at h
      split at h
      · exact ih hrest (map_eq_error.mp h)
      · exact ih hrest (map_eq_error.mp h)

theorem finalSize_ne_unknownType {total : Option Value} {contents : Nat} :
    finalSize s owner total contents ≠ .error (.unknownType type context) := by
  unfold finalSize
  split
  · exact fun h => by cases h
  · split
    · rename_i e he
      rintro ⟨⟩
      exact evaluateSize_ne_unknownType he
    · split <;> exact fun h => by cases h

theorem checkUnique_ne_unknownType {names : List String} :
    checkUnique owner names ≠ .error (.unknownType type context) := by
  have go : ∀ seen, checkUnique.go owner seen names ≠ .error (.unknownType type context) := by
    induction names with
    | nil => exact fun _ h => by cases h
    | cons name rest ih =>
      intro seen h
      rw [checkUnique.go] at h
      split at h
      · cases h
      · exact ih _ h
  exact go []

theorem layout_ne_unknownType {d : TypedefDecl}
    (hd : ∀ name ∈ elementTypes s.fallback d, s.isLeaf name = false → (s.typedefs.get? name).isSome) :
    layout s owner d ≠ .error (.unknownType type context) := by
  intro h
  rcases bind_eq_error.mp h with helements | ⟨contents, _, h⟩
  · refine elementsFrom_ne_unknownType (fun e he => itemType?_isSome ?_) helements
    exact hd _ (List.mem_map_of_mem he)
  rcases bind_eq_error.mp h with hsize | ⟨size, _, h⟩
  · exact finalSize_ne_unknownType hsize
  rcases bind_eq_error.mp h with hunique | ⟨_, _, h⟩
  · exact checkUnique_ne_unknownType hunique
  · cases h

theorem layoutAll_ne_unknownType {before names : List String}
    (hknown : ∀ name ∈ before, (s.typedefs.get? name).isSome)
    (ho : Ordered s.isLeaf s.fallback table (before ++ names))
    (hnames : ∀ name ∈ names, name ∈ table.keys) :
    (layoutAll s table names).error ≠ some (.unknownType type context) := by
  induction names generalizing s before with
  | nil => exact fun h => by cases h
  | cons name rest ih =>
    obtain ⟨hname, hrest⟩ := List.forall_mem_cons.mp hnames
    obtain ⟨d, hd⟩ := Option.isSome_iff_exists.mp (Entries.get?_isSome_iff.mpr hname)
    rw [layoutAll, hd]
    dsimp only
    split
    · rename_i e he
      rintro ⟨⟩
      refine layout_ne_unknownType (fun other hother hleaf => ?_) he
      exact hknown other (ho before name rest rfl other ⟨d, hd, hother, hleaf⟩)
    · rename_i t _
      have hordered : Ordered s.isLeaf s.fallback table ((before ++ [name]) ++ rest) := by
        rwa [List.append_assoc]
      refine ih ?_ hordered hrest
      intro other hother
      rw [Entries.get?_insert]
      split
      · rfl
      · rename_i hne
        rcases List.mem_append.mp hother with hin | hin
        · exact hknown other hin
        · exact absurd (List.mem_singleton.mp hin) hne

end Layout

/-- What the order of a table comes to, in terms of which of its typedefs uses which. -/
structure Sorted (s : Scope) (table : Entries TypedefDecl) : Prop where
  /-- There is an order exactly if everything used is declared and nothing leads back to itself. -/
  succeeds : (∃ names, order s.isLeaf s.fallback table = .ok names) ↔
    (∀ name type, Uses s.isLeaf s.fallback table name type → type ∈ table.keys) ∧
      ∀ name, ¬TransGen (Uses s.isLeaf s.fallback table) name name
  /-- Then it has each name once, behind all that it uses, -/
  ordered : ∀ names, order s.isLeaf s.fallback table = .ok names →
    names.Perm table.keys ∧ Ordered s.isLeaf s.fallback table names
  /-- and in this order no layout misses a type. -/
  known : ∀ names, order s.isLeaf s.fallback table = .ok names → ∀ type context,
    (layoutAll s table names).error ≠ some (.unknownType type context)
  /-- Otherwise the error lists the names that lead into a circle or to a type that is not declared. -/
  unresolved : ∀ e, order s.isLeaf s.fallback table = .error e →
    ∃ names types, e = .unresolved (.typedefs names types) ∧ names.Sublist table.keys ∧
      ∀ name, name ∈ names ↔ name ∈ table.keys ∧ Doomed s.isLeaf s.fallback table name

theorem order_sorted (s : Scope) {table : Entries TypedefDecl} (hkeys : table.keys.Nodup) :
    Sorted s table := by
  have ending : OrderEnding s.isLeaf s.fallback table (order s.isLeaf s.fallback table) :=
    order_ending hkeys
  have finished : ∀ names, order s.isLeaf s.fallback table = .ok names →
      Placed s.isLeaf s.fallback table names [] := by
    intro names h
    rw [h] at ending
    cases ending with
    | finished hp => exact hp
  refine ⟨⟨?_, fun ⟨hdeclared, hacyclic⟩ => ?_⟩, fun names h => ?_, fun names h type context => ?_,
    fun e h => ?_⟩
  · rintro ⟨names, h⟩
    have hp := finished names h
    have placed : ∀ name, name ∈ names ↔ name ∈ table.keys := fun name => hp.complete.mem_iff
    constructor
    · exact fun name type huses => hp.subset (hp.ordered.uses ((placed name).mpr huses.mem_keys) huses).1
    · intro name hcircle
      obtain ⟨_, huses, _⟩ := Relation.TransGen.head'_iff.mp hcircle
      exact hp.ordered.acyclic ((placed name).mpr huses.mem_keys) hcircle
  · generalize order s.isLeaf s.fallback table = result at ending
    cases ending with
    | @finished names _ => exact ⟨names, rfl⟩
    | @stuck names types pending hp hne hstuck =>
      obtain ⟨e, rest, rfl⟩ := List.exists_cons_of_ne_nil hne
      obtain ⟨hin, type, hleads, hend⟩ := (hp.doomed_iff hkeys hstuck e.1).mp List.mem_cons_self
      rcases hend with hout | hcircle
      · rcases Relation.ReflTransGen.cases_tail hleads with rfl | ⟨_, _, huses⟩
        · exact absurd hin hout
        · exact absurd (hdeclared _ _ huses) hout
      · exact absurd hcircle (hacyclic type)
  · have hp := finished names h
    exact ⟨hp.complete, hp.ordered⟩
  · have hp := finished names h
    have none : ∀ name ∈ ([] : List String), (s.typedefs.get? name).isSome := fun _ h => by cases h
    exact layoutAll_ne_unknownType none hp.ordered hp.subset
  · rw [h] at ending
    cases ending with
    | @stuck names types pending hp _ hstuck =>
      exact ⟨pending.keys, types, rfl, hp.rest.map _, hp.doomed_iff hkeys hstuck⟩

def holding (name type : String) : String × TypedefDecl :=
  (name, ⟨[⟨"item", some type, none, none, []⟩], none, ⟨none, none, []⟩⟩)

/-- A chain against the order of the names, and a typedef that uses itself. -/
def tangled : Entries TypedefDecl :=
  [holding "board" "cell", holding "cell" "word", holding "knot" "knot", holding "word" "uint32_t"]

theorem tangled_sorted : tangled.keys.Nodup ∧ Sorted ⟨[], .u8, none, none, [], [], []⟩ tangled :=
  ⟨by decide, order_sorted _ (by decide)⟩

end AddressMap.Typedef
