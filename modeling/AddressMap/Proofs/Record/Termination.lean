import AddressMap.Proofs.Record.Outline
import AddressMap.Proofs.Record.Route
import Mathlib.Data.List.Perm.Subperm
import Mathlib.Logic.Relation

set_option autoImplicit false

/-!
A walk goes from a typedef to the typedefs that its elements are of. Where all of them are there and none
leads back to itself, the typedefs on the way down are different ones, so no way is longer than the table:
the bound on the depth is never met, and every walk comes to its end.
-/

namespace AddressMap

open Relation (TransGen)

def Typedef.Holds (t : Typedef) (type : String) : Prop := ∃ e ∈ t.elements, e.kind = .typedef type

def Element.Known (table : TypeTable) (e : Element) : Prop :=
  match e.kind with
  | .primitive _ | .enumeration _ => True
  | .bitfield name => (table.bitfields.get? name).isSome
  | .typedef name => (table.typedefs.get? name).isSome

namespace TypeTable

def Holds (table : TypeTable) (name type : String) : Prop :=
  ∃ t, table.typedefs.get? name = some t ∧ t.Holds type

def Closed (table : TypeTable) : Prop :=
  ∀ name t, table.typedefs.get? name = some t → ∀ e ∈ t.elements, e.Known table

/-- No typedef leads back to itself. -/
def Acyclic (table : TypeTable) : Prop := ∀ name, ¬TransGen table.Holds name name

end TypeTable

namespace Walk

def itemPlaces (p : Place) (e : Element) (c : Cursor) : List Place :=
  match e.count with
  | none => [p.enter e.name]
  | some size => itemsFrom p e size c.uid 0 size

def itemStart (e : Element) (c : Cursor) : Cursor :=
  match e.count with
  | none => c
  | some _ => { c with uid := c.uid + 1 }

theorem sequence_singleton {α : Type} (step : α → Cursor → Step) (x : α) (c : Cursor) :
    sequence step [x] c = step x c := by
  simp only [sequence]
  cases step x c with
  | error e => rfl
  | ok r => exact congrArg (fun records => Except.ok (records, r.2)) (List.append_nil r.1)

theorem eachItem_eq (p : Place) (e : Element) (body : Place → Cursor → Step) (c : Cursor) :
    eachItem p e body c = sequence body (itemPlaces p e c) (itemStart e c) := by
  unfold eachItem itemPlaces itemStart
  cases e.count with
  | none => exact (sequence_singleton body _ c).symm
  | some size => rfl

/-- The walk through elements at their places, as a run without any bound on its depth. It is finite, and
    it comes to these records and this cursor. -/
inductive Visits (table : TypeTable) : List (Place × Element) → Cursor → List Record × Cursor → Prop
  | nil {c : Cursor} : Visits table [] c ([], c)
  | item {p : Place} {e : Element} {rest : List (Place × Element)} {c next last : Cursor}
      {rs ss : List Record} (hk : e.isItem) (hitems : eachItem p e (leaf e) c = .ok (rs, next))
      (hrest : Visits table rest next (ss, last)) : Visits table ((p, e) :: rest) c (rs ++ ss, last)
  | bits {p : Place} {e : Element} {rest : List (Place × Element)} {c next last : Cursor}
      {rs ss : List Record} {name : String} {b : Bitfield} (hk : e.kind = .bitfield name)
      (hb : table.bitfields.get? name = some b)
      (hitems : eachItem ((p.inherit e.props).inherit b.props) e (bits b) c = .ok (rs, next))
      (hrest : Visits table rest next (ss, last)) : Visits table ((p, e) :: rest) c (rs ++ ss, last)
  | typedef {p : Place} {e : Element} {rest : List (Place × Element)} {c next last : Cursor}
      {rs ss : List Record} {name : String} {t : Typedef} (hk : e.kind = .typedef name)
      (ht : table.typedefs.get? name = some t)
      (hitems : Visits table
        ((itemPlaces ((p.inherit e.props).inherit t.props) e c).flatMap fun q => t.elements.map (q, ·))
        (itemStart e c) (rs, next))
      (hrest : Visits table rest next (ss, last)) : Visits table ((p, e) :: rest) c (rs ++ ss, last)

section Runs

variable {table : TypeTable} {depth : Nat}

def RunsOn (table : TypeTable) (step : Cursor → Step) (visited : List (Place × Element)) : Prop :=
  ∀ c rs next, step c = .ok (rs, next) → ∀ rest ss last, Visits table rest next (ss, last) →
    Visits table (visited ++ rest) c (rs ++ ss, last)

theorem sequence_runsOn {α : Type} {step : α → Cursor → Step} {visited : α → List (Place × Element)}
    {xs : List α} (h : ∀ x ∈ xs, RunsOn table (step x) (visited x)) :
    RunsOn table (sequence step xs) (xs.flatMap visited) := by
  induction xs with
  | nil =>
    intro c rs next hstep rest ss last hrest
    cases hstep
    exact hrest
  | cons x xs ih =>
    intro c rs next hstep rest ss last hrest
    rw [List.forall_mem_cons] at h
    simp only [sequence] at hstep
    split at hstep
    · cases hstep
    rename_i records middle hfirst
    obtain ⟨⟨tail, stop⟩, htail, heq⟩ := map_eq_ok.mp hstep
    cases heq
    have later := ih h.2 middle tail stop htail rest ss last hrest
    rw [List.flatMap_cons, List.append_assoc, List.append_assoc]
    exact h.1 c records middle hfirst _ _ last later

theorem visit_runsOn (depth : Nat) (p : Place) (e : Element) :
    RunsOn table (visit table depth p e) [(p, e)] := by
  induction depth using Nat.strongRecOn generalizing p e with
  | _ depth ih =>
    intro c rs next hstep rest ss last hrest
    rcases visit_eq_ok hstep with ⟨hk, h⟩ | ⟨name, b, hk, hb, h⟩ | ⟨name, t, below, hk, ht, rfl, h⟩
    · have hitem : e.isItem := by
        rcases hk with ⟨base, hk⟩ | ⟨name, hk⟩ <;> simp [Element.isItem, hk]
      exact .item hitem h hrest
    · exact .bits hk hb h hrest
    · rw [eachItem_eq] at h
      have elements : ∀ q, RunsOn table (sequence (visit table below q) t.elements) (t.elements.map (q, ·)) := by
        intro q
        have each := sequence_runsOn fun f (_ : f ∈ t.elements) => ih below (Nat.lt_succ_self below) q f
        rwa [← List.map_eq_flatMap] at each
      have inside := sequence_runsOn (fun q _ => elements q) _ rs next h [] [] next .nil
      rw [List.append_nil, List.append_nil] at inside
      exact .typedef hk ht inside hrest

theorem visits_of_flatten {root : Typedef} {uid next : Nat} {rs : List Record}
    (h : flatten table root uid = .ok (rs, next)) : ∃ last : Cursor, last.uid = next ∧
      Visits table (root.elements.map (⟨none, root.props, []⟩, ·)) ⟨0, uid⟩ (rs, last) := by
  obtain ⟨⟨records, last⟩, hwalk, heq⟩ := map_eq_ok.mp h
  cases heq
  have each : RunsOn table (sequence (visit table table.typedefs.length ⟨none, root.props, []⟩) root.elements)
      (root.elements.flatMap fun e => [(⟨none, root.props, []⟩, e)]) :=
    sequence_runsOn fun e _ => visit_runsOn table.typedefs.length ⟨none, root.props, []⟩ e
  have run := each _ _ _ hwalk [] [] last .nil
  rw [← List.map_eq_flatMap, List.append_nil, List.append_nil] at run
  exact ⟨last, rfl, run⟩

end Runs

def Returns (step : Cursor → Step) : Prop := ∀ c, ∃ r, step c = .ok r

theorem sequence_returns {α : Type} {step : α → Cursor → Step} {xs : List α} (h : ∀ x ∈ xs, Returns (step x)) :
    Returns (sequence step xs) := by
  induction xs with
  | nil => exact fun c => ⟨([], c), rfl⟩
  | cons x xs ih =>
    intro c
    rw [List.forall_mem_cons] at h
    obtain ⟨⟨rs, next⟩, hfirst⟩ := h.1 c
    obtain ⟨⟨ss, last⟩, hrest⟩ := ih h.2 next
    exact ⟨(rs ++ ss, last), by simp only [sequence, hfirst, hrest, Except.map]⟩

theorem eachItem_returns {body : Place → Cursor → Step} (h : ∀ q, Returns (body q)) (p : Place) (e : Element) :
    Returns (eachItem p e body) := by
  intro c
  rw [eachItem_eq]
  exact sequence_returns (fun q _ => h q) _

/-- The typedefs on the way to an element are different ones, each of them leading to the element's own.
    With so many levels left as the table has other typedefs, the visit finds all that it looks for. -/
theorem visit_returns {table : TypeTable} (hc : table.Closed) (ha : table.Acyclic) (depth : Nat)
    {above : List String} (hdistinct : above.Nodup) (hin : above ⊆ table.typedefs.keys)
    (hroom : table.typedefs.length ≤ above.length + depth) (p : Place) {e : Element} (he : e.Known table)
    (hleads : ∀ type, e.kind = .typedef type → ∀ name ∈ above, TransGen table.Holds name type) :
    Returns (visit table depth p e) := by
  induction depth using Nat.strongRecOn generalizing above p e with
  | _ depth ih =>
    unfold Element.Known at he
    cases hk : e.kind with
    | primitive base =>
      have step : visit table depth p e = eachItem p e (leaf e) := congrFun (visit_leaf (.inl ⟨base, hk⟩)) p
      exact step ▸ eachItem_returns (fun _ _ => ⟨_, rfl⟩) p e
    | enumeration name =>
      have step : visit table depth p e = eachItem p e (leaf e) := congrFun (visit_leaf (.inr ⟨name, hk⟩)) p
      exact step ▸ eachItem_returns (fun _ _ => ⟨_, rfl⟩) p e
    | bitfield name =>
      rw [hk] at he
      obtain ⟨b, hb⟩ := Option.isSome_iff_exists.mp he
      have step : visit table depth p e = eachItem ((p.inherit e.props).inherit b.props) e (bits b) :=
        congrFun (visit_bits hk hb) p
      exact step ▸ eachItem_returns (fun _ _ => ⟨_, rfl⟩) _ e
    | typedef name =>
      rw [hk] at he
      obtain ⟨t, ht⟩ := Option.isSome_iff_exists.mp he
      have hkey : name ∈ table.typedefs.keys := Entries.mem_keys_of_get? ht
      -- A typedef that is on the way already would lead back to itself.
      have hnew : (name :: above).Nodup :=
        List.nodup_cons.mpr ⟨fun hmem => ha name (hleads name hk name hmem), hdistinct⟩
      have hsub : name :: above ⊆ table.typedefs.keys := List.cons_subset.mpr ⟨hkey, hin⟩
      have hcount : (name :: above).length ≤ table.typedefs.length := by
        have hle := (hnew.subperm hsub).length_le
        rwa [Entries.keys, List.length_map] at hle
      rw [List.length_cons] at hcount
      obtain ⟨below, rfl⟩ : ∃ below, depth = below + 1 := ⟨depth - 1, by omega⟩
      have elements : ∀ q, Returns (sequence (visit table below q) t.elements) := by
        refine fun q => sequence_returns fun f hf => ?_
        refine ih below (Nat.lt_succ_self below) hnew hsub ?_ q (hc name t ht f hf) ?_
        · rw [List.length_cons]
          omega
        · intro type htype other hother
          have holds : table.Holds name type := ⟨t, ht, f, hf, htype⟩
          rcases List.mem_cons.mp hother with rfl | hother
          · exact .single holds
          · exact (hleads name hk other hother).tail holds
      have step : visit table (below + 1) p e = eachItem ((p.inherit e.props).inherit t.props) e
          (fun q => sequence (visit table below q) t.elements) := congrFun (visit_elements hk ht) p
      exact step ▸ eachItem_returns elements _ e

/-- In a table without circles every root typedef is walked through to the end. -/
theorem flatten_returns {table : TypeTable} (hc : table.Closed) (ha : table.Acyclic) {name : String}
    {root : Typedef} (hroot : table.typedefs.get? name = some root) (uid : Nat) :
    ∃ rs next, flatten table root uid = .ok (rs, next) := by
  have elements := sequence_returns fun e he => visit_returns hc ha table.typedefs.length List.nodup_nil
    (List.nil_subset _) (Nat.le_add_left _ _) ⟨none, root.props, []⟩ (hc name root hroot e he)
    (fun _ _ _ hnil => absurd hnil List.not_mem_nil)
  obtain ⟨⟨rs, last⟩, hwalk⟩ := elements ⟨0, uid⟩
  exact ⟨rs, last.uid, map_eq_ok.mpr ⟨(rs, last), hwalk, rfl⟩⟩

end Walk

end AddressMap
