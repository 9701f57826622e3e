import AddressMap.Merge
import AddressMap.Proofs.Entries.Layer
import AddressMap.Proofs.Value.Distinct

set_option autoImplicit false

namespace AddressMap

theorem Value.distinct_object_merge {es : Props} (h : ∀ e ∈ es, e.2.distinct) :
    (Value.object (Entries.merge [] es)).distinct := by
  have empty : (Entries.keys ([] : Props)).Nodup := List.nodup_nil
  refine distinct_object.mpr ⟨Entries.nodup_keys_merge empty es, distinctEntries_iff.mpr fun e he => ?_⟩
  rcases Entries.mem_merge he with hnil | he
  · cases hnil
  · exact h e he

namespace Yaml

/-- What some run of the work returns. -/
def Returns {α : Type} (work : Unfolding α) (a : α) : Prop := ∃ left left', work left = some (a, left')

theorem returns_bind {α β : Type} {work : Unfolding α} {next : α → Unfolding β} {b : β}
    (h : Returns (work >>= next) b) : ∃ a, Returns work a ∧ Returns (next a) b := by
  obtain ⟨left, left', hrun⟩ := h
  change (work left).bind (fun r => next r.1 r.2) = some (b, left') at hrun
  obtain ⟨⟨a, middle⟩, ha, hb⟩ := Option.bind_eq_some_iff.mp hrun
  exact ⟨a, ⟨left, middle, ha⟩, ⟨middle, left', hb⟩⟩

theorem returns_pure {α : Type} {a b : α} (h : Returns (pure a : Unfolding α) b) : a = b := by
  obtain ⟨left, left', hrun⟩ := h
  exact (Prod.ext_iff.mp (Option.some.inj hrun)).1

theorem mem_of_returns_mapM {α β : Type} {f : α → Unfolding β} {xs : List α} {ys : List β}
    (h : Returns (xs.mapM f) ys) {y : β} (hy : y ∈ ys) : ∃ x ∈ xs, Returns (f x) y := by
  induction xs generalizing ys with
  | nil =>
    rw [List.mapM_nil] at h
    rw [← returns_pure h] at hy
    cases hy
  | cons x rest ih =>
    rw [List.mapM_cons] at h
    obtain ⟨first, hfirst, h⟩ := returns_bind h
    obtain ⟨others, hothers, h⟩ := returns_bind h
    rw [← returns_pure h] at hy
    rcases List.mem_cons.mp hy with rfl | hy
    · exact ⟨x, List.mem_cons_self, hfirst⟩
    · obtain ⟨x', hx', hread⟩ := ih hothers hy
      exact ⟨x', List.mem_cons_of_mem _ hx', hread⟩

theorem ofFloat_distinct (x : Float) : (Value.ofFloat x).distinct := by
  unfold Value.ofFloat
  split <;> rfl

theorem plainValue?_distinct {text : String} {v : Value} (h : plainValue? text = some v) : v.distinct := by
  unfold plainValue? at h
  split at h
  all_goals cases h
  all_goals first
    | rfl
    | exact ofFloat_distinct _

theorem taggedValue?_distinct {tag text : String} {v : Value} (h : taggedValue? tag text = some v) : v.distinct := by
  unfold taggedValue? numberValue? at h
  split at h
  · cases h
  split at h
  · obtain ⟨b, _, rfl⟩ := Option.map_eq_some_iff.mp h
    rfl
  split at h
  · split at h
    · cases h
      rfl
    · cases h
  split at h
  · obtain ⟨x, _, rfl⟩ := Option.map_eq_some_iff.mp h
    exact ofFloat_distinct x
  split at h
  · split at h
    · cases h
      rfl
    · cases h
  · cases h
    rfl

theorem scalarValue?_distinct {marks : Marks} {plainStyle : Bool} {text : String} {v : Value}
    (h : scalarValue? marks plainStyle text = some v) : v.distinct := by
  unfold scalarValue? at h
  split at h
  · exact taggedValue?_distinct h
  split at h
  · exact plainValue?_distinct h
  · cases h
    rfl

theorem not_returns_none {α : Type} {a : α} (h : Returns (fun _ => none : Unfolding α) a) : False := by
  obtain ⟨_, _, hrun⟩ := h
  cases hrun

theorem scalar_distinct {marks : Marks} {plainStyle : Bool} {text : String} {v : Value}
    (h : Returns (fun left => (scalarValue? marks plainStyle text).map fun v => (v, left)) v) : v.distinct := by
  obtain ⟨_, _, hrun⟩ := h
  obtain ⟨v', hv', heq⟩ := Option.map_eq_some_iff.mp hrun
  cases heq
  exact scalarValue?_distinct hv'

/-- The value of a node has distinct keys, however deep it is unfolded. -/
theorem data_distinct {root : Node} {depth : Nat} {node : Node} {v : Value}
    (h : Returns (data root depth node) v) : v.distinct := by
  induction depth generalizing node v with
  | zero =>
    cases node with
    | scalar marks plainStyle text => exact scalar_distinct h
    | _ => exact (not_returns_none h).elim
  | succ depth ih =>
    cases node with
    | reference slot => exact (not_returns_none h).elim
    | scalar marks plainStyle text => exact scalar_distinct h
    | sequence marks items =>
      rw [data] at h
      split at h
      · exact (not_returns_none h).elim
      obtain ⟨xs, hxs, h⟩ := returns_bind h
      rw [← returns_pure h, Value.distinct, Value.distinctItems_iff]
      intro x hx
      obtain ⟨_, _, hread⟩ := mem_of_returns_mapM hxs hx
      obtain ⟨_, _, hdata⟩ := returns_bind hread
      exact ih hdata
    | mapping marks entries =>
      rw [data] at h
      split at h
      · exact (not_returns_none h).elim
      obtain ⟨es, hes, h⟩ := returns_bind h
      rw [← returns_pure h]
      refine Value.distinct_object_merge fun e he => ?_
      obtain ⟨_, _, hread⟩ := mem_of_returns_mapM hes he
      obtain ⟨_, _, hread⟩ := returns_bind hread
      obtain ⟨_, _, hread⟩ := returns_bind hread
      obtain ⟨_, hdata, hpair⟩ := returns_bind hread
      rw [← returns_pure hpair]
      exact ih hdata

theorem read?_distinct {text : String} {v : Value} (h : read? text = some v) : v.distinct := by
  unfold read? Node.value? at h
  simp only [Option.bind_eq_bind, Option.bind_eq_some_iff, Option.map_eq_some_iff] at h
  obtain ⟨_, _, root, _, ⟨_, left⟩, hrun, rfl⟩ := h
  exact data_distinct ⟨_, left, hrun⟩

end Yaml

namespace Description

theorem checkSection_eq_ok {name : String} {v : Value} {s : String × Props} (h : checkSection name v = .ok s) :
    s.1 = name ∧ (v = .object s.2 ∨ s.2 = []) := by
  unfold checkSection at h
  split at h
  · cases h
  split at h
  · cases h
    exact ⟨rfl, .inl rfl⟩
  · cases h
    exact ⟨rfl, .inr rfl⟩
  · cases h

theorem mapM_checkSection {es : Props} {sections : Entries Props}
    (h : es.mapM (fun e => checkSection e.1 e.2) = .ok sections) :
    sections.keys = Entries.keys es ∧ ∀ s ∈ sections, s.2 = [] ∨ ∃ e ∈ es, e.2 = .object s.2 := by
  induction es generalizing sections with
  | nil =>
    cases h
    exact ⟨rfl, by simp⟩
  | cons e rest ih =>
    rw [List.mapM_cons] at h
    obtain ⟨first, hfirst, h⟩ := bind_eq_ok.mp h
    obtain ⟨others, hothers, h⟩ := bind_eq_ok.mp h
    cases h
    obtain ⟨name, entries⟩ := checkSection_eq_ok hfirst
    obtain ⟨names, each⟩ := ih hothers
    refine ⟨congrArg₂ List.cons name names, List.forall_mem_cons.mpr ⟨?_, fun s hs => ?_⟩⟩
    · rcases entries with hobject | hnil
      · exact .inr ⟨e, List.mem_cons_self, hobject⟩
      · exact .inl hnil
    · rcases each s hs with hnil | ⟨e', he', hobject⟩
      · exact .inl hnil
      · exact .inr ⟨e', List.mem_cons_of_mem _ he', hobject⟩

theorem outline_distinct {v : Value} (hv : v.distinct) {sections : Entries Props} (h : outline v = .ok sections) :
    sections.keys.Nodup ∧ ∀ s ∈ sections, s.2.keys.Nodup := by
  unfold outline at h
  split at h
  · rename_i es
    obtain ⟨names, each⟩ := mapM_checkSection h
    obtain ⟨keys, inside⟩ := Value.distinct_object.mp hv
    refine ⟨names ▸ keys, fun s hs => ?_⟩
    rcases each s hs with hnil | ⟨e, he, hobject⟩
    · rw [hnil]
      exact List.nodup_nil
    · have within := Value.distinct_of_mem inside he
      rw [hobject] at within
      exact (Value.distinct_object.mp within).1
  · cases h
    exact ⟨List.nodup_nil, fun _ hs => absurd hs List.not_mem_nil⟩
  · cases h

/-- A file names each of its sections once, and each key of a section. -/
theorem readFile_distinct {path : String} {text : Option String} {sections : Entries Props}
    (h : readFile path text = .ok sections) : sections.keys.Nodup ∧ ∀ s ∈ sections, s.2.keys.Nodup := by
  unfold readFile at h
  split at h
  · cases h
  split at h
  · cases h
    exact ⟨List.nodup_nil, fun _ hs => absurd hs List.not_mem_nil⟩
  split at h
  · cases h
  rename_i v hread
  cases hout : outline v with
  | error fault =>
    rw [hout] at h
    cases h
  | ok found =>
    rw [hout] at h
    cases h
    exact outline_distinct (Yaml.read?_distinct hread) hout

end Description

end AddressMap
