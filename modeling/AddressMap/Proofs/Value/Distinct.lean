import AddressMap.Proofs.Entries
import AddressMap.Proofs.Resolution.Stages

set_option autoImplicit false

namespace AddressMap

namespace Value

mutual

def distinct : Value → Bool
  | .array xs => distinctItems xs
  | .object es => decide (Entries.keys es).Nodup && distinctEntries es
  | _ => true

def distinctItems : List Value → Bool
  | [] => true
  | x :: xs => x.distinct && distinctItems xs

def distinctEntries : List (String × Value) → Bool
  | [] => true
  | (_, x) :: es => x.distinct && distinctEntries es

end

theorem distinctItems_iff {xs : List Value} : distinctItems xs ↔ ∀ x ∈ xs, x.distinct := by
  induction xs with
  | nil => simp [distinctItems]
  | cons x rest ih => rw [distinctItems, Bool.and_eq_true, ih, List.forall_mem_cons]

theorem distinctEntries_iff {es : Props} : distinctEntries es ↔ ∀ e ∈ es, e.2.distinct := by
  induction es with
  | nil => simp [distinctEntries]
  | cons e rest ih =>
    obtain ⟨k, v⟩ := e
    rw [distinctEntries, Bool.and_eq_true, ih, List.forall_mem_cons]

theorem distinct_of_mem {es : Entries Value} (h : distinctEntries es) {e : String × Value} (he : e ∈ es) :
    e.2.distinct :=
  distinctEntries_iff.mp h e he

theorem distinct_object {es : Entries Value} :
    (Value.object es).distinct ↔ (Entries.keys es).Nodup ∧ distinctEntries es := by
  rw [distinct, Bool.and_eq_true, decide_eq_true_eq]

end Value

namespace Description

/-- Mappings are written with distinct keys. -/
def WellFormed (d : Description) : Prop := (Value.object d.sections).distinct

theorem WellFormed.entries {d : Description} (h : d.WellFormed) (s : Section) :
    (Value.object (d.entries s)).distinct := by
  unfold Description.entries section?
  split
  · rename_i es hes
    exact Value.distinct_of_mem (Value.distinct_object.mp h).2 (Entries.mem_of_get? hes)
  · rfl

end Description

end AddressMap
