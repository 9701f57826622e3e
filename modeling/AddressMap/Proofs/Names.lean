import AddressMap.Metadata
import AddressMap.Proofs.Outcome
import Mathlib.Data.List.Duplicate

set_option autoImplicit false

namespace AddressMap

theorem checkUnique_eq_ok {owner : String} {names : List String} :
    checkUnique owner names = .ok () ↔ names.Nodup := by
  have go : ∀ seen, checkUnique.go owner seen names = .ok () ↔ names.Nodup ∧ ∀ name ∈ names, name ∉ seen := by
    induction names with
    | nil => simp [checkUnique.go]
    | cons name rest ih =>
      intro seen
      rw [checkUnique.go, guard_eq_ok (by simp), ih, List.nodup_cons]
      rw [List.forall_mem_cons]
      simp only [List.mem_cons, not_or]
      constructor
      · rintro ⟨hseen, hrest, hfresh⟩
        exact ⟨⟨fun hin => (hfresh name hin).1 rfl, hrest⟩, hseen, fun other ho => (hfresh other ho).2⟩
      · rintro ⟨⟨hname, hrest⟩, hseen, hfresh⟩
        exact ⟨hseen, hrest, fun other ho => ⟨fun heq => hname (heq ▸ ho), hfresh other ho⟩⟩
  exact (go []).trans (and_iff_left fun _ _ => List.not_mem_nil)

theorem duplicate_of_checkUnique {owner : String} {names : List String} {e : Error}
    (h : checkUnique owner names = .error e) : ∃ name, e = .duplicate name owner ∧ names.Duplicate name := by
  -- With names seen before, the name is one of them or occurs twice behind them.
  have go : ∀ seen, checkUnique.go owner seen names = .error e →
      ∃ name, e = .duplicate name owner ∧ (name ∈ seen ∧ name ∈ names ∨ names.Duplicate name) := by
    clear h
    induction names with
    | nil =>
      intro seen h
      cases h
    | cons name rest ih =>
      intro seen h
      rw [checkUnique.go] at h
      split at h
      · rename_i hseen
        cases h
        exact ⟨name, rfl, .inl ⟨hseen, List.mem_cons_self⟩⟩
      · obtain ⟨other, rfl, ⟨hin, hrest⟩ | hdup⟩ := ih (name :: seen) h
        · rcases List.mem_cons.mp hin with rfl | hseen
          · exact ⟨other, rfl, .inr (hrest.duplicate_cons_self)⟩
          · exact ⟨other, rfl, .inl ⟨hseen, List.mem_cons_of_mem _ hrest⟩⟩
        · exact ⟨other, rfl, .inr (hdup.duplicate_cons _)⟩
  obtain ⟨name, rfl, ⟨hin, _⟩ | hdup⟩ := go [] h
  · cases hin
  · exact ⟨name, rfl, hdup⟩

end AddressMap
