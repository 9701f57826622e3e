import AddressMap.FileSet
import AddressMap.Proofs.Entries
import Mathlib.Data.List.Nodup
import Mathlib.Tactic.SplitIfs

set_option autoImplicit false

namespace AddressMap

theorem Entries.insert_ascending {α : Type} {es : Entries α} (h : es.keys.Pairwise (· < ·)) (key : String)
    (value : α) : (es.insert key value).keys.Pairwise (· < ·) := by
  induction es with
  | nil => exact List.pairwise_singleton _ _
  | cons e rest ih =>
    obtain ⟨k, v⟩ := e
    obtain ⟨below, hrest⟩ := List.pairwise_cons.mp h
    rw [Entries.insert]
    split_ifs with heq hlt
    · exact heq ▸ h
    · refine List.pairwise_cons.mpr ⟨List.forall_mem_cons.mpr ⟨hlt, fun other hother => ?_⟩, h⟩
      exact String.lt_trans hlt (below other hother)
    · refine List.pairwise_cons.mpr ⟨fun other hother => ?_, ih hrest⟩
      rcases Entries.mem_keys_insert.mp hother with rfl | hin
      · exact String.not_le.mp fun hle => heq (String.le_antisymm (String.not_lt.mp hlt) hle)
      · exact below other hin

namespace FileSet

variable {writes : List (String × String)} {files : FileSet} {name content : String}

theorem get?_foldl_of_not_mem (files : FileSet) (h : name ∉ writes.map (·.1)) :
    (writes.foldl (fun files w => Entries.insert files w.1 w.2) files).get? name = files.get? name := by
  induction writes generalizing files with
  | nil => rfl
  | cons w rest ih =>
    rw [List.map_cons, List.mem_cons, not_or] at h
    rw [List.foldl_cons, ih _ h.2, Entries.get?_insert, if_neg h.1]

theorem get?_foldl_eq (files : FileSet) (hw : (name, content) ∈ writes)
    (h : ∀ w ∈ writes, w.1 = name → w.2 = content) :
    (writes.foldl (fun files w => Entries.insert files w.1 w.2) files).get? name = some content := by
  induction writes generalizing files with
  | nil => cases hw
  | cons w rest ih =>
    obtain ⟨hfirst, hrest⟩ := List.forall_mem_cons.mp h
    rw [List.foldl_cons]
    by_cases hin : name ∈ rest.map (·.1)
    · obtain ⟨⟨_, later⟩, hmem, rfl⟩ := List.mem_map.mp hin
      obtain rfl : later = content := hrest _ hmem rfl
      exact ih _ hmem hrest
    · rw [get?_foldl_of_not_mem _ hin, Entries.get?_insert]
      rcases List.mem_cons.mp hw with rfl | hmem
      · exact if_pos rfl
      · exact absurd (List.mem_map_of_mem hmem) hin

/-- What is found was written, or it was there before and nothing was written under its name. -/
theorem mem_of_get?_foldl
    (h : (writes.foldl (fun files w => Entries.insert files w.1 w.2) files).get? name = some content) :
    (name, content) ∈ writes ∨ name ∉ writes.map (·.1) ∧ files.get? name = some content := by
  induction writes generalizing files with
  | nil => exact .inr ⟨List.not_mem_nil, h⟩
  | cons w rest ih =>
    rcases ih h with hmem | ⟨hout, hfiles⟩
    · exact .inl (List.mem_cons_of_mem _ hmem)
    · rw [Entries.get?_insert] at hfiles
      split at hfiles
      · rename_i hname
        cases hfiles
        exact .inl (List.mem_cons.mpr (.inl (Prod.ext hname rfl)))
      · rename_i hname
        exact .inr ⟨fun hmem => (List.mem_cons.mp hmem).elim hname hout, hfiles⟩

theorem mem_keys_foldl : name ∈ Entries.keys (writes.foldl (fun files w => Entries.insert files w.1 w.2) files) ↔
    name ∈ writes.map (·.1) ∨ name ∈ files.keys := by
  induction writes generalizing files with
  | nil => simp
  | cons w rest ih =>
    rw [List.foldl_cons, ih, Entries.mem_keys_insert, List.map_cons, List.mem_cons]
    exact or_left_comm.trans or_assoc.symm

theorem mem_keys_ofWrites : name ∈ (ofWrites writes).keys ↔ name ∈ writes.map (·.1) :=
  mem_keys_foldl.trans (or_iff_left List.not_mem_nil)

theorem mem_names_of_mem {file : String × String} (h : file ∈ ofWrites writes) : file.1 ∈ writes.map (·.1) :=
  mem_keys_ofWrites.mp (List.mem_map_of_mem h)

theorem ascending_ofWrites (writes : List (String × String)) : (ofWrites writes).keys.Pairwise (· < ·) := by
  unfold ofWrites
  have fold : ∀ files : FileSet, files.keys.Pairwise (· < ·) →
      (Entries.keys (writes.foldl (fun files w => Entries.insert files w.1 w.2) files)).Pairwise (· < ·) := by
    induction writes with
    | nil => exact fun _ h => h
    | cons w rest ih => exact fun files h => ih _ (Entries.insert_ascending h w.1 w.2)
  exact fold [] .nil

theorem nodup_keys_ofWrites (writes : List (String × String)) : (ofWrites writes).keys.Nodup :=
  (ascending_ofWrites writes).imp String.ne_of_lt

/-- Every file has a name of its own and is found under it. -/
structure Complete (writes : List (String × String)) : Prop where
  fresh : (writes.map (·.1)).Nodup
  kept : ∀ w ∈ writes, (ofWrites writes).get? w.1 = some w.2

theorem complete_iff_nodup : Complete writes ↔ (writes.map (·.1)).Nodup := by
  refine ⟨Complete.fresh, fun h => ⟨h, fun w hw => get?_foldl_eq [] hw fun other hother heq => ?_⟩⟩
  rw [List.inj_on_of_nodup_map h hother hw heq]

end FileSet

end AddressMap
