import AddressMap.Output
import AddressMap.Proofs.FileTree.Frame
import AddressMap.Proofs.Outcome

set_option autoImplicit false

namespace AddressMap.Output

open FileTree

variable {spared : String → Prop} {t t' : FileTree} {dir : String} {extensions : List String}

theorem keeps_ensureDirectory (h : ran (ensureDirectory dir) t = (.ok (), t')) : Keeps spared t t' := by
  unfold ensureDirectory at h
  rw [ran_bind, ran_get] at h
  dsimp only at h
  split at h
  · have made : Keeps spared t (t.makeDirectories dir).2 := keeps_makeDirectoriesFrom t _ _
    rw [ran_bind, ran_set] at h
    dsimp only at h
    split at h
    · cases h
    · cases h
      exact made
  · cases h
    exact .refl _ t

theorem keeps_clean (ht : t.Listed) {removed : Nat} (h : ran (clean dir extensions) t = (.ok removed, t')) :
    Keeps (fun name => ¬ isGenerated extensions name) t t' := by
  unfold clean at h
  rw [ran_bind, ran_get] at h
  dsimp only at h
  split at h
  · cases h
  · split at h
    · cases h
      exact keeps_removeFiles ht (fun name hname hs => hs hname) _
    · cases h

theorem writeFile_eq_ok {file : String × String} {path : String} (h : ran (writeFile dir file) t = (.ok path, t')) :
    path = Path.join dir file.1 ∧ t.writeFile? (Path.join dir file.1) file.2 = some t' := by
  unfold writeFile at h
  rw [ran_bind, ran_get] at h
  dsimp only at h
  split at h
  · rename_i hsome
    cases h
    exact ⟨rfl, hsome⟩
  · cases h

/-- Every file is in the directory, and the paths written are theirs. -/
structure Wrote (dir : String) (files : FileSet) (t : FileTree) (written : List String) : Prop where
  paths : written = files.map fun file => Path.join dir file.1
  holds : ∀ file ∈ files, t.Holds dir file

theorem wrote_mapM {files : FileSet} {written : List String}
    (h : ran (files.mapM (writeFile dir)) t = (.ok written, t')) (hs : ∀ file ∈ files, IsStep file.1)
    (fresh : files.keys.Nodup) :
    Keeps (· ∉ files.keys) t t' ∧ Wrote dir files t' written := by
  -- Each file keeps its name from the files behind it, which have other ones.
  induction files generalizing t written with
  | nil =>
    cases h
    exact ⟨.refl _ _, rfl, nofun⟩
  | cons file rest ih =>
    rw [List.mapM_cons] at h
    obtain ⟨path, t₁, hfile, h⟩ := ran_bind_eq_ok.mp h
    obtain ⟨paths, t₂, hrest, h⟩ := ran_bind_eq_ok.mp h
    cases h
    obtain ⟨hstep, hsteps⟩ := List.forall_mem_cons.mp hs
    obtain ⟨hnew, hfresh⟩ := List.nodup_cons.mp fresh
    obtain ⟨rfl, hwritten⟩ := writeFile_eq_ok hfile
    obtain ⟨keepsFile, holdsFile⟩ := keeps_writeFile? hstep hwritten
    obtain ⟨keepsRest, rfl, holdsRest⟩ := ih hrest hsteps hfresh
    refine ⟨?_, rfl, List.forall_mem_cons.mpr ⟨keepsRest.holds hnew holdsFile, holdsRest⟩⟩
    exact (keepsFile.mono fun name hname heq => hname (heq ▸ List.mem_cons_self)).trans
      (keepsRest.mono fun name hname hin => hname (List.mem_cons_of_mem _ hin))

/-- Generated names stay apart from all that is neither removed nor replaced. -/
theorem wrote_write (ht : t.Listed) {files : FileSet} {cleanFirst : Bool} {written : List String}
    (h : ran (write dir files cleanFirst extensions) t = (.ok written, t')) (hs : ∀ file ∈ files, IsStep file.1)
    (hg : ∀ file ∈ files, isGenerated extensions file.1) (fresh : files.keys.Nodup) :
    Keeps (fun name => ¬ isGenerated extensions name) t t' ∧ Wrote dir files t' written := by
  obtain ⟨⟨⟩, t₁, hmade, h⟩ := ran_bind_eq_ok.mp h
  have made : Keeps (fun name => ¬ isGenerated extensions name) t t₁ := keeps_ensureDirectory hmade
  have cleaned : ∃ t₂, Keeps (fun name => ¬ isGenerated extensions name) t₁ t₂ ∧
      ran (files.mapM (writeFile dir)) t₂ = (.ok written, t') := by
    cases cleanFirst with
    | false => exact ⟨t₁, .refl _ _, h⟩
    | true =>
      obtain ⟨⟨⟩, t₂, hclean, h⟩ := ran_bind_eq_ok.mp h
      obtain ⟨removed, hclean, -⟩ := ran_map_eq_ok.mp hclean
      exact ⟨t₂, keeps_clean (made.listed ht) hclean, h⟩
  obtain ⟨t₂, cleaned, h⟩ := cleaned
  obtain ⟨keeps, wrote⟩ := wrote_mapM h hs fresh
  refine ⟨(made.trans cleaned).trans (keeps.mono fun name hname hin => hname ?_), wrote⟩
  obtain ⟨file, hfile, rfl⟩ := List.mem_map.mp hin
  exact hg file hfile

end AddressMap.Output
