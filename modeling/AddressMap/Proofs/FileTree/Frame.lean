import AddressMap.FileTree
import AddressMap.Proofs.Path
import Mathlib.Data.List.Nodup

set_option autoImplicit false

/-!
Making directories, removing files and writing a file leave every directory in its place. A file stays as well
unless the change is about its name, so what a name is spared from can be said without looking at the place.
-/

namespace AddressMap.FileTree

def Listed (t : FileTree) : Prop := (t.items.map (·.1)).Nodup

theorem lookup_append (items more : List (Location × FileItem)) (l : Location) :
    lookup (items ++ more) l = (lookup items l).or (lookup more l) := by
  induction items with
  | nil => rfl
  | cons e rest ih =>
    rw [List.cons_append, lookup, lookup]
    split
    · rfl
    · exact ih

theorem lookup_filter {p : Location → Bool} {l : Location} (h : p l) (items : List (Location × FileItem)) :
    lookup (items.filter fun e => p e.1) l = lookup items l := by
  induction items with
  | nil => rfl
  | cons e rest ih =>
    obtain ⟨place, item⟩ := e
    rw [List.filter_cons, lookup]
    split
    · rw [lookup, ih]
    · rename_i hp
      rw [ih, if_neg fun heq : place = l => hp (heq ▸ h)]

theorem lookup_eq_none {items : List (Location × FileItem)} {l : Location} (h : l ∉ items.map (·.1)) :
    lookup items l = none := by
  induction items with
  | nil => rfl
  | cons e rest ih =>
    rw [List.map_cons, List.mem_cons, not_or] at h
    rw [lookup, if_neg (Ne.symm h.1), ih h.2]

theorem lookup_of_mem {items : List (Location × FileItem)} (h : (items.map (·.1)).Nodup) {l : Location}
    {item : FileItem} (hmem : (l, item) ∈ items) : lookup items l = some item := by
  induction items with
  | nil => cases hmem
  | cons e rest ih =>
    obtain ⟨place, other⟩ := e
    rw [List.map_cons, List.nodup_cons] at h
    rcases List.mem_cons.mp hmem with heq | hrest
    · cases heq
      exact if_pos rfl
    · have apart : place ≠ l := fun heq => h.1 (List.mem_map.mpr ⟨_, hrest, heq.symm⟩)
      rw [lookup, if_neg apart, ih h.2 hrest]

theorem last_inj {l l' : Location} {name name' : String} (h : l ++ [name] = l' ++ [name']) : name = name' :=
  List.head_eq_of_cons_eq (List.append_inj_right' h rfl)

theorem item?_of_ne_root (t : FileTree) {l : Location} (h : l ≠ []) : t.item? l = lookup t.items l := if_neg h

theorem item?_put_self (t : FileTree) {l : Location} (h : l ≠ []) (item : FileItem) :
    (t.put l item).item? l = some item := by
  have gone : lookup (t.items.filter fun e => e.1 ≠ l) l = none := lookup_eq_none (by simp)
  rw [item?_of_ne_root _ h, put, lookup_append, gone, Option.none_or, lookup, if_pos rfl]

theorem item?_put_of_ne (t : FileTree) {l other : Location} (h : other ≠ l) (item : FileItem) :
    (t.put l item).item? other = t.item? other := by
  unfold item?
  split
  · rfl
  · rw [put, lookup_append, lookup_filter (p := fun place => place ≠ l) (by simpa using h), lookup, if_neg h.symm]
    exact Option.or_none

theorem item?_removeFiles_of_not_mem (t : FileTree) {files : List Location} {l : Location} (h : l ∉ files) :
    (t.removeFiles files).item? l = t.item? l := by
  unfold item?
  split
  · rfl
  · exact lookup_filter (p := fun place => !files.contains place) (by simpa using h) t.items

theorem Listed.put {t : FileTree} (h : t.Listed) (l : Location) (item : FileItem) : (t.put l item).Listed := by
  unfold Listed FileTree.put
  rw [List.map_append, List.nodup_append']
  refine ⟨h.sublist (List.filter_sublist.map _), List.nodup_singleton _, ?_⟩
  simp

theorem Listed.removeFiles {t : FileTree} (h : t.Listed) (files : List Location) : (t.removeFiles files).Listed :=
  h.sublist (List.filter_sublist.map _)

theorem mem_filesIn {t : FileTree} (ht : t.Listed) {l place : Location} {p : String → Bool}
    (h : place ∈ t.filesIn l p) :
    ∃ name text, place = l ++ [name] ∧ p name ∧ t.item? place = some (.file text) := by
  obtain ⟨⟨spot, item⟩, hmem, hsome⟩ := List.mem_filterMap.mp h
  dsimp only at hsome
  split at hsome
  · rename_i text name hlast
    split at hsome
    · rename_i hcond
      obtain rfl := Option.some.inj hsome
      obtain ⟨hdir, hname⟩ := Bool.and_eq_true_iff.mp hcond
      have split := List.dropLast_append_getLast? name hlast
      rw [of_decide_eq_true hdir] at split
      refine ⟨name, text, split.symm, hname, ?_⟩
      rw [item?_of_ne_root _ (by simp [← split]), lookup_of_mem ht hmem]
    · cases hsome
  · cases hsome

/-- A name that leads one step down, also at the end of a path. -/
structure IsStep (name : String) : Prop where
  slashless : '/' ∉ name.toList
  nonempty : name ≠ ""
  here : name ≠ "."
  up : name ≠ ".."

theorem follow_append (t : FileTree) (here : Location) (front back : List String) :
    t.follow here (front ++ back) = (t.follow here front).bind fun l => t.follow l back := by
  induction front generalizing here with
  | nil => rfl
  | cons name rest ih =>
    simp only [List.cons_append, follow]
    split
    · rfl
    · rfl
    · split_ifs
      · exact ih here
      · exact ih here.dropLast
      · exact ih (here ++ [name])
      · rfl

theorem follow_step_eq_ok {t : FileTree} {here l : Location} {name : String} (h : IsStep name) :
    t.follow here [name] = .ok l ↔ t.item? here = some .directory ∧ isName name ∧ l = here ++ [name] := by
  rw [follow, if_neg (by simpa using h.here), if_neg (by simpa using h.up)]
  split
  · rename_i hnone
    simp [hnone]
  · rename_i text hfile
    simp [hfile]
  · rename_i hdir
    split
    · rename_i hname
      simp [follow, hdir, hname, eq_comm]
    · rename_i hname
      simp [hname]

theorem follow_concat_eq_ok {t : FileTree} {names : List String} {l : Location} {name : String} (h : IsStep name) :
    t.follow [] (names ++ [name]) = .ok l ↔
      ∃ dir, t.follow [] names = .ok dir ∧ t.item? dir = some .directory ∧ isName name ∧ l = dir ++ [name] := by
  rw [follow_append]
  cases t.follow [] names with
  | error fault => simp [Except.bind]
  | ok dir => simp [Except.bind, follow_step_eq_ok h]

theorem locate_join {t : FileTree} (dir : String) {name : String} (h : IsStep name) :
    t.locate [] (Path.join dir name) = t.follow [] (Path.names dir ++ [name]) := by
  rw [locate, Path.join_ne_empty dir h.slashless h.nonempty, if_neg Bool.false_ne_true, ite_self,
    Path.steps_join dir h.slashless h.nonempty]

def Holds (t : FileTree) (dir : String) (file : String × String) : Prop :=
  ∃ l, t.follow [] (Path.names dir) = .ok l ∧ t.item? l = some .directory ∧ isName file.1 ∧
    t.item? (l ++ [file.1]) = some (.file file.2)

theorem Holds.readFile? {t : FileTree} {dir : String} {file : String × String} (h : t.Holds dir file)
    (hs : IsStep file.1) : t.readFile? [] (Path.join dir file.1) = some file.2 := by
  obtain ⟨l, hl, hdir, hname, hfile⟩ := h
  rw [FileTree.readFile?, find?, locate_join dir hs, (follow_concat_eq_ok hs).mpr ⟨l, hl, hdir, hname, rfl⟩]
  dsimp only
  rw [hfile]

theorem writeFile?_eq_some {t t' : FileTree} {dir : String} {file : String × String} (hs : IsStep file.1)
    (h : t.writeFile? (Path.join dir file.1) file.2 = some t') :
    ∃ l, t.follow [] (Path.names dir) = .ok l ∧ t.item? l = some .directory ∧ isName file.1 ∧
      t.isDirectoryAt (l ++ [file.1]) = false ∧ t' = t.put (l ++ [file.1]) (.file file.2) := by
  unfold writeFile? at h
  rw [locate_join dir hs] at h
  split at h
  · cases h
  · rename_i place hplace
    obtain ⟨l, hl, hdir, hname, rfl⟩ := (follow_concat_eq_ok hs).mp hplace
    split at h
    · cases h
    · rename_i hfree
      exact ⟨l, hl, hdir, hname, by simpa using hfree, (Option.some.inj h).symm⟩

/-- Every directory stays, and every file whose name is spared. -/
structure Keeps (spared : String → Prop) (t t' : FileTree) : Prop where
  listed : t.Listed → t'.Listed
  directory : ∀ {l}, t.item? l = some .directory → t'.item? l = some .directory
  file : ∀ {l name text}, spared name → t.item? (l ++ [name]) = some (.file text) →
    t'.item? (l ++ [name]) = some (.file text)

namespace Keeps

variable {spared : String → Prop} {t t' t'' : FileTree}

theorem refl (spared : String → Prop) (t : FileTree) : Keeps spared t t := ⟨id, id, fun _ => id⟩

theorem trans (h : Keeps spared t t') (h' : Keeps spared t' t'') : Keeps spared t t'' :=
  ⟨h'.listed ∘ h.listed, h'.directory ∘ h.directory, fun hs => h'.file hs ∘ h.file hs⟩

theorem mono {fewer : String → Prop} (h : Keeps spared t t') (hs : ∀ name, fewer name → spared name) :
    Keeps fewer t t' :=
  ⟨h.listed, h.directory, fun hf => h.file (hs _ hf)⟩

theorem follow (h : Keeps spared t t') {here l : Location} {names : List String} (hl : t.follow here names = .ok l) :
    t'.follow here names = .ok l := by
  induction names generalizing here with
  | nil => exact hl
  | cons name rest ih =>
    simp only [FileTree.follow] at hl ⊢
    split at hl
    · cases hl
    · cases hl
    · rename_i hdir
      rw [h.directory hdir]
      dsimp only
      split_ifs at hl ⊢
      · exact ih hl
      · exact ih hl
      · exact ih hl

theorem holds (h : Keeps spared t t') {dir : String} {file : String × String} (hs : spared file.1)
    (hf : t.Holds dir file) : t'.Holds dir file := by
  obtain ⟨l, hl, hdir, hname, hfile⟩ := hf
  exact ⟨l, h.follow hl, h.directory hdir, hname, h.file hs hfile⟩

end Keeps

variable {spared : String → Prop} {t t' : FileTree}

theorem keeps_put_directory {l : Location} (h : t.item? l = none) : Keeps spared t (t.put l .directory) := by
  have apart : ∀ {other item}, t.item? other = some item → other ≠ l := by
    rintro other item hsome rfl
    rw [h] at hsome
    cases hsome
  refine ⟨fun ht => ht.put _ _, ?_, ?_⟩
  · intro other hdir
    rw [item?_put_of_ne _ (apart hdir), hdir]
  · intro dir name text _ hfile
    rw [item?_put_of_ne _ (apart hfile), hfile]

theorem keeps_put_file {l : Location} {name : String} (hname : ¬ spared name)
    (h : t.isDirectoryAt (l ++ [name]) = false) (text : String) :
    Keeps spared t (t.put (l ++ [name]) (.file text)) := by
  refine ⟨fun ht => ht.put _ _, ?_, ?_⟩
  · intro other hdir
    rw [item?_put_of_ne, hdir]
    rintro rfl
    simp [isDirectoryAt, hdir] at h
  · intro dir other kept hs hfile
    rw [item?_put_of_ne, hfile]
    intro heq
    exact hname (last_inj heq ▸ hs)

theorem keeps_writeFile? {dir : String} {file : String × String} (hs : IsStep file.1)
    (h : t.writeFile? (Path.join dir file.1) file.2 = some t') :
    Keeps (· ≠ file.1) t t' ∧ t'.Holds dir file := by
  obtain ⟨l, hl, hdir, hname, hfree, rfl⟩ := writeFile?_eq_some hs h
  have keeps : Keeps (· ≠ file.1) t (t.put (l ++ [file.1]) (.file file.2)) := keeps_put_file (fun h => h rfl) hfree _
  refine ⟨keeps, l, keeps.follow hl, keeps.directory hdir, hname, item?_put_self t (by simp) _⟩

theorem keeps_removeFiles (ht : t.Listed) {p : String → Bool} (hp : ∀ name, p name → ¬ spared name) (l : Location) :
    Keeps spared t (t.removeFiles (t.filesIn l p)) := by
  refine ⟨fun ht => ht.removeFiles _, ?_, ?_⟩
  · intro other hdir
    rw [item?_removeFiles_of_not_mem, hdir]
    intro hmem
    obtain ⟨name, text, -, -, hfile⟩ := mem_filesIn ht hmem
    rw [hdir] at hfile
    cases hfile
  · intro dir name text hs hfile
    rw [item?_removeFiles_of_not_mem, hfile]
    intro hmem
    obtain ⟨other, -, heq, hother, -⟩ := mem_filesIn ht hmem
    exact hp _ hother (last_inj heq ▸ hs)

theorem keeps_makeDirectory {names : List String} (h : t.makeDirectory names = .ok t') : Keeps spared t t' := by
  unfold makeDirectory at h
  split at h
  · cases h
  · split at h
    · cases h
    · rename_i hnone
      obtain rfl := Except.ok.inj h
      exact keeps_put_directory (by simpa using hnone)

/-- This holds for directories that cannot be made as well: those that hold them stay when they are made. -/
theorem keeps_makeDirectoriesFrom (t : FileTree) (names : List String) (fuel : Nat) :
    Keeps spared t (t.makeDirectoriesFrom names fuel).2 := by
  induction fuel generalizing t names with
  | zero => exact .refl _ t
  | succ fuel ih =>
    rw [makeDirectoriesFrom]
    split
    · rename_i hmade
      exact keeps_makeDirectory hmade
    · split
      · exact .refl _ t
      · rename_i parent _
        have outer := ih t parent
        dsimp only
        split
        · exact outer
        · split
          · rename_i hmade
            exact outer.trans (keeps_makeDirectory hmade)
          · exact outer
    · exact .refl _ t

end AddressMap.FileTree
