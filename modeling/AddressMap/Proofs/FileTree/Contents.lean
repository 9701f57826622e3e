import AddressMap.Proofs.FileTree.Frame
import Mathlib.Data.List.Infix

set_option autoImplicit false

namespace AddressMap.FileTree

def Rooted (t : FileTree) : Prop := ∀ e ∈ t.items, t.isDirectoryAt e.1.dropLast

instance (t : FileTree) : Decidable t.Listed := inferInstanceAs (Decidable (List.Nodup _))

instance (t : FileTree) : Decidable t.Rooted := inferInstanceAs (Decidable (∀ e ∈ t.items, _))

theorem isDirectoryAt_iff {t : FileTree} {l : Location} : t.isDirectoryAt l ↔ t.item? l = some .directory := by
  unfold isDirectoryAt
  split
  · rename_i hdir
    simp [hdir]
  · rename_i hother
    simpa using hother

theorem mem_of_lookup {items : List (Location × FileItem)} {l : Location} {item : FileItem}
    (h : lookup items l = some item) : (l, item) ∈ items := by
  induction items with
  | nil => cases h
  | cons e rest ih =>
    rw [lookup] at h
    split at h
    · rename_i hplace
      obtain rfl := Option.some.inj h
      rw [← hplace]
      exact List.mem_cons_self
    · exact List.mem_cons_of_mem _ (ih h)

theorem mem_items {t : FileTree} {l : Location} {name : String} {item : FileItem}
    (h : t.item? (l ++ [name]) = some item) : (l ++ [name], item) ∈ t.items := by
  rw [item?_of_ne_root t (by simp)] at h
  exact mem_of_lookup h

theorem Rooted.directory_of_item {t : FileTree} (ht : t.Rooted) {l : Location} {name : String}
    (h : t.item? (l ++ [name]) ≠ none) : t.item? l = some .directory := by
  obtain ⟨item, hitem⟩ := Option.ne_none_iff_exists'.mp h
  have outer := ht _ (mem_items hitem)
  rw [List.dropLast_concat] at outer
  exact isDirectoryAt_iff.mp outer

theorem item?_removeFiles_of_mem (t : FileTree) {files : List Location} {l : Location} {name : String}
    (h : l ++ [name] ∈ files) : (t.removeFiles files).item? (l ++ [name]) = none := by
  rw [item?_of_ne_root _ (by simp), removeFiles]
  refine lookup_eq_none fun hin => ?_
  obtain ⟨e, he, hplace⟩ := List.mem_map.mp hin
  have stays := (List.mem_filter.mp he).2
  rw [hplace] at stays
  simp [h] at stays

theorem mem_filesIn_of_file {t : FileTree} {l : Location} {name text : String} {p : String → Bool} (hp : p name)
    (h : t.item? (l ++ [name]) = some (.file text)) : l ++ [name] ∈ t.filesIn l p := by
  refine List.mem_filterMap.mpr ⟨_, mem_items h, ?_⟩
  simp [hp]

theorem filesIn_sublist (t : FileTree) (l : Location) (p : String → Bool) :
    (t.filesIn l p).Sublist (t.items.map (·.1)) := by
  unfold filesIn
  induction t.items with
  | nil => exact .slnil
  | cons e rest ih =>
    rw [List.filterMap_cons, List.map_cons]
    split
    · exact ih.cons _
    · rename_i place hplace
      -- A listed place is the one of its item.
      have own : place = e.1 := by
        split at hplace
        · split at hplace
          · exact (Option.some.inj hplace).symm
          · cases hplace
        · cases hplace
      rw [own]
      exact ih.cons_cons _

theorem Listed.nodup_filesIn {t : FileTree} (ht : t.Listed) (l : Location) (p : String → Bool) :
    (t.filesIn l p).Nodup :=
  ht.sublist (filesIn_sublist t l p)

/-- Each place has what it had, or it is one of certain free places and has become a directory. -/
def Grown (on : Location → Prop) (t t' : FileTree) : Prop :=
  ∀ place, t'.item? place = t.item? place ∨ on place ∧ t.item? place = none ∧ t'.item? place = some .directory

namespace Grown

variable {on : Location → Prop} {t t' t'' : FileTree}

theorem refl (on : Location → Prop) (t : FileTree) : Grown on t t := fun _ => .inl rfl

theorem trans (h : Grown on t t') (h' : Grown on t' t'') : Grown on t t'' := by
  intro place
  rcases h place with hsame | ⟨hon, hfree, hdir⟩
  · have after := h' place
    rwa [hsame] at after
  · rcases h' place with hsame | ⟨-, htaken, -⟩
    · exact .inr ⟨hon, hfree, hsame.trans hdir⟩
    · rw [hdir] at htaken
      cases htaken

theorem mono {more : Location → Prop} (h : Grown on t t') (hon : ∀ place, on place → more place) : Grown more t t' :=
  fun place => (h place).imp_right fun hnew => ⟨hon place hnew.1, hnew.2⟩

end Grown

theorem grown_put {on : Location → Prop} {t : FileTree} {l : Location} (hon : on l) (h : t.item? l = none) :
    Grown on t (t.put l .directory) := by
  intro place
  by_cases hplace : place = l
  · subst hplace
    have below : place ≠ [] := by
      rintro rfl
      cases h
    exact .inr ⟨hon, h, item?_put_self t below _⟩
  · exact .inl (item?_put_of_ne t hplace _)

theorem follow_descends {t : FileTree} {here l : Location} {names : List String} (hup : ".." ∉ names)
    (h : t.follow here names = .ok l) : l = here ++ names.filter (· ≠ ".") := by
  induction names generalizing here with
  | nil => simpa [follow] using h.symm
  | cons name rest ih =>
    obtain ⟨hname, hrest⟩ := not_or.mp (List.mem_cons.not.mp hup)
    rw [follow] at h
    split at h
    · cases h
    · cases h
    · split_ifs at h with hhere hback
      · rw [ih hrest h, List.filter_cons_of_neg (by simpa using hhere)]
      · exact absurd (beq_iff_eq.mp hback).symm hname
      · rw [ih hrest h, List.filter_cons_of_pos (by simpa using hhere), List.append_assoc, List.singleton_append]

theorem follow_put_directory {t : FileTree} {l : Location} {names : List String} (h : t.follow [] names = .ok l)
    (hfree : t.item? l = none) : (t.put l .directory).follow [] names = .ok l := by
  have keeps : Keeps (fun _ => True) t (t.put l .directory) := keeps_put_directory hfree
  exact keeps.follow h

theorem makeDirectory_eq_ok {t t' : FileTree} {names : List String} (h : t.makeDirectory names = .ok t') :
    ∃ l, t.follow [] names = .ok l ∧ t.item? l = none ∧ t' = t.put l .directory := by
  unfold makeDirectory at h
  split at h
  · cases h
  · rename_i l hl
    split at h
    · cases h
    · rename_i hnone
      exact ⟨l, hl, by simpa using hnone, (Except.ok.inj h).symm⟩

theorem isDirectory_of_makeDirectory {t t' : FileTree} {names : List String} (h : t.makeDirectory names = .ok t') :
    t'.isDirectory names := by
  obtain ⟨l, hl, hfree, rfl⟩ := makeDirectory_eq_ok h
  have below : l ≠ [] := by
    rintro rfl
    cases hfree
  unfold isDirectory
  rw [follow_put_directory hl hfree]
  exact isDirectoryAt_iff.mpr (item?_put_self t below _)

/-- The places that may be made for the sake of a directory: unless the names lead back up, those on the way. -/
def OnWay (names : List String) (place : Location) : Prop := ".." ∉ names → place <+: names.filter (· ≠ ".")

theorem grown_makeDirectory {t t' : FileTree} {names : List String} (h : t.makeDirectory names = .ok t') :
    Grown (OnWay names) t t' := by
  obtain ⟨l, hl, hfree, rfl⟩ := makeDirectory_eq_ok h
  refine grown_put (fun hup => ?_) hfree
  rw [follow_descends hup hl, List.nil_append]

theorem dropHere_leads (names : List String) : Path.dropHere names <+: names := by
  unfold Path.dropHere
  conv_rhs => rw [← List.reverse_reverse names]
  exact List.reverse_prefix.mpr (List.dropWhile_suffix _)

theorem parent_leads {names parent : List String} (h : Path.parent? names = some parent) : parent <+: names := by
  have front : Path.dropHere names <+: names := dropHere_leads names
  unfold Path.parent? at h
  split at h
  · cases h
  · rename_i name rest heq
    obtain rfl := Option.some.inj h
    rw [heq] at front
    exact (dropHere_leads _).trans ((List.dropLast_prefix _).trans front)

theorem OnWay.of_prefix {parent names : List String} (h : parent <+: names) {place : Location}
    (hplace : OnWay parent place) : OnWay names place :=
  fun hup => (hplace fun hin => hup (h.subset hin)).trans (h.filter _)

theorem grown_makeDirectoriesFrom (t : FileTree) (names : List String) (fuel : Nat) :
    Grown (OnWay names) t (t.makeDirectoriesFrom names fuel).2 := by
  induction fuel generalizing t names with
  | zero => exact .refl _ t
  | succ fuel ih =>
    rw [makeDirectoriesFrom]
    split
    · rename_i hmade
      exact grown_makeDirectory hmade
    · split
      · exact .refl _ t
      · rename_i parent hparent
        have outer := (ih t parent).mono fun _ => OnWay.of_prefix (parent_leads hparent)
        dsimp only
        split
        · exact outer
        · split
          · rename_i hmade
            exact outer.trans (grown_makeDirectory hmade)
          · exact outer
    · exact .refl _ t

/-- Whatever was made before it, the last step makes the directory itself or finds it there. -/
theorem isDirectory_of_makeDirectoriesFrom {t t' : FileTree} {names : List String} {fuel : Nat}
    (h : t.makeDirectoriesFrom names fuel = (true, t')) : t'.isDirectory names := by
  cases fuel with
  | zero => cases h
  | succ fuel =>
    rw [makeDirectoriesFrom] at h
    split at h
    · rename_i hmade
      cases h
      exact isDirectory_of_makeDirectory hmade
    · split at h
      · cases h
      · dsimp only at h
        split at h
        · cases h
        · split at h
          · rename_i hmade
            cases h
            exact isDirectory_of_makeDirectory hmade
          · obtain ⟨hdir, rfl⟩ := Prod.mk.inj h
            exact hdir
    · obtain ⟨hdir, rfl⟩ := Prod.mk.inj h
      exact hdir

end AddressMap.FileTree
