import AddressMap.Proofs.Entries
import AddressMap.Proofs.FileTree.Contents
import AddressMap.Proofs.Output.Writing
import Mathlib.Data.List.TakeWhile

set_option autoImplicit false

namespace AddressMap

/-- The extension stands behind the last point, and something stands in front of the point. -/
def Path.HasExtension (name extension : String) : Prop :=
  ∃ stem, stem ≠ "" ∧ name = stem ++ "." ++ extension ∧ '.' ∉ extension.toList

theorem Path.extension?_eq_some {name extension : String} :
    Path.extension? name = some extension ↔ Path.HasExtension name extension := by
  constructor
  · intro h
    unfold extension? at h
    dsimp only at h
    split at h
    · rename_i point c rest hdrop
      obtain rfl := Option.some.inj h
      have hpoint : point = '.' := by
        have first := List.head_dropWhile_not (· != '.') (l := name.toList.reverse) (by simp [hdrop])
        simpa [hdrop] using first
      have cut : name.toList = (c :: rest).reverse ++ '.' :: (name.toList.reverse.takeWhile (· != '.')).reverse := by
        have whole := List.takeWhile_append_dropWhile (p := (· != '.')) (l := name.toList.reverse)
        rw [hdrop, hpoint] at whole
        calc name.toList = name.toList.reverse.reverse := (List.reverse_reverse _).symm
          _ = (name.toList.reverse.takeWhile (· != '.') ++ '.' :: c :: rest).reverse := congrArg List.reverse whole.symm
          _ = _ := by simp
      refine ⟨.ofList (c :: rest).reverse, by simp, ?_, ?_⟩
      · apply String.toList_inj.mp
        rw [String.toList_append, String.toList_append, String.toList_ofList, String.toList_ofList]
        exact cut.trans (by simp)
      · intro hin
        rw [String.toList_ofList, List.mem_reverse] at hin
        simpa using List.mem_takeWhile_imp hin
    · cases h
  · rintro ⟨stem, hne, rfl, hpoint⟩
    exact extension?_append hne hpoint

namespace Output

open FileTree

/-- A name of a generated file of one of the extensions. -/
structure Generated (extensions : List String) (name : String) : Prop where
  start : "mm_".toList <+: name.toList
  extension : ∃ extension ∈ extensions, Path.HasExtension name extension

theorem isGenerated_iff {extensions : List String} {name : String} :
    isGenerated extensions name ↔ Generated extensions name := by
  rw [isGenerated, Bool.and_eq_true, String.startsWith_string_iff, Option.any_eq_true]
  constructor
  · rintro ⟨hstart, extension, hfound, hin⟩
    exact ⟨hstart, extension, List.contains_iff_mem.mp hin, Path.extension?_eq_some.mp hfound⟩
  · rintro ⟨hstart, extension, hin, hhas⟩
    exact ⟨hstart, extension, Path.extension?_eq_some.mpr hhas, List.contains_iff_mem.mpr hin⟩

def Stale (t : FileTree) (l : Location) (extensions : List String) (name : String) : Prop :=
  Generated extensions name ∧ ∃ text, t.item? (l ++ [name]) = some (.file text)

variable {t t' : FileTree} {dir : String} {l : Location} {extensions : List String} {cleanFirst : Bool}

/-- The files removed, and how many they are. -/
structure Cleaned (l : Location) (extensions : List String) (removed : Nat) (t t' : FileTree) : Prop where
  gone : ∀ {name}, Stale t l extensions name → t'.item? (l ++ [name]) = none
  kept : ∀ {place}, (∀ name, Stale t l extensions name → place ≠ l ++ [name]) → t'.item? place = t.item? place
  count : ∃ places : List Location, places.Nodup ∧ places.length = removed ∧
    ∀ place, place ∈ places ↔ t.item? place ≠ none ∧ t'.item? place = none

theorem mem_filesIn_iff (ht : t.Listed) {place : Location} :
    place ∈ t.filesIn l (isGenerated extensions) ↔ ∃ name, place = l ++ [name] ∧ Stale t l extensions name := by
  constructor
  · intro h
    obtain ⟨name, text, rfl, hname, hfile⟩ := mem_filesIn ht h
    exact ⟨name, rfl, isGenerated_iff.mp hname, text, hfile⟩
  · rintro ⟨name, rfl, hname, text, hfile⟩
    exact mem_filesIn_of_file (isGenerated_iff.mpr hname) hfile

theorem cleaned_removeFiles (ht : t.Listed) (l : Location) (extensions : List String) :
    Cleaned l extensions (t.filesIn l (isGenerated extensions)).length t
      (t.removeFiles (t.filesIn l (isGenerated extensions))) := by
  have gone : ∀ {name}, Stale t l extensions name →
      (t.removeFiles (t.filesIn l (isGenerated extensions))).item? (l ++ [name]) = none :=
    fun hstale => item?_removeFiles_of_mem t ((mem_filesIn_iff ht).mpr ⟨_, rfl, hstale⟩)
  refine ⟨gone, fun hplace => item?_removeFiles_of_not_mem t fun hin => ?_, _, ht.nodup_filesIn l _, rfl,
    fun place => ⟨fun hin => ?_, fun ⟨hthere, hgone⟩ => ?_⟩⟩
  · obtain ⟨name, rfl, hstale⟩ := (mem_filesIn_iff ht).mp hin
    exact hplace name hstale rfl
  · obtain ⟨name, rfl, hstale⟩ := (mem_filesIn_iff ht).mp hin
    obtain ⟨text, hfile⟩ := hstale.2
    exact ⟨hfile ▸ Option.some_ne_none _, gone hstale⟩
  · by_contra hother
    exact hthere ((item?_removeFiles_of_not_mem t hother).symm.trans hgone)

theorem follow_of_locate (h : t.locate [] dir = .ok l) : t.follow [] (Path.names dir) = .ok l := by
  unfold locate Path.steps at h
  rw [ite_self] at h
  split at h
  · cases h
  · split at h
    · rw [follow_append] at h
      cases hnames : t.follow [] (Path.names dir) with
      | error fault =>
        rw [hnames] at h
        cases h
      | ok place =>
        -- A point behind the names asks for a directory and stays in it.
        rw [hnames] at h
        change t.follow place ["."] = .ok l at h
        rw [follow] at h
        split at h
        · cases h
        · cases h
        · exact h
    · exact h

theorem ran_clean (hl : t.locate [] dir = .ok l) (hdir : t.item? l = some .directory) :
    ran (clean dir extensions) t = (.ok (t.filesIn l (isGenerated extensions)).length,
      t.removeFiles (t.filesIn l (isGenerated extensions))) := by
  unfold clean
  rw [ran_bind, ran_get]
  dsimp only
  rw [hl]
  dsimp only
  rw [if_pos (isDirectoryAt_iff.mpr hdir)]
  rfl

theorem clean_eq_ok (ht : t.Listed) {removed : Nat} (h : ran (clean dir extensions) t = (.ok removed, t')) :
    ∃ l, t.locate [] dir = .ok l ∧ Cleaned l extensions removed t t' := by
  unfold clean at h
  rw [ran_bind, ran_get] at h
  dsimp only at h
  split at h
  · cases h
  · rename_i l hl
    split at h
    · cases h
      exact ⟨l, hl, cleaned_removeFiles ht l extensions⟩
    · cases h

structure Opened (dir : String) (l : Location) (t t' : FileTree) : Prop where
  found : t'.follow [] (Path.names dir) = .ok l
  directory : t'.item? l = some .directory
  same : t.find? [] dir ≠ none → t' = t
  grown : ∀ place, t'.item? place = t.item? place ∨ t.item? place = none ∧ t'.item? place = some .directory
  /-- A path that does not lead back up makes nothing but directories on the way. -/
  onWay : ".." ∉ Path.names dir → ∀ place, t'.item? place ≠ t.item? place → place <+: l
  empty : ".." ∉ Path.names dir → t.item? l = none → ∀ name, t'.item? (l ++ [name]) = none

theorem opened_refl (hdir : t.isFile [] dir = false) (hthere : t.find? [] dir ≠ none) :
    ∃ l, Opened dir l t t := by
  have directory : t.find? [] dir = some .directory := by
    unfold isFile at hdir
    split at hdir
    · cases hdir
    · rename_i hother
      obtain ⟨item, hitem⟩ := Option.ne_none_iff_exists'.mp hthere
      cases item with
      | directory => exact hitem
      | file text => exact absurd hitem (hother text)
  unfold find? at directory
  split at directory
  · rename_i l hl
    refine ⟨l, follow_of_locate hl, directory, fun _ => rfl, fun _ => .inl rfl, fun _ _ hne => absurd rfl hne, ?_⟩
    intro _ hnone
    rw [hnone] at directory
    cases directory
  · cases directory

theorem opened_of_grown (hr : t.Rooted) (hnone : t.find? [] dir = none)
    (h : Grown (OnWay (Path.names dir)) t t') (hdir : t'.isDirectory (Path.names dir)) : ∃ l, Opened dir l t t' := by
  unfold isDirectory at hdir
  split at hdir
  · rename_i l hl
    have onWay : ".." ∉ Path.names dir → ∀ place, t'.item? place ≠ t.item? place → place <+: l := by
      intro hup place hne
      rw [follow_descends hup hl, List.nil_append]
      exact ((h place).resolve_left hne).1 hup
    refine ⟨l, hl, isDirectoryAt_iff.mp hdir, fun hthere => absurd hnone hthere,
      fun place => (h place).imp_right And.right, onWay, fun hup hfree name => ?_⟩
    by_contra hitem
    by_cases hsame : t'.item? (l ++ [name]) = t.item? (l ++ [name])
    · rw [hsame] at hitem
      have outer := hr.directory_of_item hitem
      rw [hfree] at outer
      cases outer
    · have short := (onWay hup _ hsame).length_le
      rw [List.length_append, List.length_singleton] at short
      exact absurd short (Nat.not_succ_le_self _)
  · cases hdir

theorem opened_ensureDirectory (hr : t.Rooted) (hdir : t.isFile [] dir = false)
    (h : ran (ensureDirectory dir) t = (.ok (), t')) : ∃ l, Opened dir l t t' := by
  unfold ensureDirectory at h
  rw [ran_bind, ran_get] at h
  dsimp only at h
  split at h
  · rename_i habsent
    rw [ran_bind, ran_set] at h
    dsimp only at h
    split at h
    · cases h
    · rename_i hmade
      cases h
      have made : t.makeDirectories dir = (true, (t.makeDirectories dir).2) := Prod.ext (by simpa using hmade) rfl
      exact opened_of_grown hr (by simpa using habsent) (grown_makeDirectoriesFrom t _ _)
        (isDirectory_of_makeDirectoriesFrom made)
  · rename_i hthere
    cases h
    exact opened_refl hdir (by simpa using hthere)

theorem item?_mapM {files : FileSet} {written : List String}
    (h : ran (files.mapM (writeFile dir)) t = (.ok written, t'))
    (hs : ∀ file ∈ files, IsStep file.1) (fresh : files.keys.Nodup) (hl : t.follow [] (Path.names dir) = .ok l) :
    (∀ name, t'.item? (l ++ [name]) = ((files.get? name).map .file).or (t.item? (l ++ [name]))) ∧
      ∀ place, (∀ name, place ≠ l ++ [name]) → t'.item? place = t.item? place := by
  -- Each file is written to the same directory, where the files behind it leave its place alone.
  induction files generalizing t written with
  | nil =>
    cases h
    exact ⟨fun _ => rfl, fun _ _ => rfl⟩
  | cons file rest ih =>
    rw [List.mapM_cons] at h
    obtain ⟨path, t₁, hfile, h⟩ := ran_bind_eq_ok.mp h
    obtain ⟨paths, t₂, hrest, h⟩ := ran_bind_eq_ok.mp h
    cases h
    obtain ⟨hstep, hsteps⟩ := List.forall_mem_cons.mp hs
    obtain ⟨hnew, hfresh⟩ := List.nodup_cons.mp fresh
    obtain ⟨-, hwritten⟩ := writeFile_eq_ok hfile
    have hl₁ := (keeps_writeFile? hstep hwritten).1.follow hl
    obtain ⟨l', hl', -, -, -, rfl⟩ := writeFile?_eq_some hstep hwritten
    obtain rfl : l = l' := Except.ok.inj (hl.symm.trans hl')
    obtain ⟨inside, outside⟩ := ih hrest hsteps hfresh hl₁
    refine ⟨fun name => ?_, fun place hplace => ?_⟩
    · rw [inside name, Entries.get?]
      by_cases hname : file.1 = name
      · subst hname
        have missing : Entries.get? rest file.1 = none := by
          by_contra hfound
          exact hnew (Entries.get?_isSome_iff.mp (Option.isSome_iff_ne_none.mpr hfound))
        rw [if_pos rfl, missing, item?_put_self t (by simp)]
        rfl
      · rw [if_neg hname, item?_put_of_ne t fun heq => hname (last_inj heq).symm]
    · rw [outside place hplace, item?_put_of_ne t (hplace file.1)]

/-- What every name of the directory stands for at the end. -/
structure Settled (l : Location) (files : FileSet) (cleanFirst : Bool) (extensions : List String)
    (t t' : FileTree) : Prop where
  given : ∀ {name text}, files.get? name = some text → t'.item? (l ++ [name]) = some (.file text)
  gone : ∀ {name}, files.get? name = none → cleanFirst → Stale t l extensions name → t'.item? (l ++ [name]) = none
  kept : ∀ {name}, files.get? name = none → ¬ (cleanFirst ∧ Stale t l extensions name) →
    t'.item? (l ++ [name]) = t.item? (l ++ [name])
  elsewhere : ∀ {place}, (∀ name, place ≠ l ++ [name]) → t'.item? place = t.item? place

theorem settled_write (ht : t.Listed) (hr : t.Rooted) {files : FileSet} {written : List String}
    (hs : ∀ file ∈ files, IsStep file.1) (fresh : files.keys.Nodup) (hdir : t.isFile [] dir = false)
    (h : ran (write dir files cleanFirst extensions) t = (.ok written, t')) :
    ∃ l t₁, Opened dir l t t₁ ∧ Settled l files cleanFirst extensions t₁ t' := by
  obtain ⟨⟨⟩, t₁, hmade, h⟩ := ran_bind_eq_ok.mp h
  have keeps : Keeps (fun _ => True) t t₁ := keeps_ensureDirectory hmade
  have listed : t₁.Listed := keeps.listed ht
  obtain ⟨l, opened⟩ := opened_ensureDirectory hr hdir hmade
  refine ⟨l, t₁, opened, ?_⟩
  cases cleanFirst with
  | false =>
    obtain ⟨inside, outside⟩ := item?_mapM h hs fresh opened.found
    refine ⟨fun hget => ?_, nofun, fun hget _ => ?_, fun hplace => outside _ hplace⟩
    · rw [inside, hget]
      rfl
    · rw [inside, hget]
      rfl
  | true =>
    obtain ⟨⟨⟩, t₂, hclean, h⟩ := ran_bind_eq_ok.mp h
    obtain ⟨removed, hclean, -⟩ := ran_map_eq_ok.mp hclean
    have kept := keeps_clean listed hclean
    obtain ⟨l', hl', cleaned⟩ := clean_eq_ok listed hclean
    obtain rfl : l = l' := Except.ok.inj (opened.found.symm.trans (follow_of_locate hl'))
    obtain ⟨inside, outside⟩ := item?_mapM h hs fresh (kept.follow opened.found)
    refine ⟨fun hget => ?_, fun hget _ hstale => ?_, fun hget hspared => ?_, fun hplace => ?_⟩
    · rw [inside, hget]
      rfl
    · rw [inside, hget]
      exact cleaned.gone hstale
    · rw [inside, hget]
      exact cleaned.kept fun other hstale heq => hspared ⟨rfl, last_inj heq ▸ hstale⟩
    · rw [outside _ hplace]
      exact cleaned.kept fun name _ => hplace name

theorem writeFile?_of_free {file : String × String} (hs : IsStep file.1) (hl : t.follow [] (Path.names dir) = .ok l)
    (hdir : t.item? l = some .directory) (hname : isName file.1) (hfree : t.item? (l ++ [file.1]) ≠ some .directory) :
    t.writeFile? (Path.join dir file.1) file.2 = some (t.put (l ++ [file.1]) (.file file.2)) := by
  unfold writeFile?
  rw [locate_join dir hs, (follow_concat_eq_ok hs).mpr ⟨l, hl, hdir, hname, rfl⟩]
  exact if_neg fun h => hfree (isDirectoryAt_iff.mp h)

theorem mapM_succeeds {files : FileSet} (hs : ∀ file ∈ files, IsStep file.1)
    (hl : t.follow [] (Path.names dir) = .ok l) (hdir : t.item? l = some .directory)
    (free : ∀ file ∈ files, isName file.1 ∧ t.item? (l ++ [file.1]) ≠ some .directory) :
    ∃ written t', ran (files.mapM (writeFile dir)) t = (.ok written, t') := by
  induction files generalizing t with
  | nil => exact ⟨[], t, rfl⟩
  | cons file rest ih =>
    obtain ⟨hstep, hsteps⟩ := List.forall_mem_cons.mp hs
    obtain ⟨⟨hname, hfree⟩, frees⟩ := List.forall_mem_cons.mp free
    have hwritten := writeFile?_of_free hstep hl hdir hname hfree
    obtain ⟨keeps, -⟩ := keeps_writeFile? hstep hwritten
    -- A file in the place of this one would be replaced, and the other places are as before.
    have still : ∀ other ∈ rest, isName other.1 ∧
        (t.put (l ++ [file.1]) (.file file.2)).item? (l ++ [other.1]) ≠ some .directory := by
      refine fun other hother => ⟨(frees other hother).1, ?_⟩
      by_cases hsame : other.1 = file.1
      · rw [hsame, item?_put_self t (by simp)]
        nofun
      · rw [item?_put_of_ne t fun heq => hsame (last_inj heq)]
        exact (frees other hother).2
    obtain ⟨paths, t', hrest⟩ := ih hsteps (keeps.follow hl) (keeps.directory hdir) still
    refine ⟨Path.join dir file.1 :: paths, t', ?_⟩
    have hfile : ran (writeFile dir file) t =
        (.ok (Path.join dir file.1), t.put (l ++ [file.1]) (.file file.2)) := by
      unfold writeFile
      rw [ran_bind, ran_get]
      dsimp only
      rw [hwritten]
      rfl
    rw [List.mapM_cons]
    exact ran_bind_eq_ok.mpr ⟨_, _, hfile, ran_bind_eq_ok.mpr ⟨_, _, hrest, rfl⟩⟩

theorem write_succeeds (ht : t.Listed) {files : FileSet} (hs : ∀ file ∈ files, IsStep file.1)
    (hl : t.locate [] dir = .ok l) (hdir : t.item? l = some .directory)
    (free : ∀ file ∈ files, isName file.1 ∧ t.item? (l ++ [file.1]) ≠ some .directory) :
    ∃ written t', ran (write dir files cleanFirst extensions) t = (.ok written, t') := by
  have found := follow_of_locate hl
  have there : (t.find? [] dir).isNone = false := by
    unfold find?
    rw [hl]
    dsimp only
    rw [hdir]
    rfl
  have opened : ran (ensureDirectory dir) t = (.ok (), t) := by
    unfold ensureDirectory
    rw [ran_bind, ran_get]
    dsimp only
    rw [if_neg (by simp [there])]
    rfl
  cases cleanFirst with
  | false =>
    obtain ⟨written, t', h⟩ := mapM_succeeds hs found hdir free
    exact ⟨written, t', ran_bind_eq_ok.mpr ⟨_, _, opened, h⟩⟩
  | true =>
    have hclean : ran (clean dir extensions) t = _ := ran_clean hl hdir
    have keeps := keeps_clean ht hclean
    have cleaned := cleaned_removeFiles ht l extensions
    have still : ∀ file ∈ files, isName file.1 ∧
        (t.removeFiles (t.filesIn l (isGenerated extensions))).item? (l ++ [file.1]) ≠ some .directory := by
      refine fun file hfile => ⟨(free file hfile).1, fun hitem => (free file hfile).2 ?_⟩
      rw [← hitem, cleaned.kept]
      rintro name hstale heq
      rw [heq, cleaned.gone hstale] at hitem
      cases hitem
    obtain ⟨written, t', h⟩ := mapM_succeeds hs (keeps.follow found) (keeps.directory hdir) still
    exact ⟨written, t', ran_bind_eq_ok.mpr ⟨_, _, opened,
      ran_bind_eq_ok.mpr ⟨_, _, ran_map_eq_ok.mpr ⟨_, hclean, rfl⟩, h⟩⟩⟩

/-- Files of earlier runs next to notes and to a directory that is called like a header. -/
def mixedTree : FileTree :=
  ⟨[(["out"], .directory), (["out", "mm_old.h"], .file "old"), (["out", "mm_old.tab.c"], .file "old"),
    (["out", "mm_old.csv"], .file "old"), (["out", "keep.h"], .file "kept"), (["out", "mm_notes.txt"], .file "kept"),
    (["out", "mm_dir.h"], .directory), (["out", "mm_dir.h", "mm_inner.h"], .file "kept")]⟩

def headerFile : FileSet := [("mm_new.h", "new")]

end Output

end AddressMap
