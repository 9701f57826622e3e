import AddressMap.Proofs.Generation.Names

set_option autoImplicit false

/-!
The groups of files are written one after the other, each after a clean-up of its directory if that is asked for.
The directories may be one and the same, or one inside the other: a group only touches names of its own kind, and
every file of an earlier group has the name of another kind. So at the end of a run all its files are in place.
-/

namespace AddressMap.Generation

variable {patterns : PatternReader}

open FileTree Output

def pathsIn (dir : Option String) (files : FileSet) : List String :=
  dir.elim [] fun dir => files.map fun file => Path.join dir file.1

def Group.paths (g : Group) : List String := pathsIn g.dir g.files

/-- The files are distinct, and each of them has a name of its own kind. -/
structure Group.Proper (g : Group) : Prop where
  fresh : g.files.keys.Nodup
  steps : ∀ file ∈ g.files, IsStep file.1
  generated : ∀ file ∈ g.files, isGenerated g.kind.extensions file.1

def Group.HeldIn (g : Group) (t : FileTree) : Prop :=
  ∀ dir, g.dir = some dir → ∀ file ∈ g.files, t.Holds dir file

variable {g : Group} {gs : List Group} {t t' : FileTree} {clean : Bool}

theorem Group.HeldIn.keeps {spared : String → Prop} (h : g.HeldIn t) (hk : Keeps spared t t')
    (hs : ∀ file ∈ g.files, spared file.1) : g.HeldIn t' :=
  fun dir hdir file hfile => hk.holds (hs file hfile) (h dir hdir file hfile)

theorem writeGroup_held (ht : t.Listed) (hg : g.Proper) {written : List String}
    (h : ran (writeGroup clean g) t = (.ok written, t')) :
    Keeps (fun name => ¬ isGenerated g.kind.extensions name) t t' ∧ written = g.paths ∧ g.HeldIn t' := by
  unfold writeGroup at h
  unfold Group.HeldIn Group.paths pathsIn
  split at h
  · rename_i dir hdir
    obtain ⟨keeps, wrote⟩ := wrote_write ht h hg.steps hg.generated hg.fresh
    refine ⟨keeps, by rw [hdir]; exact wrote.paths, fun other hother => ?_⟩
    obtain rfl : dir = other := Option.some.inj (hdir.symm.trans hother)
    exact wrote.holds
  · rename_i hnone
    cases h
    refine ⟨.refl _ _, by rw [hnone]; rfl, fun dir hdir => ?_⟩
    rw [hnone] at hdir
    cases hdir

theorem writeGroups_held (ht : t.Listed) (hg : ∀ g ∈ gs, g.Proper) (kinds : (gs.map (·.kind)).Nodup)
    {written : List (List String)} (h : ran (gs.mapM (writeGroup clean)) t = (.ok written, t')) :
    Keeps (fun name => ∀ g ∈ gs, ¬ isGenerated g.kind.extensions name) t t' ∧ written = gs.map Group.paths ∧
      ∀ g ∈ gs, g.HeldIn t' := by
  induction gs generalizing t written with
  | nil =>
    cases h
    exact ⟨.refl _ _, rfl, nofun⟩
  | cons g rest ih =>
    rw [List.mapM_cons] at h
    obtain ⟨paths, t₁, hfirst, h⟩ := ran_bind_eq_ok.mp h
    obtain ⟨others, t₂, hrest, h⟩ := ran_bind_eq_ok.mp h
    cases h
    obtain ⟨proper, hproper⟩ := List.forall_mem_cons.mp hg
    obtain ⟨hnew, hkinds⟩ := List.nodup_cons.mp kinds
    obtain ⟨keeps, rfl, held⟩ := writeGroup_held ht proper hfirst
    obtain ⟨keepsRest, rfl, heldRest⟩ := ih (keeps.listed ht) hproper hkinds hrest
    refine ⟨?_, rfl, List.forall_mem_cons.mpr ⟨held.keeps keepsRest fun file hfile g' hg' hown => hnew ?_, heldRest⟩⟩
    · exact (keeps.mono fun name hname => hname g List.mem_cons_self).trans
        (keepsRest.mono fun name hname g' hg' => hname g' (List.mem_cons_of_mem _ hg'))
    · exact List.mem_map.mpr ⟨g', hg', OutputKind.eq_of_isGenerated hown (proper.generated file hfile)⟩

theorem last_names_paths (hg : g.Proper) : (g.paths.map fun path => (Path.names path).getLast?) =
    g.dir.elim [] fun _ => g.files.keys.map some := by
  unfold Group.paths pathsIn
  cases g.dir with
  | none => rfl
  | some dir =>
    rw [Option.elim_some, Option.elim_some, List.map_map, Entries.keys, List.map_map]
    refine List.map_congr_left fun file hfile => ?_
    have step := hg.steps file hfile
    change (Path.names (Path.join dir file.1)).getLast? = _
    rw [Path.names_join dir step.slashless step.nonempty, List.getLast?_concat]
    rfl

theorem isGenerated_of_last (hg : g.Proper) {name : Option String}
    (h : name ∈ g.paths.map fun path => (Path.names path).getLast?) :
    ∃ own, name = some own ∧ isGenerated g.kind.extensions own := by
  rw [last_names_paths hg] at h
  cases hdir : g.dir with
  | none => simp [hdir] at h
  | some dir =>
    rw [hdir, Option.elim_some] at h
    obtain ⟨own, hown, rfl⟩ := List.mem_map.mp h
    obtain ⟨file, hfile, rfl⟩ := List.mem_map.mp hown
    exact ⟨file.1, rfl, hg.generated file hfile⟩

/-- No two files of a run have the same name, so their paths differ, whatever their directories are. -/
theorem nodup_paths (hg : ∀ g ∈ gs, g.Proper) (kinds : (gs.map (·.kind)).Nodup) :
    ((gs.flatMap Group.paths).map Path.names).Nodup := by
  -- Within a group and between groups the last names tell the paths apart.
  have lasts : ((gs.flatMap Group.paths).map fun path => (Path.names path).getLast?).Nodup := by
    rw [List.map_flatMap, List.nodup_flatMap]
    constructor
    · intro g hmem
      rw [last_names_paths (hg g hmem)]
      cases g.dir with
      | none => exact .nil
      | some dir => exact (hg g hmem).fresh.map (Option.some_injective _)
    · refine (List.pairwise_map.mp kinds).imp_of_mem fun {g g'} hmem hmem' hne name hname hname' => ?_
      obtain ⟨own, rfl, hown⟩ := isGenerated_of_last (hg g hmem) hname
      obtain ⟨_, heq, hown'⟩ := isGenerated_of_last (hg g' hmem') hname'
      cases heq
      exact hne (OutputKind.eq_of_isGenerated hown hown')
  rw [← Function.comp_def, ← List.map_map] at lasts
  exact lasts.of_map

theorem load_eq_ok {s : Settings} {d : Description} {m : ResolvedMap} {before after : Dialogue}
    (h : ran (load s t patterns) before = (.ok (d, m), after)) :
    ran (importFiles s.policy (s.files.map fun path => (path, t.readFile? [] path))) before = (.ok d, after) ∧
      resolve d patterns = .ok m := by
  obtain ⟨merged, between, himport, h⟩ := ran_bind_eq_ok.mp h
  split at h
  · rename_i resolved hresolved
    cases h
    exact ⟨himport, hresolved⟩
  · cases h

/-- Each file is in the directory with its contents, and its path leads to it. -/
def Stored (t : FileTree) (dir : Option String) (files : FileSet) : Prop :=
  ∀ path, dir = some path → ∀ file ∈ files,
    t.Holds path file ∧ t.readFile? [] (Path.join path file.1) = some file.2

/-- Every category is stored in its own directory. The paths written are those of all its files, each of them once. -/
structure Published (s : Settings) (o : GenerationOptions) (d : Description) (m : ResolvedMap) (t : FileTree)
    (written : List String) : Prop where
  headers : Stored t s.headerDir (Header.files m o.hideVersion)
  sheets : Stored t s.sheetDir (Sheet.files m)
  snapshots : Stored t s.snapshotDir (Snapshot.files m (some d))
  paths : written = pathsIn s.headerDir (Header.files m o.hideVersion) ++ pathsIn s.sheetDir (Sheet.files m) ++
    pathsIn s.snapshotDir (Snapshot.files m (some d))
  once : (written.map Path.names).Nodup

theorem publish_published {s : Settings} {o : GenerationOptions} {d : Description} {m : ResolvedMap}
    (hm : resolve d patterns = .ok m) (hd : ∀ name ∈ d.nameParts, '/' ∉ name.toList) (ht : t.Listed)
    {written : List String} (h : ran (publish s o d m) t = (.ok written, t')) : Published s o d m t' written := by
  have proper : ∀ g ∈ groups s o d m, g.Proper := by
    intro g hg
    obtain ⟨fresh, named⟩ := groups_named hm s o g hg
    have slashless : ∀ part ∈ m.nameParts, '/' ∉ part.toList :=
      fun part hpart => hd part (Resolution.nameParts_of_resolve hm part hpart)
    exact ⟨fresh, fun file hfile => (named file hfile).isStep slashless,
      fun file hfile => (named file hfile).spelled.generated⟩
  have kinds : ((groups s o d m).map (·.kind)).Nodup := by
    change [OutputKind.header, .sheet, .snapshot].Nodup
    decide
  obtain ⟨lists, hlists, rfl⟩ := ran_map_eq_ok.mp h
  obtain ⟨-, rfl, held⟩ := writeGroups_held ht proper kinds hlists
  have stored : ∀ g ∈ groups s o d m, Stored t' g.dir g.files := by
    intro g hg dir hdir file hfile
    have there := held g hg dir hdir file hfile
    exact ⟨there, there.readFile? ((proper g hg).steps file hfile)⟩
  simp only [groups, List.forall_mem_cons] at stored
  obtain ⟨headers, sheets, snapshots, -⟩ := stored
  have paths : ((groups s o d m).map Group.paths).flatten = (groups s o d m).flatMap Group.paths :=
    (List.flatMap_def ..).symm
  refine ⟨headers, sheets, snapshots, ?_, paths ▸ nodup_paths proper kinds⟩
  simp [groups, Group.paths]

/-- A run that succeeds has published all the files of the description that it imported, whether it cleans up or not
    and wherever its directories are. -/
theorem run_published {s : Settings} {o : GenerationOptions} {p p' : Progress} {report : GenerationReport}
    (ht : p.tree.Listed) (h : run s o p patterns = (.ok report, p')) : ∃ d m,
      ran (importFiles s.policy (s.files.map fun path => (path, p.tree.readFile? [] path))) p.dialogue =
        (.ok d, p'.dialogue) ∧
      resolve d patterns = .ok m ∧
      ((∀ name ∈ d.nameParts, '/' ∉ name.toList) → Published s o d m p'.tree report.written) := by
  unfold run at h
  split at h
  · cases h
  · rename_i d m dialogue hload
    split at h
    · cases h
    · rename_i written tree hpublish
      cases h
      obtain ⟨himport, hresolve⟩ := load_eq_ok hload
      exact ⟨d, m, himport, hresolve, fun hd => publish_published hresolve hd ht hpublish⟩

/-- All three groups go to one directory, which has files of an earlier run in it and is written in three ways. -/
def sharedSettings : Settings := ⟨["/board.yaml"], none, some "/out", some "/out/", some "out", false, false⟩

def sharedStart : Progress where
  tree := ⟨[
    (["board.yaml"], .file ("metadata:\n  app_name: board\n  default_type: uint8_t\n" ++
      "typedefs:\n  root:\n    elements: []\ngenerated_maps:\n  board:\n    type: root\n")),
    (["out"], .directory),
    (["out", "mm_old.h"], .file "stale"),
    (["out", "mm_notes.txt"], .file "kept")]⟩
  dialogue := ⟨[], false, []⟩

def sharedPaths : List String := [
  "/out/mm_cc.h", "/out/mm_meta.h", "/out/mm_typedefs.h", "/out/mm_typedefs_board.h", "/out/mm_typedefs_root.h",
  "/out/mm_board_board_0_0_0.csv", "/out/mm_board_board_c58c74aa97dfd6fd421db5880ffd7317.csv",
  "/out/mm_board_board_compressed_0_0_0.csv",
  "out/mm_c58c74aa97dfd6fd421db5880ffd7317_cfg.json", "out/mm_input_cfg.yaml"]

def sharedImport : Except Error Description × Dialogue :=
  ran (importFiles sharedSettings.policy
    (sharedSettings.files.map fun path => (path, sharedStart.tree.readFile? [] path))) sharedStart.dialogue

theorem sharedImport_slashless {d : Description} {dialogue : Dialogue} (h : sharedImport = (.ok d, dialogue)) :
    ∀ name ∈ d.nameParts, '/' ∉ name.toList := by
  have plain : sharedImport.1.toOption.all fun d => d.nameParts.all fun name => !name.toList.contains '/' := by
    decide +kernel
  rw [h] at plain
  intro name hname
  simpa using List.all_eq_true.mp plain name hname

theorem run_published_shared : ∃ d m report p', sharedStart.tree.Listed ∧
    run sharedSettings ⟨true, false⟩ sharedStart = (.ok report, p') ∧ report.written = sharedPaths ∧
    Published sharedSettings ⟨true, false⟩ d m p'.tree report.written ∧
    ∀ path ∈ sharedPaths, ∃ text, p'.tree.readFile? [] path = some text := by
  have listed : sharedStart.tree.Listed := by
    unfold FileTree.Listed sharedStart
    decide
  have lists : (run sharedSettings ⟨true, false⟩ sharedStart).1.toOption.map (·.written) = some sharedPaths := by
    decide +kernel
  cases hrun : run sharedSettings ⟨true, false⟩ sharedStart with
  | mk result p' =>
    rw [hrun] at lists
    cases result with
    | error e => cases lists
    | ok report =>
      have written : report.written = sharedPaths := Option.some.inj lists
      obtain ⟨d, m, himport, -, hpublished⟩ := run_published listed hrun
      have published := hpublished (sharedImport_slashless himport)
      refine ⟨d, m, report, p', listed, rfl, written, published, fun path hpath => ?_⟩
      rw [← written, published.paths] at hpath
      simp only [List.mem_append] at hpath
      rcases hpath with (hheader | hsheet) | hsnapshot
      · obtain ⟨file, hfile, rfl⟩ := List.mem_map.mp hheader
        exact ⟨file.2, (published.headers _ rfl file hfile).2⟩
      · obtain ⟨file, hfile, rfl⟩ := List.mem_map.mp hsheet
        exact ⟨file.2, (published.sheets _ rfl file hfile).2⟩
      · obtain ⟨file, hfile, rfl⟩ := List.mem_map.mp hsnapshot
        exact ⟨file.2, (published.snapshots _ rfl file hfile).2⟩

end AddressMap.Generation
