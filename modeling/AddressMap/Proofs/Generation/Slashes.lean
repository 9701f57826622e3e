import AddressMap.Proofs.Generation.Names
import AddressMap.Proofs.Output.Exactness

set_option autoImplicit false

/-!
A clean-up looks at the files that lie right in a directory, and recognises those of an earlier run by their names.
The names of a description are put into names of files as they are, so a file lies right in its directory unless a
name that it is made of has a slash.
-/

namespace AddressMap

variable {patterns : PatternReader}

/-- Names that stay in one directory. -/
def Slashless (names : List String) : Prop := ∀ name ∈ names, '/' ∉ name.toList

/-- A clean-up of a directory that holds the file removes it. -/
def OutputKind.Recognises (kind : OutputKind) (name : String) : Prop :=
  ∀ (t t' : FileTree) (dir text : String) (removed : Nat), t.Listed → t.Holds dir (name, text) →
    ran (Output.clean dir kind.extensions) t = (.ok removed, t') → t'.find? [] (Path.join dir name) = none

/-- The names are spelled as those of the kind. One without a slash is a step into its directory, and recognised. -/
def OutputKind.Fits (kind : OutputKind) (files : FileSet) : Prop :=
  ∀ name ∈ files.keys, kind.Spells name ∧ ('/' ∉ name.toList → FileTree.IsStep name ∧ kind.Recognises name)

namespace OutputKind

open FileTree Output

variable {kind : OutputKind} {parts : List String} {writes : List (String × String)}

theorem Spells.recognises {name : String} (h : kind.Spells name) (hs : '/' ∉ name.toList) :
    kind.Recognises name := by
  intro t t' dir text removed ht hheld hclean
  obtain ⟨l, hl, -, -, hfile⟩ := hheld
  have step := h.isStep hs
  have kept := keeps_clean ht hclean
  obtain ⟨place, hplace, cleaned⟩ := clean_eq_ok ht hclean
  obtain rfl : l = place := Except.ok.inj (hl.symm.trans (follow_of_locate hplace))
  have gone : t'.item? (l ++ [name]) = none := cleaned.gone ⟨isGenerated_iff.mp h.generated, text, hfile⟩
  -- If the path still leads anywhere, then to the place of the file.
  unfold find?
  split
  · rename_i found hfound
    rw [locate_join dir step] at hfound
    obtain ⟨l', hl', -, -, rfl⟩ := (follow_concat_eq_ok step).mp hfound
    obtain rfl : l = l' := Except.ok.inj ((kept.follow hl).symm.trans hl')
    exact gone
  · rfl

theorem fits_ofWrites (h : ∀ n ∈ writes.map (·.1), kind.Names parts n) : kind.Fits (.ofWrites writes) := by
  intro name hname
  have spelled := (h name (FileSet.mem_keys_ofWrites.mp hname)).spelled
  exact ⟨spelled, fun hs => ⟨spelled.isStep hs, spelled.recognises hs⟩⟩

/-- Names are free of slashes with the parts that they are made of, if each part is in one of them. -/
theorem slashless_ofWrites (h : ∀ n ∈ writes.map (·.1), kind.Names parts n)
    (used : ∀ part ∈ parts, ∃ n ∈ writes.map (·.1), part.toList ⊆ n.toList) :
    Slashless (FileSet.ofWrites writes).keys ↔ Slashless parts := by
  constructor
  · intro hs part hpart hin
    obtain ⟨n, hn, hsub⟩ := used part hpart
    exact hs n (FileSet.mem_keys_ofWrites.mpr hn) (hsub hin)
  · intro hs name hname hin
    obtain ⟨part, hpart, hslash⟩ := (h name (FileSet.mem_keys_ofWrites.mp hname)).slash hin
    exact hs part hpart hslash

end OutputKind

variable {d : Description} {m : ResolvedMap}

theorem Header.nameParts_used (m : ResolvedMap) (hide : Bool) :
    ∀ part ∈ nameParts m, ∃ n ∈ (writes m hide).map (·.1), part.toList ⊆ n.toList := by
  -- Each map and each typedef has a header of its own for its types.
  intro part hpart
  refine ⟨affixed "mm_typedefs_" ".h" part, ?_, fun c hc => ?_⟩
  · rw [names_eq]
    refine List.mem_flatten.mpr ⟨(typeFiles m).map (·.name), by simp [families], ?_⟩
    rw [names_typeFiles]
    refine List.mem_cons_of_mem _ (List.mem_map_of_mem ?_)
    exact List.mem_append.mpr (List.mem_append.mp hpart).symm
  · rw [toList_affixed]
    exact List.mem_append_right _ (List.mem_append_left _ hc)

theorem Resolution.maps_ne_nil (h : resolve d patterns = .ok m) : m.maps ≠ [] := by
  obtain ⟨table, walked⟩ := resolve_walkedFrom h
  intro hnil
  have keys := walked.names
  rw [hnil, List.map_nil] at keys
  exact entries_maps_ne_nil h (List.map_eq_nil_iff.mp keys.symm)

theorem Sheet.nameParts_used (h : resolve d patterns = .ok m) :
    ∀ part ∈ nameParts m, ∃ n ∈ (writes m).map (·.1), part.toList ⊆ n.toList := by
  have hashed_mem : ∀ base ∈ names m ++ readNames m, hashed m base ∈ (writes m).map (·.1) := fun base hbase =>
    (names_writes m).mem_iff.mpr (List.mem_append_left _ (List.mem_map_of_mem hbase))
  have inside : ∀ base, m.metadata.appName.toList ⊆ (hashed m base).toList ∧
      base.toList ⊆ (hashed m base).toList := by
    intro base
    rw [hashed, toList_named, String.toList_append, String.toList_append]
    constructor <;> intro c hc <;> simp [hc]
  intro part hpart
  rcases List.mem_cons.mp hpart with rfl | hpart
  · obtain ⟨f, hf⟩ := List.exists_mem_of_ne_nil _ (Resolution.maps_ne_nil h)
    exact ⟨_, hashed_mem f.name (List.mem_append_left _ (List.mem_map_of_mem hf)), (inside f.name).1⟩
  · rcases List.mem_append.mp hpart with hname | hread
    · exact ⟨_, hashed_mem part (List.mem_append_left _ hname), (inside part).2⟩
    · obtain ⟨f, hf, huser⟩ := List.mem_flatMap.mp hread
      obtain ⟨u, hu, rfl⟩ := List.mem_map.mp huser
      refine ⟨_, hashed_mem s!"{f.name}_{u.1}" (List.mem_append_right _ ?_), fun c hc => (inside _).2 ?_⟩
      · exact List.mem_flatMap.mpr ⟨f, hf, List.mem_map_of_mem hu⟩
      · rw [toList_underscored]
        exact List.mem_append_right _ (List.mem_cons_of_mem _ hc)

/-- All files fit their kinds. Headers are free of slashes with the maps and typedefs, sheets with the application, the
    maps and the users who may read something, and snapshots in any case. -/
theorem Generation.files_recognised (h : resolve d patterns = .ok m) (hide : Bool) (input : Option Description) :
    (OutputKind.header.Fits (Header.files m hide) ∧
      (Slashless (Header.files m hide).keys ↔ Slashless (m.maps.map (·.name) ++ m.typedefs.keys))) ∧
    (OutputKind.sheet.Fits (Sheet.files m) ∧
      (Slashless (Sheet.files m).keys ↔ Slashless (m.metadata.appName ::
        (m.maps.map (·.name) ++ m.maps.flatMap fun f => (Sheet.readers m f).keys)))) ∧
    OutputKind.snapshot.Fits (Snapshot.files m input) ∧ Slashless (Snapshot.files m input).keys := by
  have headers : ∀ n ∈ (Header.writes m hide).map (·.1), OutputKind.header.Names (Header.nameParts m) n :=
    Header.names_of_mem
  have sheets := Sheet.names_of_mem h
  have snapshots := Snapshot.names_of_mem h input
  refine ⟨⟨OutputKind.fits_ofWrites headers, OutputKind.slashless_ofWrites headers (Header.nameParts_used m hide)⟩,
    ⟨OutputKind.fits_ofWrites sheets, OutputKind.slashless_ofWrites sheets (Sheet.nameParts_used h)⟩,
    OutputKind.fits_ofWrites snapshots, ?_⟩
  exact (OutputKind.slashless_ofWrites snapshots nofun).mpr nofun

/-- A map that is called like a path. -/
def Description.slashed : Description where
  sections := [
    ("metadata", .object [("app_name", .string "board"), ("default_type", .string "uint8_t")]),
    ("typedefs", .object [("root", .object [("elements", .array [.string "level"])])]),
    ("generated_maps", .object [("left/wheel", .object [("type", .string "root")])])]

namespace Generation

open Resolution

theorem finished_slashed : (finished .slashed).error.isNone ∧ (finished .slashed).state.metadata.isSome ∧
    (finished .slashed).state.maps.map (·.name) = ["left/wheel"] := by
  decide +kernel

theorem files_recognised_slashed : ∃ m, resolve .slashed = .ok m ∧
    (OutputKind.header.Fits (Header.files m true) ∧
      (Slashless (Header.files m true).keys ↔ Slashless (m.maps.map (·.name) ++ m.typedefs.keys))) ∧
    (OutputKind.sheet.Fits (Sheet.files m) ∧
      (Slashless (Sheet.files m).keys ↔ Slashless (m.metadata.appName ::
        (m.maps.map (·.name) ++ m.maps.flatMap fun f => (Sheet.readers m f).keys)))) ∧
    OutputKind.snapshot.Fits (Snapshot.files m (some .slashed)) ∧
    Slashless (Snapshot.files m (some .slashed)).keys := by
  obtain ⟨hnone, hmeta, -⟩ := finished_slashed
  obtain ⟨m, _, hm, -⟩ := resolves_of_finished hnone hmeta
  exact ⟨m, hm, files_recognised hm true (some .slashed)⟩

/-- Some headers and some sheets of the map are meant for a directory that nothing makes. -/
theorem slashed_names : ∃ m, resolve .slashed = .ok m ∧ ¬ Slashless (Header.files m true).keys ∧
    ¬ Slashless (Sheet.files m).keys := by
  obtain ⟨hnone, hmeta, hnames⟩ := finished_slashed
  obtain ⟨m, _, hm, heq⟩ := resolves_of_finished hnone hmeta
  have listed : "left/wheel" ∈ m.maps.map (·.name) := by
    rw [heq]
    exact hnames ▸ List.mem_cons_self
  have slash : '/' ∈ "left/wheel".toList := by decide
  refine ⟨m, hm, fun hs => ?_, fun hs => ?_⟩
  · have parts := (OutputKind.slashless_ofWrites Header.names_of_mem (Header.nameParts_used m true)).mp hs
    exact parts _ (List.mem_append_left _ listed) slash
  · have parts := (OutputKind.slashless_ofWrites (Sheet.names_of_mem hm) (Sheet.nameParts_used hm)).mp hs
    exact parts _ (List.mem_cons_of_mem _ (List.mem_append_left _ listed)) slash

end Generation

end AddressMap
