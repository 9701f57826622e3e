import AddressMap.Generation
import AddressMap.Proofs.Header.Includes
import AddressMap.Proofs.Output.Writing
import AddressMap.Proofs.Resolution.Scope
import AddressMap.Proofs.Sheet.Files
import AddressMap.Proofs.Text.Case

set_option autoImplicit false

namespace AddressMap

variable {patterns : PatternReader}

def SlashFrom (parts : List String) (cs : List Char) : Prop := '/' ∈ cs → ∃ part ∈ parts, '/' ∈ part.toList

namespace SlashFrom

variable {parts : List String} {cs ds : List Char}

theorem of_not_mem (h : '/' ∉ cs) : SlashFrom parts cs := fun hin => absurd hin h

theorem of_part {part : String} (h : part ∈ parts) : SlashFrom parts part.toList := fun hin => ⟨part, h, hin⟩

theorem append (h : SlashFrom parts cs) (h' : SlashFrom parts ds) : SlashFrom parts (cs ++ ds) :=
  fun hin => (List.mem_append.mp hin).elim h h'

theorem cons {c : Char} (hc : c ≠ '/') (h : SlashFrom parts cs) : SlashFrom parts (c :: cs) :=
  fun hin => h ((List.mem_cons.mp hin).resolve_left (Ne.symm hc))

end SlashFrom

/-- The text starts as the names of all generated files do, and it ends as those of the kind. -/
def OutputKind.Spells (kind : OutputKind) (name : String) : Prop :=
  ∃ extension ∈ kind.extensions, ∃ middle, name.toList = "mm_".toList ++ (middle ++ '.' :: extension.toList)

/-- A name of a file of the kind, in which only the parts can have slashes. -/
structure OutputKind.Names (kind : OutputKind) (parts : List String) (name : String) : Prop where
  spelled : kind.Spells name
  slash : SlashFrom parts name.toList

namespace OutputKind

variable {kind : OutputKind} {parts : List String} {name : String}

theorem extension_chars : ∀ extension ∈ kind.extensions, '.' ∉ extension.toList ∧ '/' ∉ extension.toList := by
  cases kind <;> decide

theorem names_of_toList (middle : List Char) (extension : String) (he : extension ∈ kind.extensions)
    (hm : SlashFrom parts middle) (h : name.toList = "mm_".toList ++ (middle ++ '.' :: extension.toList)) :
    kind.Names parts name := by
  refine ⟨⟨extension, he, middle, h⟩, ?_⟩
  rw [h]
  exact (SlashFrom.of_not_mem (by decide)).append
    (hm.append (.cons (by decide) (.of_not_mem (extension_chars extension he).2)))

theorem Spells.generated (h : kind.Spells name) : Output.isGenerated kind.extensions name := by
  obtain ⟨extension, he, middle, h⟩ := h
  have start : name.startsWith "mm_" := String.startsWith_string_iff.mpr (h ▸ List.prefix_append _ _)
  have stem : name = .ofList ("mm_".toList ++ middle) ++ "." ++ extension := by
    apply String.toList_inj.mp
    rw [h, String.toList_append, String.toList_append, String.toList_ofList]
    simp
  have found : Path.extension? name = some extension := by
    rw [stem]
    exact Path.extension?_append (by simp [← String.toList_inj]) (extension_chars extension he).1
  rw [Output.isGenerated, start, found, Bool.true_and]
  exact List.contains_iff_mem.mpr he

theorem Spells.isStep (h : kind.Spells name) (hs : '/' ∉ name.toList) : FileTree.IsStep name := by
  have start := (Bool.and_eq_true_iff.mp h.generated).1
  have apart : ∀ other : String, other.startsWith "mm_" = false → name ≠ other := by
    rintro other hother rfl
    rw [hother] at start
    cases start
  exact ⟨hs, apart "" (by decide), apart "." (by decide), apart ".." (by decide)⟩

theorem Names.isStep (h : kind.Names parts name) (hp : ∀ part ∈ parts, '/' ∉ part.toList) :
    FileTree.IsStep name := by
  refine h.spelled.isStep fun hin => ?_
  obtain ⟨part, hpart, hslash⟩ := h.slash hin
  exact hp part hpart hslash

theorem Names.mono {more : List String} (h : kind.Names parts name) (hp : parts ⊆ more) :
    kind.Names more name :=
  ⟨h.spelled, fun hin => (h.slash hin).imp fun _ hpart => ⟨hp hpart.1, hpart.2⟩⟩

theorem eq_of_isGenerated {kind' : OutputKind} (h : Output.isGenerated kind.extensions name)
    (h' : Output.isGenerated kind'.extensions name) : kind = kind' := by
  have found := (Bool.and_eq_true_iff.mp h).2
  have found' := (Bool.and_eq_true_iff.mp h').2
  cases he : Path.extension? name with
  | none => simp [he] at found
  | some extension =>
    rw [he] at found found'
    have apart : ∀ e ∈ kind.extensions, kind'.extensions.contains e → kind = kind' := by
      cases kind <;> cases kind' <;> decide
    exact apart extension (List.contains_iff_mem.mp found) found'

end OutputKind

def ResolvedMap.nameParts (m : ResolvedMap) : List String :=
  m.metadata.appName :: (m.metadata.users ++ m.maps.map (·.name) ++ m.typedefs.keys)

/-- The names that a description gives to the application, its users, its maps and its typedefs. -/
def Description.nameParts (d : Description) : List String :=
  ((Declaration.metadata? (d.entries .metadata)).elim [] fun declared => declared.appName :: declared.users) ++
    (d.entries .maps).keys ++ (d.entries .typedefs).keys

namespace Resolution

variable {d : Description} {m : ResolvedMap}

theorem metadata_of_resolve (h : resolve d patterns = .ok m) :
    ∀ name ∈ m.metadata.appName :: m.metadata.users, name ∈ d.nameParts := by
  obtain ⟨read, hread, heq⟩ := resolve_read h
  obtain ⟨declared, hdeclared, parts, _, type, _, hchecked⟩ := Metadata.resolve_eq_ok.mp hread
  obtain ⟨_, _, _, _, rfl⟩ := MetadataDecl.checked_eq_ok.mp hchecked
  rw [heq]
  intro name hname
  rw [Description.nameParts, hdeclared]
  exact List.mem_append_left _ (List.mem_append_left _ hname)

theorem typedefs_of_resolve (h : resolve d patterns = .ok m) :
    ∀ name ∈ m.typedefs.keys, name ∈ (d.entries .typedefs).keys := by
  obtain ⟨s, table, published, _, hdeclared, laid, _⟩ := resolve_laid h
  obtain ⟨entries, hread, hexpand⟩ := bind_eq_ok.mp hdeclared
  intro name hname
  obtain ⟨⟨_, t⟩, ht, rfl⟩ := List.mem_map.mp hname
  obtain ⟨decl, hdecl, _⟩ := laid _ t ((published.typedefs _ t).mpr ht)
  have listed := Entries.mem_keys_of_get? hdecl
  rw [expandFrom_keys hexpand, mem_keys_sortByKey, readEntries_keys hread] at listed
  exact listed

theorem nameParts_of_resolve (h : resolve d patterns = .ok m) : ∀ part ∈ m.nameParts, part ∈ d.nameParts := by
  obtain ⟨table, walked⟩ := resolve_walkedFrom h
  intro part hpart
  simp only [ResolvedMap.nameParts, walked.names, ← List.cons_append, List.mem_append] at hpart
  rcases hpart with (hmetadata | hmap) | htypedef
  · exact metadata_of_resolve h part hmetadata
  · exact List.mem_append_left _ (List.mem_append_right _ hmap)
  · exact List.mem_append_right _ (typedefs_of_resolve h part htypedef)

end Resolution

variable {m : ResolvedMap}

namespace Header

def nameParts (m : ResolvedMap) : List String := m.maps.map (·.name) ++ m.typedefs.keys

theorem nameParts_subset : nameParts m ⊆ m.nameParts := by
  simp [nameParts, ResolvedMap.nameParts]

theorem slashFrom_map {f : FlatMap} (h : f ∈ m.maps) : SlashFrom (nameParts m) f.name.toList :=
  .of_part (List.mem_append_left _ (List.mem_map_of_mem h))

theorem slashFrom_typedef {name : String} (h : name ∈ m.typedefs.keys) : SlashFrom (nameParts m) name.toList :=
  .of_part (List.mem_append_right _ h)

theorem slashFrom_lowerName {f : FlatMap} (h : f ∈ m.maps) : SlashFrom (nameParts m) (lowerName f).toList :=
  fun hin => slashFrom_map h (Text.mem_of_mem_lower hin ⟨by decide, by decide⟩)

theorem names_affixed {start stop name : String} {parts : List String} (word : List Char) (extension : String)
    (hstart : start.toList = "mm_".toList ++ word) (hstop : stop.toList = '.' :: extension.toList)
    (he : extension ∈ OutputKind.header.extensions) (hw : '/' ∉ word) (hname : SlashFrom parts name.toList) :
    OutputKind.header.Names parts (affixed start stop name) := by
  refine OutputKind.names_of_toList (word ++ name.toList) extension he ((SlashFrom.of_not_mem hw).append hname) ?_
  rw [toList_affixed, hstart, hstop, List.append_assoc, List.append_assoc]

theorem names_fixed {name : String} {parts : List String} (word : List Char)
    (h : name.toList = "mm_".toList ++ (word ++ ".h".toList)) (hw : '/' ∉ word) : OutputKind.header.Names parts name :=
  OutputKind.names_of_toList word "h" (by decide) (.of_not_mem hw) h

theorem accessFiles_named : ∀ n ∈ (accessFiles m).map (·.name), OutputKind.header.Names (nameParts m) n := by
  by_cases h : m.metadata.users = []
  · simp [accessFiles, h]
  · rw [names_accessFiles h]
    intro n hn
    simp only [List.mem_append, List.mem_cons, List.mem_flatMap, List.mem_map, List.not_mem_nil, or_false] at hn
    rcases hn with (rfl | ⟨_, ⟨f, hf, rfl⟩, rfl | rfl⟩) | rfl
    · exact names_affixed "access_".toList "h" rfl rfl (by decide) (by decide) (.of_not_mem (by decide))
    · exact names_affixed "access_".toList "h" rfl rfl (by decide) (by decide) (slashFrom_lowerName hf)
    · exact names_affixed "access_".toList "c" rfl rfl (by decide) (by decide) (slashFrom_lowerName hf)
    · exact names_fixed "access".toList rfl (by decide)

theorem defaultFiles_named : ∀ n ∈ (defaultFiles m).map (·.name), OutputKind.header.Names (nameParts m) n := by
  rw [names_defaultFiles]
  intro n hn
  simp only [List.mem_cons, List.mem_flatMap, List.mem_map, List.not_mem_nil, or_false] at hn
  obtain ⟨_, ⟨f, hf, rfl⟩, rfl | rfl⟩ := hn
  · exact names_affixed "default_".toList "h" rfl rfl (by decide) (by decide)
      (slashFrom_lowerName (List.mem_of_mem_filter hf))
  · exact names_affixed "default_".toList "c" rfl rfl (by decide) (by decide)
      (slashFrom_lowerName (List.mem_of_mem_filter hf))

theorem typeFiles_named : ∀ n ∈ (typeFiles m).map (·.name), OutputKind.header.Names (nameParts m) n := by
  rw [names_typeFiles]
  refine List.forall_mem_cons.mpr ⟨names_fixed "typedefs".toList rfl (by decide), fun n hn => ?_⟩
  obtain ⟨name, hname, rfl⟩ := List.mem_map.mp hn
  refine names_affixed "typedefs_".toList "h" rfl rfl (by decide) (by decide) ?_
  rcases List.mem_append.mp hname with htypedef | hmap
  · exact slashFrom_typedef htypedef
  · obtain ⟨f, hf, rfl⟩ := List.mem_map.mp hmap
    exact slashFrom_map hf

theorem unlessEmpty_named {α : Type} {entries : List α} {file : SourceFile} {parts : List String}
    (name : String) (hf : file.name = name) (h : OutputKind.header.Names parts name) :
    ∀ n ∈ (unlessEmpty entries file).map (·.name), OutputKind.header.Names parts n := by
  intro n hn
  obtain ⟨f, hmem, rfl⟩ := List.mem_map.mp hn
  rw [mem_unlessEmpty hmem, hf]
  exact h

theorem names_of_mem {hide : Bool} : ∀ n ∈ (writes m hide).map (·.1), OutputKind.header.Names (nameParts m) n := by
  have all : ∀ p ∈ families m, ∀ n ∈ p.2, OutputKind.header.Names (nameParts m) n := by
    simp only [families, List.forall_mem_cons, List.not_mem_nil, false_implies, implies_true, and_true]
    exact ⟨accessFiles_named,
      unlessEmpty_named "mm_bitfields.h" rfl (names_fixed "bitfields".toList rfl (by decide)),
      defaultFiles_named, unlessEmpty_named "mm_defs.h" rfl (names_fixed "defs".toList rfl (by decide)),
      typeFiles_named, names_fixed "cc".toList rfl (by decide), names_fixed "meta".toList rfl (by decide),
      unlessEmpty_named "mm_enums.h" rfl (names_fixed "enums".toList rfl (by decide))⟩
  rw [names_eq]
  intro n hn
  obtain ⟨_, hfamily, hmem⟩ := List.mem_flatten.mp hn
  obtain ⟨p, hp, rfl⟩ := List.mem_map.mp hfamily
  exact all p hp n hmem

end Header

namespace Sheet

def nameParts (m : ResolvedMap) : List String :=
  m.metadata.appName :: (names m ++ m.maps.flatMap fun f => (readers m f).keys)

theorem mem_users_of_reader {f : FlatMap} {user : String} (h : user ∈ (readers m f).keys) :
    user ∈ m.metadata.users := by
  obtain ⟨u, hu, rfl⟩ := List.mem_map.mp h
  obtain ⟨⟨name, bit⟩, hmem, rfl⟩ := List.mem_map.mp (List.mem_of_mem_filter hu)
  have known : name ∈ m.metadata.users := List.fst_mem_of_mem_zipIdx hmem
  exact known

theorem nameParts_subset : nameParts m ⊆ m.nameParts := by
  refine List.cons_subset_cons _ (List.append_subset.mpr ⟨by simp [names], fun user huser => ?_⟩)
  obtain ⟨f, -, hreads⟩ := List.mem_flatMap.mp huser
  simp [mem_users_of_reader hreads]

theorem slashFrom_app : SlashFrom (nameParts m) m.metadata.appName.toList := .of_part List.mem_cons_self

theorem slashFrom_map {f : FlatMap} (h : f ∈ m.maps) : SlashFrom (nameParts m) f.name.toList :=
  .of_part (List.mem_cons_of_mem _ (List.mem_append_left _ (List.mem_map_of_mem h)))

theorem slashFrom_reader {f : FlatMap} (h : f ∈ m.maps) {user : String} (hu : user ∈ (readers m f).keys) :
    SlashFrom (nameParts m) user.toList :=
  .of_part (List.mem_cons_of_mem _ (List.mem_append_right _ (List.mem_flatMap.mpr ⟨f, h, hu⟩)))

theorem not_slash_fullHash {d : Description} (h : resolve d patterns = .ok m) : '/' ∉ m.metadata.fullHash.toList := by
  rw [(Resolution.resolve_metadata h).2]
  exact fun hin => absurd (isAlphanum_of_mem_fingerprint hin) (by decide)

theorem not_slash_fileVersion {d : Description} (h : resolve d patterns = .ok m) :
    '/' ∉ (fileVersion m.metadata.version).toList := by
  obtain ⟨major, minor, patch, hversion, chars⟩ := Metadata.version?_parts (Resolution.resolve_metadata h).1
  have digits : ∀ part ∈ [major, minor, patch], '/' ∉ part :=
    fun part hpart hin => absurd (chars part hpart _ hin) (by decide)
  simp only [List.forall_mem_cons, List.not_mem_nil, false_implies, implies_true, and_true] at digits
  rw [fileVersion, String.toList_ofList, hversion]
  intro hin
  obtain ⟨c, hc, heq⟩ := List.mem_map.mp hin
  split at heq
  · exact absurd heq (by decide)
  · subst heq
    simp [digits] at hc

theorem names_named {base tail : String} (hbase : SlashFrom (nameParts m) base.toList) (htail : '/' ∉ tail.toList) :
    OutputKind.sheet.Names (nameParts m) (named m.metadata.appName base tail) := by
  refine OutputKind.names_of_toList (m.metadata.appName.toList ++ '_' :: (base.toList ++ '_' :: tail.toList)) "csv"
    (by decide) (slashFrom_app.append (.cons (by decide) (hbase.append (.cons (by decide) (.of_not_mem htail))))) ?_
  rw [toList_named]
  simp

theorem slashFrom_names : ∀ base ∈ names m, SlashFrom (nameParts m) base.toList := by
  intro base hbase
  obtain ⟨f, hf, rfl⟩ := List.mem_map.mp hbase
  exact slashFrom_map hf

theorem slashFrom_readNames : ∀ base ∈ readNames m, SlashFrom (nameParts m) base.toList := by
  intro base hbase
  obtain ⟨f, hf, hread⟩ := List.mem_flatMap.mp hbase
  obtain ⟨u, hu, rfl⟩ := List.mem_map.mp hread
  rw [toList_underscored]
  exact (slashFrom_map hf).append (.cons (by decide) (slashFrom_reader hf (List.mem_map_of_mem hu)))

theorem slashFrom_compressedNames : ∀ base ∈ compressedNames m, SlashFrom (nameParts m) base.toList := by
  intro base hbase
  obtain ⟨name, hname, rfl⟩ := List.mem_map.mp hbase
  rw [show (s!"{name}_compressed" : String).toList = name.toList ++ "_compressed".toList from String.toList_append]
  exact (slashFrom_names name hname).append (.of_not_mem (by decide))

theorem names_of_mem {d : Description} (h : resolve d patterns = .ok m) :
    ∀ n ∈ (writes m).map (·.1), OutputKind.sheet.Names (nameParts m) n := by
  intro n hn
  rcases List.mem_append.mp ((names_writes m).mem_iff.mp hn) with hhashed | hversioned
  · obtain ⟨base, hbase, rfl⟩ := List.mem_map.mp hhashed
    exact names_named ((List.mem_append.mp hbase).elim (slashFrom_names base) (slashFrom_readNames base))
      (not_slash_fullHash h)
  · obtain ⟨base, hbase, rfl⟩ := List.mem_map.mp hversioned
    exact names_named ((List.mem_append.mp hbase).elim (slashFrom_names base) (slashFrom_compressedNames base))
      (not_slash_fileVersion h)

end Sheet

namespace Snapshot

theorem names_of_mem {d : Description} (h : resolve d patterns = .ok m) (input : Option Description) :
    ∀ n ∈ (writes m input).map (·.1), OutputKind.snapshot.Names [] n := by
  have resolved : OutputKind.snapshot.Names [] (resolvedFile m) := by
    refine OutputKind.names_of_toList (m.metadata.fullHash.toList ++ "_cfg".toList) "json" (by decide)
      ((SlashFrom.of_not_mem (Sheet.not_slash_fullHash h)).append (.of_not_mem (by decide))) ?_
    change ("mm_" ++ m.metadata.fullHash ++ "_cfg.json").toList = _
    simp
  have merged : OutputKind.snapshot.Names [] inputFile :=
    OutputKind.names_of_toList "input_cfg".toList "yaml" (by decide) (.of_not_mem (by decide)) rfl
  intro n hn
  unfold writes at hn
  rw [List.map_cons] at hn
  rcases List.mem_cons.mp hn with rfl | hinput
  · exact resolved
  · split at hinput
    · split at hinput
      · cases hinput
      · exact List.mem_singleton.mp hinput ▸ merged
    · cases hinput

end Snapshot

namespace Generation

/-- The files of every group are distinct, and each of them has a name of its kind. -/
theorem groups_named {d : Description} (h : resolve d patterns = .ok m) (s : Settings) (o : GenerationOptions) :
    ∀ g ∈ groups s o d m, g.files.keys.Nodup ∧ ∀ file ∈ g.files, g.kind.Names m.nameParts file.1 := by
  simp only [groups, List.forall_mem_cons, List.not_mem_nil, false_implies, implies_true, and_true]
  refine ⟨⟨FileSet.nodup_keys_ofWrites _, fun file hfile => ?_⟩, ⟨FileSet.nodup_keys_ofWrites _, fun file hfile => ?_⟩,
    ⟨FileSet.nodup_keys_ofWrites _, fun file hfile => ?_⟩⟩
  · exact (Header.names_of_mem _ (FileSet.mem_names_of_mem hfile)).mono Header.nameParts_subset
  · exact (Sheet.names_of_mem h _ (FileSet.mem_names_of_mem hfile)).mono Sheet.nameParts_subset
  · exact (Snapshot.names_of_mem h _ _ (FileSet.mem_names_of_mem hfile)).mono (List.nil_subset _)

end Generation

end AddressMap
