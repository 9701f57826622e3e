import AddressMap.Proofs.Header.Directives
import AddressMap.Proofs.Sheet.Files

set_option autoImplicit false

namespace AddressMap

namespace Header

theorem nodup_defined_iff (guard : String) (names : List String) :
    (∀ holds, (defined holds [] (enclosed guard (names.map .define))).Nodup) ↔ (macroName guard :: names).Nodup := by
  simp only [defined_enclosed]
  constructor
  · intro h
    exact h fun _ => true
  · intro h holds
    split
    · exact h
    · exact .nil

/-- Of the branches of the compiler's header, at most one is read. -/
theorem nodup_defined_compiler (holds : String → Bool) :
    (defined holds [] (enclosed (guardName "mm_cc.h") (contents compilerFile))).Nodup := by
  have hguard : macroName (guardName "mm_cc.h") = "MM_CC_H" := by decide
  rw [contents_compiler, enclosed, hguard]
  simp only [defined, List.tail_cons, List.cons_append, List.nil_append]
  by_cases hopen : holds (guardCondition (guardName "mm_cc.h")) <;>
    by_cases hfirst : holds "#if defined(__GNUC__) || defined(__clang__)" <;>
      by_cases hsecond : holds "#elif defined(_MSC_VER)" <;>
        simp [hopen, hfirst, hsecond, Branch.of, turn]

theorem take_userMacro (user : String) : (userMacro user).toList.take 11 = "MM_ACCESS_U".toList := by
  have hall : ∀ ch ∈ "MM_ACCESS_USER_".toList, isNameChar ch := List.all_eq_true.mp rfl
  have hname : (userMacro user).toList =
      "MM_ACCESS_USER_".toList ++ (Text.upper user).toList.takeWhile isNameChar := by
    rw [userMacro, macroName, String.toList_ofList, String.toList_append]
    exact List.takeWhile_append_of_pos hall
  rw [hname]
  rfl

theorem nodup_users (c : ResolvedMap) : (macroName (guardName "mm_access_types.h") :: "MM_ACCESS_READ_SHIFT" ::
    "MM_ACCESS_WRITE_MASK" :: userMacros c).Nodup ↔ (userMacros c).Nodup := by
  have hother : ∀ name : String, name.toList.take 11 ≠ "MM_ACCESS_U".toList → name ∉ userMacros c := by
    intro name hname hmem
    obtain ⟨user, _, rfl⟩ := List.mem_map.mp hmem
    exact hname (take_userMacro user)
  have hguard : macroName (guardName "mm_access_types.h") = "MM_ACCESS_TYPES_H" := by decide
  have htypes := hother "MM_ACCESS_TYPES_H" (by decide)
  have hshift := hother "MM_ACCESS_READ_SHIFT" (by decide)
  have hmask := hother "MM_ACCESS_WRITE_MASK" (by decide)
  rw [hguard]
  simp [htypes, hshift, hmask]

section Run

variable {c : ResolvedMap} {hide : Bool} {f : SourceFile}

def fileFamilies (c : ResolvedMap) : List (List Char × List SourceFile) := [
  (stem "mm_access.h", accessFiles c),
  (stem "mm_bitfields.h", unlessEmpty c.bitfields (bitfieldsFile c)),
  (stem "mm_default.h", defaultFiles c),
  (stem "mm_defs.h", unlessEmpty c.defines (definesFile c)),
  (stem "mm_typedefs.h", typeFiles c),
  (stem "mm_cc.h", [compilerFile]),
  (stem "mm_meta.h", [metadataFile c.metadata]),
  (stem "mm_enums.h", unlessEmpty c.enums (enumsFile c))]

theorem sources_eq_families (c : ResolvedMap) : sources c = ((fileFamilies c).map (·.2)).flatten := by
  simp [sources, fileFamilies, typeFiles]

theorem stem_fileFamilies {p : List Char × List SourceFile} (hp : p ∈ fileFamilies c) (hf : f ∈ p.2) :
    stem f.name = p.1 := by
  have hnames : families c = (fileFamilies c).map fun p => (p.1, p.2.map (·.name)) := rfl
  have hfamily : (p.1, p.2.map (·.name)) ∈ families c := hnames ▸ List.mem_map_of_mem hp
  exact stem_families _ hfamily f.name (List.mem_map_of_mem hf)

theorem mem_of_stem {p : List Char × List SourceFile} (hp : p ∈ fileFamilies c) (hf : f ∈ sources c)
    (h : stem f.name = p.1) : f ∈ p.2 := by
  have hstems : ((fileFamilies c).map (·.1)).Nodup := by
    simp only [fileFamilies, List.map_cons, List.map_nil]
    decide
  rw [sources_eq_families, List.mem_flatten] at hf
  obtain ⟨family, hfamily, hf⟩ := hf
  obtain ⟨q, hq, rfl⟩ := List.mem_map.mp hfamily
  obtain rfl := List.inj_on_of_nodup_map hstems hp hq (h.symm.trans (stem_fileFamilies hq hf))
  exact hf

theorem eq_enumsFile (hf : f ∈ sources c) (h : f.name = "mm_enums.h") : f = enumsFile c :=
  mem_unlessEmpty (mem_of_stem (p := (stem "mm_enums.h", unlessEmpty c.enums (enumsFile c)))
    (by simp [fileFamilies]) hf (congrArg stem h))

theorem eq_definesFile (hf : f ∈ sources c) (h : f.name = "mm_defs.h") : f = definesFile c :=
  mem_unlessEmpty (mem_of_stem (p := (stem "mm_defs.h", unlessEmpty c.defines (definesFile c)))
    (by simp [fileFamilies]) hf (congrArg stem h))

def behindUsers (c : ResolvedMap) : List SourceFile :=
  c.maps.flatMap (fun m => [accessHeader m, accessSource m]) ++ [accessFile c] ++
    ((fileFamilies c).tail.map (·.2)).flatten

theorem sources_eq_users (h : c.metadata.users ≠ []) : sources c = accessTypesFile c :: behindUsers c := by
  simp [sources_eq_families, fileFamilies, accessFiles, behindUsers, h]

theorem stem_tail (hf : f ∈ ((fileFamilies c).tail.map (·.2)).flatten) : stem f.name ≠ stem "mm_access.h" := by
  have hstems : stem "mm_access.h" ∉ (fileFamilies c).tail.map (·.1) := by
    simp only [fileFamilies, List.tail_cons, List.map_cons, List.map_nil]
    decide
  obtain ⟨family, hfamily, hf⟩ := List.mem_flatten.mp hf
  obtain ⟨p, hp, rfl⟩ := List.mem_map.mp hfamily
  intro h
  refine hstems (List.mem_map.mpr ⟨p, hp, ?_⟩)
  rw [← h, stem_fileFamilies (List.mem_of_mem_tail hp) hf]

/-- Only the header of a map can take the place of that of the users. -/
theorem accessHeader_of_name (hf : f ∈ behindUsers c) (h : f.name = "mm_access_types.h") :
    ∃ m ∈ c.maps, lowerName m = "types" ∧ f = accessHeader m := by
  have hname : f.name = affixed "mm_access_" ".h" "types" := h
  simp only [behindUsers, List.mem_append, List.mem_flatMap, List.mem_cons, List.not_mem_nil, or_false] at hf
  rcases hf with (⟨m, hm, rfl | rfl⟩ | rfl) | hf
  · exact ⟨m, hm, affixed_injective "mm_access_" ".h" hname, rfl⟩
  · exact absurd hname (affixed_ne_of_last (by decide) (by decide) (by decide)).symm
  · exact absurd (show "mm_access.h" = "mm_access_types.h" from h) (by decide)
  · exact absurd (congrArg stem h) (stem_tail hf)

/-- Under the name of the header of the users, that of a map stands if a map has the name. -/
def Placed (c : ResolvedMap) (f : SourceFile) : Prop :=
  f.name = "mm_access_types.h" → f = accessTypesFile c ∧ "types" ∉ c.maps.map lowerName ∨
    ∃ m ∈ c.maps, lowerName m = "types" ∧ f = accessHeader m

theorem source_of_get? {name text : String} (h : (files c hide).get? name = some text) :
    ∃ f ∈ sources c, f.name = name ∧ f.text (banner c hide) = text ∧ Placed c f := by
  by_cases husers : c.metadata.users = []
  · obtain ⟨f, hf, rfl, rfl, _⟩ := files_get? h
    refine ⟨f, hf, rfl, rfl, fun hname => absurd (congrArg stem hname) (stem_tail (c := c) ?_)⟩
    simpa [sources_eq_families, fileFamilies, accessFiles, husers] using hf
  rw [files, FileSet.ofWrites, writes, sources_eq_users husers, List.map_cons, List.foldl_cons] at h
  rw [sources_eq_users husers]
  rcases FileSet.mem_of_get?_foldl h with hwrite | ⟨hout, hget⟩
  · obtain ⟨f, hf, heq⟩ := List.mem_map.mp hwrite
    cases heq
    exact ⟨f, List.mem_cons_of_mem _ hf, rfl, rfl, fun hname => .inr (accessHeader_of_name hf hname)⟩
  · rw [Entries.get?_insert] at hget
    split at hget
    · rename_i hname
      cases hget
      refine ⟨accessTypesFile c, List.mem_cons_self, hname.symm, rfl, fun _ => .inl ⟨rfl, fun htypes => hout ?_⟩⟩
      obtain ⟨m, hm, hmap⟩ := List.mem_map.mp htypes
      have hheader : accessHeader m ∈ behindUsers c :=
        List.mem_append_left _ (List.mem_append_left _ (List.mem_flatMap.mpr ⟨m, hm, List.mem_cons_self⟩))
      have hfile : (accessHeader m).name = name := (congrArg (affixed "mm_access_" ".h") hmap).trans hname.symm
      exact List.mem_map.mpr ⟨_, List.mem_map_of_mem hheader, hfile⟩
    · cases hget

theorem contents_cases (hf : f ∈ sources c) (hheader : isHeader f.name) : contents f = [] ∨
    f = accessTypesFile c ∨ f = definesFile c ∨ f = compilerFile ∨ f = metadataFile c.metadata ∨
    f = enumsFile c := by
  simp only [sources_eq_families, fileFamilies, List.map_cons, List.map_nil, List.flatten_cons, List.flatten_nil,
    List.mem_append, List.mem_singleton, List.not_mem_nil, or_false] at hf
  rcases hf with hf | hf | hf | hf | hf | rfl | rfl | hf
  · obtain ⟨_, rfl | ⟨m, _, rfl | rfl⟩ | rfl⟩ := mem_accessFiles.mp hf
    · simp
    · exact .inl (contents_accessHeader m)
    · exact absurd hheader (not_isHeader_affixed "mm_access_" (lowerName m))
    · exact .inl (contents_access c)
  · obtain rfl := mem_unlessEmpty hf
    exact .inl (contents_bitfields c)
  · obtain ⟨m, _, _, rfl | rfl⟩ := mem_defaultFiles.mp hf
    · exact .inl (contents_defaultHeader m)
    · exact absurd hheader (not_isHeader_affixed "mm_default_" (lowerName m))
  · obtain rfl := mem_unlessEmpty hf
    simp
  · simp only [typeFiles, List.mem_cons, List.mem_append, List.mem_map] at hf
    obtain rfl | ⟨e, _, rfl⟩ | ⟨m, _, rfl⟩ := hf
    · exact .inl (contents_typedefs c)
    · exact .inl (contents_typedef c e.1 e.2)
    · exact .inl (contents_map c m)
  · simp
  · simp
  · obtain rfl := mem_unlessEmpty hf
    simp

/-- What keeps the macros of the header of this name apart. -/
structure MacrosApart (c : ResolvedMap) (name : String) : Prop where
  enums : name = "mm_enums.h" → ("MM_ENUMS_H" :: enumMacros c).Nodup
  defines : name = "mm_defs.h" → ("MM_DEFS_H" :: defineMacros c).Nodup
  /-- A map of this name puts its own header in the place of that of the users. -/
  users : name = "mm_access_types.h" → "types" ∉ c.maps.map lowerName → (userMacros c).Nodup

theorem macrosApart_of_ne {name : String} (henums : name ≠ "mm_enums.h") (hdefines : name ≠ "mm_defs.h")
    (husers : name ≠ "mm_access_types.h") : MacrosApart c name :=
  ⟨fun h => absurd h henums, fun h => absurd h hdefines, fun h => absurd h husers⟩

theorem macrosApart_enums : MacrosApart c "mm_enums.h" ↔ ("MM_ENUMS_H" :: enumMacros c).Nodup :=
  ⟨fun h => h.enums rfl, fun h => ⟨fun _ => h, fun hname => absurd hname (by decide),
    fun hname => absurd hname (by decide)⟩⟩

theorem macrosApart_defines : MacrosApart c "mm_defs.h" ↔ ("MM_DEFS_H" :: defineMacros c).Nodup :=
  ⟨fun h => h.defines rfl, fun h => ⟨fun hname => absurd hname (by decide), fun _ => h,
    fun hname => absurd hname (by decide)⟩⟩

theorem macrosApart_users (htypes : "types" ∉ c.maps.map lowerName) :
    MacrosApart c "mm_access_types.h" ↔ (userMacros c).Nodup :=
  ⟨fun h => h.users rfl htypes, fun h => ⟨fun hname => absurd hname (by decide),
    fun hname => absurd hname (by decide), fun _ _ => h⟩⟩

/-- Where a header has no macros of its own, there are none to be kept apart. -/
theorem macrosApart_of_contents (hf : f ∈ sources c) (h : contents f = []) (hplaced : Placed c f) :
    MacrosApart c f.name := by
  refine ⟨fun hname => ?_, fun hname => ?_, fun hname htypes => ?_⟩
  · rw [eq_enumsFile hf hname, contents_enums, List.map_eq_nil_iff] at h
    rw [h]
    exact List.nodup_singleton _
  · rw [eq_definesFile hf hname, contents_defines, List.map_eq_nil_iff] at h
    rw [h]
    exact List.nodup_singleton _
  · rcases hplaced hname with ⟨rfl, _⟩ | ⟨m, hm, hmap, _⟩
    · rw [contents_users] at h
      cases h
    · exact absurd (List.mem_map.mpr ⟨m, hm, hmap⟩) htypes

theorem nodup_defined_contents (hf : f ∈ sources c) (hheader : isHeader f.name) (hplaced : Placed c f) :
    (∀ holds, (defined holds [] (enclosed (guardName f.name) (contents f))).Nodup) ↔ MacrosApart c f.name := by
  rcases contents_cases hf hheader with hnone | rfl | rfl | rfl | rfl | rfl
  · rw [hnone]
    exact iff_of_true ((nodup_defined_iff _ []).mpr (List.nodup_singleton _))
      (macrosApart_of_contents hf hnone hplaced)
  · rw [contents_users, nodup_defined_iff]
    rcases hplaced rfl with ⟨_, htypes⟩ | ⟨m, _, _, heq⟩
    · exact (nodup_users c).trans (macrosApart_users htypes).symm
    · exact absurd (congrArg (·.parts.length) heq) (show ¬1 = 2 by decide)
  · rw [contents_defines, nodup_defined_iff]
    have hguard : macroName (guardName "mm_defs.h") = "MM_DEFS_H" := by decide
    exact (hguard ▸ macrosApart_defines).symm
  · exact iff_of_true nodup_defined_compiler
      (@macrosApart_of_ne c "mm_cc.h" (by decide) (by decide) (by decide))
  · rw [contents_metadata, nodup_defined_iff]
    have hapart : (macroName (guardName "mm_meta.h") :: ["MM_APP_NAME", "MM_VERSION_STR", "MM_MAJOR_VERSION",
        "MM_MINOR_VERSION", "MM_PATCH_VERSION", "MM_FW_HASH", "MM_HASH"]).Nodup := by decide
    exact iff_of_true hapart (@macrosApart_of_ne c "mm_meta.h" (by decide) (by decide) (by decide))
  · rw [contents_enums, nodup_defined_iff]
    have hguard : macroName (guardName "mm_enums.h") = "MM_ENUMS_H" := by decide
    exact (hguard ▸ macrosApart_enums).symm

/-- Whatever conditions are fulfilled, the lines of a header that are read define different macros, exactly if
    the macros that are made of names are apart. Texts with line breaks go on without directives. -/
theorem macros_exact {name text : String} (hget : (files c hide).get? name = some text) (hheader : isHeader name)
    (hbroken : ∀ f ∈ sources c, f.name = name → ∀ line ∈ f.lines (banner c hide), Continued line) :
    (∀ holds, (defined holds [] (directives (textLines text))).Nodup) ↔ MacrosApart c name := by
  obtain ⟨f, hf, rfl, rfl, hplaced⟩ := source_of_get? hget
  rw [directives_text (hbroken f hf rfl), directives_lines _ hheader]
  exact nodup_defined_contents hf hheader hplaced

end Run

end Header

/-- An enum with members that differ in case only. -/
def Description.oneMacro : Description where
  sections := [
    ("metadata", .object [("app_name", .string "board"), ("default_type", .string "uint8_t")]),
    ("enums", .object [("e", .object [("elements", .array [.string "a", .string "A"])])]),
    ("typedefs", .object [("root", .object [("elements", .array [
      .object [("name", .string "mode"), ("type", .string "e")]])])]),
    ("generated_maps", .object [("board", .object [("type", .string "root")])])]

namespace Header

theorem finished_oneMacro : (Resolution.finished .oneMacro).error.isNone ∧
    (Resolution.finished .oneMacro).state.metadata.isSome ∧
    (Resolution.finished .oneMacro).state.finish.enums.map (fun e => (e.1, e.2.base, e.2.description)) =
      [("e", .u8, none)] ∧
    (Resolution.finished .oneMacro).state.finish.enums.map (fun e =>
      e.2.members.map fun x => (x.name, x.resolved, x.description)) = [[("a", 0, none), ("A", 1, none)]] ∧
    (Metadata.resolve (Description.oneMacro.entries .metadata)).toOption.map (·.version) = some "0.0.0" := by
  decide +kernel

theorem enums_oneMacro {c : ResolvedMap}
    (h : c.enums.map (fun e => (e.1, e.2.base, e.2.description)) = [("e", .u8, none)])
    (hmembers : c.enums.map (fun e => e.2.members.map fun x => (x.name, x.resolved, x.description)) =
      [[("a", 0, none), ("A", 1, none)]]) :
    enumMacros c = ["E_A", "E_A"] ∧
      c.enums.map (fun e => enumLines e.1 e.2) = [["#define E_A (0)", "#define E_A (1)"]] := by
  obtain ⟨⟨name, e⟩, henums, heq⟩ := List.map_eq_singleton_iff.mp h
  obtain ⟨hname, hbase, hdescription⟩ : name = "e" ∧ e.base = .u8 ∧ e.description = none := by simpa using heq
  have two : e.members.map (fun x => (x.name, x.resolved, x.description)) = [("a", 0, none), ("A", 1, none)] := by
    rw [henums] at hmembers
    exact List.singleton_inj.mp hmembers
  obtain ⟨first, rest, hrest, hfirst, hsecond⟩ := List.map_eq_cons_iff.mp two
  obtain ⟨second, rfl, hsecond⟩ := List.map_eq_singleton_iff.mp hsecond
  obtain ⟨hfirstName, hfirstValue, hfirstDoc⟩ : first.name = "a" ∧ first.resolved = 0 ∧ first.description = none := by
    simpa using hfirst
  obtain ⟨hsecondName, hsecondValue, hsecondDoc⟩ :
      second.name = "A" ∧ second.resolved = 1 ∧ second.description = none := by
    simpa using hsecond
  constructor
  · simp only [enumMacros, henums, List.flatMap_cons, List.flatMap_nil, hrest, List.map_cons, List.map_nil,
      memberMacro, hname, hfirstName, hsecondName]
    decide +kernel
  · simp only [henums, enumLines, List.map_cons, List.map_nil, hrest, hdescription, hname, hbase, hfirstName,
      hfirstValue, hfirstDoc, hsecondName, hsecondValue, hsecondDoc]
    decide +kernel

theorem unbroken_oneMacro (hide : Bool) (lines : List String) (h : lines = SourceFile.lines
      ⟨"0.0.0", if hide then none else some generatorVersion⟩
      ⟨"mm_enums.h", "enums", [part "defines" ["#define E_A (0)", "#define E_A (1)"]]⟩) :
    ∀ line ∈ lines, '\n' ∉ line.toList := by
  subst h
  cases hide <;> decide +kernel

/-- Both members of the enum are written as one macro, with different values. -/
theorem oneMacro_twice : ∃ c, resolve .oneMacro = .ok c ∧ ∀ hide, ∃ text,
    (files c hide).get? "mm_enums.h" = some text ∧
      ¬∀ holds, (defined holds [] (directives (textLines text))).Nodup := by
  obtain ⟨hnone, hmeta, henums, hmembers, hversion⟩ := finished_oneMacro
  obtain ⟨c, m, hc, hfinish⟩ := Resolution.resolves_of_finished hnone hmeta
  obtain ⟨hmacros, hlines⟩ := enums_oneMacro (c := c) (hfinish ▸ henums) (hfinish ▸ hmembers)
  obtain ⟨read, hread, hmetadata⟩ := Resolution.resolve_read hc
  have version : c.metadata.version = "0.0.0" := by
    rw [hread] at hversion
    rw [hmetadata]
    exact Option.some.inj hversion
  refine ⟨c, hc, fun hide => ?_⟩
  have hkey : "mm_enums.h" ∈ (files c hide).keys := by
    refine mem_keys_files.mpr (named_enums fun hnil => ?_)
    rw [hnil] at hlines
    cases hlines
  obtain ⟨text, hget⟩ := Option.isSome_iff_exists.mp (Entries.get?_isSome_iff.mpr hkey)
  refine ⟨text, hget, fun hnodup => ?_⟩
  have hbroken : ∀ f ∈ sources c, f.name = "mm_enums.h" → ∀ line ∈ f.lines (banner c hide), Continued line := by
    intro f hf hname line hline
    obtain rfl := eq_enumsFile hf hname
    have hplain := unbroken_oneMacro hide _ (by rw [enumsFile, hlines, banner, version]; rfl) line hline
    rw [Continued, textLines_of_unbroken hplain]
    exact fun _ hmem => by cases hmem
  have hheader : isHeader "mm_enums.h" := isHeader_iff.mpr ⟨"mm_enums".toList, by decide⟩
  have htwice := ((macros_exact hget hheader hbroken).mp hnodup).enums rfl
  rw [hmacros] at htwice
  exact absurd htwice (by decide)

end Header

end AddressMap
