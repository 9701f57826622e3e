import AddressMap.Proofs.Header.Files
import AddressMap.Proofs.Resolution.Links

set_option autoImplicit false

namespace AddressMap

variable {patterns : PatternReader}

def textLines (text : String) : List String := (text.toList.splitOn '\n').map String.ofList

theorem textLines_append (line rest : String) :
    textLines (line ++ "\n" ++ rest) = textLines line ++ textLines rest := by
  unfold textLines
  rw [String.toList_append, String.toList_append, List.append_assoc, ← List.map_append]
  exact congrArg _ (List.splitOn_append_cons_self _ _)

theorem textLines_of_unbroken {line : String} (h : '\n' ∉ line.toList) : textLines line = [line] := by
  unfold textLines
  rw [List.splitOn_eq_singleton h, List.map_singleton, String.ofList_toList]

namespace Header

theorem textLines_text (b : Banner) (f : SourceFile) :
    textLines (f.text b) = (f.lines b).flatMap textLines ++ ["/** @\x7d **/"] := by
  unfold SourceFile.text
  induction f.lines b with
  | nil => rfl
  | cons line rest ih =>
    rw [List.map_cons, String.join_cons, String.append_assoc, textLines_append, ih, List.flatMap_cons,
      List.append_assoc]

@[simp]
theorem includeLine_inj {file other : String} : includeLine file = includeLine other ↔ file = other :=
  (affixed_injective "#include \"" "\"").eq_iff

def Foreign (line : String) : Prop := line.toList.take 3 ≠ "#in".toList

theorem Foreign.ne_includeLine {line : String} (h : Foreign line) (file : String) :
    includeLine file ≠ line := by
  rintro rfl
  exact h (@take_affixed "#include \"" "\"" file 3 (by decide))

def Plain (lines : List String) : Prop := ∀ line ∈ lines, Foreign line

theorem Plain.not_mem {lines : List String} (h : Plain lines) (file : String) : includeLine file ∉ lines :=
  fun hmem => (h _ hmem).ne_includeLine file rfl

@[simp]
theorem includeLine_ne_empty (file : String) : includeLine file ≠ "" :=
  Foreign.ne_includeLine (by simp [Foreign]) file

@[simp]
theorem includeLine_ne_system (file : String) : includeLine file ≠ systemInclude := by
  simp [includeLine, systemInclude, String.ext_iff, toString]

theorem foreign_title (name : String) (lines : List String) : Foreign (part name lines).title := by
  simp [Foreign, part, toString]

theorem foreign_typedefsTitle (lines : List String) : Foreign (typedefsPart lines).title := by
  simp [Foreign, typedefsPart, typedefsTitle, toString]

theorem plain_banner (b : Banner) (f : SourceFile) : Plain (b.lines f) := by
  unfold Banner.lines
  cases b.generator <;> simp [Plain, Foreign, toString, stars]

theorem plain_guardOpening (guard : String) : Plain (guardOpening guard) := by
  simp [Plain, Foreign, guardOpening, toString]

theorem plain_guardClosing (guard : String) : Plain (guardClosing guard) := by
  simp [Plain, Foreign, guardClosing, toString]

/-- One of the parts has a line that includes the file. -/
def Includes (f : SourceFile) (file : String) : Prop := ∃ p ∈ f.parts, includeLine file ∈ p.lines

theorem includes_of_mem_lines {f : SourceFile} {b : Banner} {file : String}
    (ht : ∀ p ∈ f.parts, Foreign p.title) (h : includeLine file ∈ f.lines b) : Includes f file := by
  simp only [SourceFile.lines, List.mem_append, List.mem_flatMap] at h
  rcases h with ((h | h) | ⟨p, hp, h⟩) | h
  · exact absurd h ((plain_banner b f).not_mem file)
  · split at h
    · exact absurd h ((plain_guardOpening _).not_mem file)
    · cases h
  · rcases List.mem_cons.mp h with h | h
    · exact absurd h (includeLine_ne_empty file)
    · rcases List.mem_cons.mp h with h | h
      · exact absurd h ((ht p hp).ne_includeLine file)
      · exact ⟨p, hp, h⟩
  · split at h
    · exact absurd h ((plain_guardClosing _).not_mem file)
    · exact absurd (List.mem_singleton.mp h) (includeLine_ne_empty file)

theorem mem_lines_of_includes {f : SourceFile} {file : String} (h : Includes f file) (b : Banner) :
    includeLine file ∈ f.lines b := by
  obtain ⟨p, hp, hline⟩ := h
  simp only [SourceFile.lines, List.mem_append, List.mem_flatMap]
  exact .inl (.inr ⟨p, hp, List.mem_cons_of_mem _ (List.mem_cons_of_mem _ hline)⟩)

theorem Plain.append {lines others : List String} (h : Plain lines) (h' : Plain others) :
    Plain (lines ++ others) :=
  List.forall_mem_append.mpr ⟨h, h'⟩

theorem plain_map {α : Type} {line : α → String} (h : ∀ x, Foreign (line x)) (xs : List α) :
    Plain (xs.map line) := by
  intro l hl
  obtain ⟨x, _, rfl⟩ := List.mem_map.mp hl
  exact h x

theorem plain_separated {blocks : List (List String)} (h : ∀ lines ∈ blocks, Plain lines) :
    Plain (separated blocks) := by
  induction blocks with
  | nil => exact fun _ hl => by cases hl
  | cons block rest ih =>
    obtain ⟨hblock, hrest⟩ := List.forall_mem_cons.mp h
    cases rest with
    | nil => exact hblock
    | cons next rest =>
      refine hblock.append (List.forall_mem_cons.mpr ⟨?_, ih hrest⟩)
      simp [Foreign]

theorem plain_unionLines {description : Option String} {name : String} {members : List String} {size : Nat}
    (h : Plain members) : Plain (unionLines description name members size) := by
  refine ((Plain.append ?_ ?_).append h).append ?_
  · cases description <;> simp [Plain, Foreign, toString]
  · simp [Plain, Foreign]
  · simp [Plain, Foreign, toString]

theorem plain_bitfieldLines (c : ResolvedMap) (name : String) (b : Bitfield) :
    Plain (bitfieldLines c name b) :=
  plain_unionLines (plain_map (fun _ => by simp [Foreign, memberLine, toString]) _)

theorem plain_enumLines (name : String) (e : Enumeration) : Plain (enumLines name e) := by
  refine Plain.append ?_ (plain_map (fun _ => by simp [Foreign, toString]) _)
  cases e.description <;> simp [Plain, Foreign, toString]

theorem plain_tableLines (table : List Nat) : Plain (tableLines table) :=
  plain_map (fun _ => by simp [Foreign]) _

theorem plain_defaultLines (m : FlatMap) : Plain (defaultLines m) := by
  intro line hline
  obtain ⟨r, _, hr⟩ := List.mem_filterMap.mp hline
  obtain ⟨x, _, rfl⟩ := Option.map_eq_some_iff.mp hr
  simp [Foreign, toString]

section Files

variable {c : ResolvedMap} {m : FlatMap} {file : String}

theorem includes_first {f : SourceFile} {first : Part} {rest : List Part} (hf : f.parts = first :: rest)
    (hrest : ∀ p ∈ rest, Plain p.lines) : Includes f file ↔ includeLine file ∈ first.lines := by
  simp only [Includes, hf, List.mem_cons, or_and_right, exists_or, exists_eq_left]
  refine or_iff_left ?_
  rintro ⟨p, hp, hline⟩
  exact (hrest p hp).not_mem file hline

theorem not_includes {f : SourceFile} (h : ∀ p ∈ f.parts, Plain p.lines) : ¬Includes f file :=
  fun ⟨p, hp, hline⟩ => (h p hp).not_mem file hline

theorem not_includes_accessTypesFile : ¬Includes (accessTypesFile c) file := by
  refine not_includes (List.forall_mem_singleton.mpr (Plain.append ?_ (plain_map (fun _ => ?_) _)))
  · simp [Plain, Foreign]
  · simp [Foreign, toString]

theorem not_includes_definesFile : ¬Includes (definesFile c) file := by
  refine not_includes (List.forall_mem_singleton.mpr (plain_map (fun _ => ?_) _))
  simp [Foreign, toString]

theorem not_includes_enumsFile : ¬Includes (enumsFile c) file := by
  refine not_includes (List.forall_mem_singleton.mpr (plain_separated ?_))
  intro lines hlines
  obtain ⟨e, _, rfl⟩ := List.mem_map.mp hlines
  exact plain_enumLines e.1 e.2

theorem not_includes_compilerFile : ¬Includes compilerFile file := by
  refine not_includes (List.forall_mem_singleton.mpr ?_)
  simp [Plain, Foreign, part]

theorem not_includes_metadataFile (data : Metadata) : ¬Includes (metadataFile data) file := by
  refine not_includes (List.forall_mem_singleton.mpr ?_)
  simp [Plain, Foreign, part, toString]

theorem includes_accessHeader (h : Includes (accessHeader m) file) : file = typedefFileName m.name := by
  have hplain : Plain [s!"extern const uint8_t {accessName m}[sizeof({m.name})];"] := by
    simp [Plain, Foreign, toString]
  simpa [part] using (includes_first rfl (List.forall_mem_singleton.mpr hplain)).mp h

theorem includes_accessSource (h : Includes (accessSource m) file) : file = s!"{accessName m}.h" := by
  have hplain : Plain ([s!"const uint8_t {accessName m}[{m.size}] = \x7b"] ++ tableLines (accessTable m) ++
      ["\x7d;"]) := by
    refine (Plain.append ?_ (plain_tableLines _)).append ?_ <;> simp [Plain, Foreign, toString]
  simpa [part] using (includes_first rfl (List.forall_mem_singleton.mpr hplain)).mp h

theorem includes_accessFile (h : Includes (accessFile c) file) :
    file = "mm_access_types.h" ∨ ∃ m ∈ c.maps, s!"{accessName m}.h" = file := by
  simpa [part] using (includes_first rfl fun _ hp => by cases hp).mp h

theorem includes_defaultHeader (h : Includes (defaultHeader m) file) : file = typedefFileName m.name := by
  have hplain : Plain ["/**", s!" * @brief Set every record of a {m.name} to its default value.", " */",
      s!"{initialiser m};"] := by
    simp [Plain, Foreign, initialiser, toString]
  simpa [part] using (includes_first rfl (List.forall_mem_singleton.mpr hplain)).mp h

theorem includes_defaultSource (h : Includes (defaultSource m) file) : file = s!"{defaultName m}.h" := by
  have hplain : Plain ([initialiser m, "\x7b"] ++ defaultLines m ++ ["\x7d"]) := by
    refine (Plain.append ?_ (plain_defaultLines m)).append ?_ <;> simp [Plain, Foreign, initialiser, toString]
  simpa [part] using (includes_first rfl (List.forall_mem_singleton.mpr hplain)).mp h

theorem includes_bitfieldsFile (h : Includes (bitfieldsFile c) file) :
    file = "mm_cc.h" ∨ c.defines ≠ [] ∧ file = "mm_defs.h" := by
  have hplain : Plain (separated (c.bitfields.map fun b => bitfieldLines c b.1 b.2)) := by
    refine plain_separated fun lines hlines => ?_
    obtain ⟨b, _, rfl⟩ := List.mem_map.mp hlines
    exact plain_bitfieldLines c b.1 b.2
  have hline := (includes_first rfl (List.forall_mem_singleton.mpr hplain)).mp h
  by_cases hdefines : c.defines = [] <;> simpa [part, hdefines] using hline

theorem includes_typedefsFile (h : Includes (typedefsFile c) file) :
    ∃ m ∈ c.maps, typedefFileName m.name = file := by
  simpa [part] using (includes_first rfl fun _ hp => by cases hp).mp h

theorem includes_typedefFile {name : String} {t : Typedef} : Includes (typedefFile c name t) file ↔
    file = "mm_cc.h" ∨ (∃ dep ∈ t.deps, typedefFileName dep = file) ∨
      (t.usesBitfields ∧ file = "mm_bitfields.h") ∨ (t.usesEnums ∧ file = "mm_enums.h") ∨
        (t.usesDefines ∧ file = "mm_defs.h") := by
  have hplain : Plain (unionLines t.description name (t.elements.map (elementLine c)) t.size) :=
    plain_unionLines (plain_map (fun _ => by simp [Foreign, elementLine, toString]) _)
  rw [includes_first rfl (List.forall_mem_singleton.mpr hplain)]
  simp [part]

theorem includes_mapFile (h : Includes (mapFile c m) file) :
    file = "mm_cc.h" ∨
      (∃ t, c.typedefs.get? m.type = some t ∧ ∃ dep ∈ t.deps, typedefFileName dep = file) ∨
        file = typedefFileName m.type := by
  have hplain : Plain [s!"typedef {m.type} {m.name};"] := by
    simp [Plain, Foreign, toString]
  have hline := (includes_first rfl (List.forall_mem_singleton.mpr hplain)).mp h
  cases ht : c.typedefs.get? m.type with
  | none => simpa [part, ht] using hline
  | some t => simpa [part, ht] using hline

end Files

def earlierFiles (c : ResolvedMap) : List SourceFile :=
  accessFiles c ++ unlessEmpty c.bitfields (bitfieldsFile c) ++ defaultFiles c ++
    unlessEmpty c.defines (definesFile c) ++ [typedefsFile c]

def laterFiles (c : ResolvedMap) : List SourceFile :=
  c.maps.map (mapFile c) ++ [compilerFile, metadataFile c.metadata] ++ unlessEmpty c.enums (enumsFile c)

theorem sources_eq (c : ResolvedMap) :
    sources c = earlierFiles c ++ c.typedefs.map (fun t => typedefFile c t.1 t.2) ++ laterFiles c := by
  simp [sources, earlierFiles, laterFiles]

def Named (c : ResolvedMap) (file : String) : Prop := file ∈ (sources c).map (·.name)

section Named

variable {c : ResolvedMap} {m : FlatMap}

theorem named_of_mem {f : SourceFile} (h : f ∈ sources c) : Named c f.name := List.mem_map_of_mem h

theorem mem_unlessEmpty_self {α : Type} {entries : List α} {file : SourceFile} (h : entries ≠ []) :
    file ∈ unlessEmpty entries file := by
  rw [unlessEmpty, if_neg (by simpa using h)]
  exact List.mem_singleton_self _

theorem named_compiler : Named c "mm_cc.h" :=
  named_of_mem (f := compilerFile) (by simp [sources])

theorem named_bitfields (h : c.bitfields ≠ []) : Named c "mm_bitfields.h" :=
  named_of_mem (f := bitfieldsFile c) (by simp [sources, mem_unlessEmpty_self h])

theorem named_enums (h : c.enums ≠ []) : Named c "mm_enums.h" :=
  named_of_mem (f := enumsFile c) (by simp [sources, mem_unlessEmpty_self h])

theorem named_defines (h : c.defines ≠ []) : Named c "mm_defs.h" :=
  named_of_mem (f := definesFile c) (by simp [sources, mem_unlessEmpty_self h])

theorem named_typedef {name : String} (h : name ∈ c.typedefs.keys) : Named c (typedefFileName name) := by
  obtain ⟨e, he, rfl⟩ := List.mem_map.mp h
  refine named_of_mem (f := typedefFile c e.1 e.2) ?_
  rw [sources_eq]
  exact List.mem_append_left _ (List.mem_append_right _ (List.mem_map.mpr ⟨e, he, rfl⟩))

theorem named_map (h : m ∈ c.maps) : Named c (typedefFileName m.name) := by
  refine named_of_mem (f := mapFile c m) ?_
  rw [sources_eq, laterFiles]
  simp [List.mem_map_of_mem h]

theorem mem_accessFiles {f : SourceFile} : f ∈ accessFiles c ↔ c.metadata.users ≠ [] ∧
    (f = accessTypesFile c ∨ (∃ m ∈ c.maps, f = accessHeader m ∨ f = accessSource m) ∨ f = accessFile c) := by
  by_cases h : c.metadata.users = [] <;> simp [accessFiles, h]

theorem mem_defaultFiles {f : SourceFile} : f ∈ defaultFiles c ↔
    ∃ m ∈ c.maps, defaultLines m ≠ [] ∧ (f = defaultHeader m ∨ f = defaultSource m) := by
  simp [defaultFiles]

theorem mem_sources_of_access {f : SourceFile} (h : f ∈ accessFiles c) : f ∈ sources c := by
  simp [sources, h]

theorem mem_sources_of_default {f : SourceFile} (h : f ∈ defaultFiles c) : f ∈ sources c := by
  simp [sources, h]

theorem named_of_access {f : SourceFile} (hf : f ∈ accessFiles c) {file : String} (h : Includes f file) :
    Named c file := by
  obtain ⟨husers, hf⟩ := mem_accessFiles.mp hf
  have header : ∀ m ∈ c.maps, Named c (accessHeader m).name := fun m hm =>
    named_of_mem (mem_sources_of_access (mem_accessFiles.mpr ⟨husers, .inr (.inl ⟨m, hm, .inl rfl⟩)⟩))
  rcases hf with rfl | ⟨m, hm, rfl | rfl⟩ | rfl
  · exact absurd h not_includes_accessTypesFile
  · rw [includes_accessHeader h]
    exact named_map hm
  · rw [includes_accessSource h]
    exact header m hm
  · rcases includes_accessFile h with rfl | ⟨m, hm, rfl⟩
    · exact named_of_mem (mem_sources_of_access (mem_accessFiles.mpr ⟨husers, .inl rfl⟩))
    · exact header m hm

theorem named_of_default {f : SourceFile} (hf : f ∈ defaultFiles c) {file : String} (h : Includes f file) :
    Named c file := by
  obtain ⟨m, hm, hlines, rfl | rfl⟩ := mem_defaultFiles.mp hf
  · rw [includes_defaultHeader h]
    exact named_map hm
  · rw [includes_defaultSource h]
    exact named_of_mem (mem_sources_of_default (mem_defaultFiles.mpr ⟨m, hm, hlines, .inl rfl⟩))

/-- All files but those of the typedefs include files of the run only. -/
theorem named_of_includes (hl : c.Linked) {f : SourceFile} (hf : f ∈ earlierFiles c ++ laterFiles c)
    {file : String} (h : Includes f file) : Named c file := by
  simp only [earlierFiles, laterFiles, List.mem_append, List.mem_map, List.mem_cons, List.not_mem_nil,
    or_false] at hf
  rcases hf with ((((hf | hf) | hf) | hf) | rfl) | (⟨m, hm, rfl⟩ | rfl | rfl) | hf
  · exact named_of_access hf h
  · obtain rfl := mem_unlessEmpty hf
    rcases includes_bitfieldsFile h with rfl | ⟨hdefines, rfl⟩
    · exact named_compiler
    · exact named_defines hdefines
  · exact named_of_default hf h
  · obtain rfl := mem_unlessEmpty hf
    exact absurd h not_includes_definesFile
  · obtain ⟨m, hm, rfl⟩ := includes_typedefsFile h
    exact named_map hm
  · rcases includes_mapFile h with rfl | ⟨t, ht, dep, hdep, rfl⟩ | rfl
    · exact named_compiler
    · exact named_typedef (hl.typedefs _ (Entries.mem_of_get? ht) dep hdep)
    · exact named_typedef (hl.maps m hm)
  · exact absurd h not_includes_compilerFile
  · exact absurd h (not_includes_metadataFile _)
  · obtain rfl := mem_unlessEmpty hf
    exact absurd h not_includes_enumsFile

/-- The file of a typedef includes files of the run only, but for the defines where there are none. -/
theorem named_of_typedef (hl : c.Linked) {e : String × Typedef} (he : e ∈ c.typedefs) {file : String}
    (h : Includes (typedefFile c e.1 e.2) file) : Named c file ∨ c.defines = [] ∧ e.2.usesDefines := by
  rcases includes_typedefFile.mp h with rfl | ⟨dep, hdep, rfl⟩ | ⟨hu, rfl⟩ | ⟨hu, rfl⟩ | ⟨hu, rfl⟩
  · exact .inl named_compiler
  · exact .inl (named_typedef (hl.typedefs e he dep hdep))
  · exact .inl (named_bitfields (hl.bitfields e he hu))
  · exact .inl (named_enums (hl.enums e he hu))
  · by_cases hdefines : c.defines = []
    · exact .inr ⟨hdefines, hu⟩
    · exact .inl (named_defines hdefines)

theorem foreign_titles {f : SourceFile} (hf : f ∈ sources c) : ∀ p ∈ f.parts, Foreign p.title := by
  simp only [sources_eq, earlierFiles, laterFiles, List.mem_append, List.mem_map, List.mem_cons,
    List.not_mem_nil, or_false] at hf
  rcases hf with (((((hf | hf) | hf) | hf) | rfl) | ⟨e, _, rfl⟩) | (⟨m, _, rfl⟩ | rfl | rfl) | hf
  · obtain ⟨_, rfl | ⟨m, _, rfl | rfl⟩ | rfl⟩ := mem_accessFiles.mp hf
    · simp [accessTypesFile, foreign_title]
    · simp [accessHeader, foreign_title]
    · simp [accessSource, foreign_title]
    · simp [accessFile, foreign_title]
  · obtain rfl := mem_unlessEmpty hf
    simp [bitfieldsFile, foreign_title]
  · obtain ⟨m, _, _, rfl | rfl⟩ := mem_defaultFiles.mp hf
    · simp [defaultHeader, foreign_title]
    · simp [defaultSource, foreign_title]
  · obtain rfl := mem_unlessEmpty hf
    simp [definesFile, foreign_title]
  · simp [typedefsFile, foreign_title]
  · simp [typedefFile, foreign_title, foreign_typedefsTitle]
  · simp [mapFile, foreign_title, foreign_typedefsTitle]
  · simp [compilerFile, foreign_title]
  · simp [metadataFile, foreign_title]
  · obtain rfl := mem_unlessEmpty hf
    simp [enumsFile, foreign_title]

end Named

section Closed

variable (c : ResolvedMap) (hide : Bool)

/-- Every line of a file that includes another one names a file of the set. -/
def Closed : Prop :=
  ∀ name text, (files c hide).get? name = some text →
    ∀ file, includeLine file ∈ textLines text → file ∈ (files c hide).keys

/-- What the set needs to be closed. -/
structure Closable : Prop where
  /-- Without defines, a typedef with a size that is written as a text has the name of a map, whose file
      takes the place of its own. -/
  defines : c.defines = [] → ∀ e ∈ c.typedefs, e.2.usesDefines → e.1 ∈ c.maps.map (·.name)
  /-- Names and descriptions are put into the files as they are. Where one of them breaks a line, the
      pieces are lines as well, and include files of the set only. -/
  broken : ∀ f ∈ sources c, (files c hide).get? f.name = some (f.text (banner c hide)) →
    ∀ line ∈ f.lines (banner c hide), '\n' ∈ line.toList →
      ∀ file, includeLine file ∈ textLines line → file ∈ (files c hide).keys

end Closed

variable {c : ResolvedMap} {hide : Bool}

theorem mem_keys_files {name : String} : name ∈ (files c hide).keys ↔ Named c name := by
  rw [files, FileSet.ofWrites, FileSet.mem_keys_foldl, names_writes]
  exact or_iff_left List.not_mem_nil

theorem files_get? {name text : String} (h : (files c hide).get? name = some text) :
    ∃ f ∈ sources c, f.name = name ∧ f.text (banner c hide) = text ∧
      (f ∈ earlierFiles c ++ laterFiles c ∨
        ∃ e ∈ c.typedefs, f = typedefFile c e.1 e.2 ∧ e.1 ∉ c.maps.map (·.name)) := by
  rw [files, FileSet.ofWrites, writes, sources_eq, List.map_append, List.foldl_append] at h
  rw [sources_eq]
  rcases FileSet.mem_of_get?_foldl h with hlater | ⟨hout, h⟩
  · obtain ⟨f, hf, heq⟩ := List.mem_map.mp hlater
    cases heq
    exact ⟨f, List.mem_append_right _ hf, rfl, rfl, .inl (List.mem_append_right _ hf)⟩
  rcases FileSet.mem_of_get?_foldl h with hwrite | ⟨_, hnil⟩
  · obtain ⟨f, hf, heq⟩ := List.mem_map.mp hwrite
    cases heq
    refine ⟨f, List.mem_append_left _ hf, rfl, rfl, ?_⟩
    rcases List.mem_append.mp hf with hf | hf
    · exact .inl (List.mem_append_left _ hf)
    · obtain ⟨e, he, rfl⟩ := List.mem_map.mp hf
      refine .inr ⟨e, he, rfl, fun hmap => hout ?_⟩
      obtain ⟨m, hm, hname⟩ := List.mem_map.mp hmap
      have hlater : mapFile c m ∈ laterFiles c := by simp [laterFiles, List.mem_map_of_mem hm]
      have hfile : (mapFile c m).name = typedefFileName e.1 := congrArg typedefFileName hname
      exact List.mem_map.mpr ⟨_, List.mem_map_of_mem hlater, hfile⟩
  · cases hnil

theorem stem_sources {f : SourceFile} (hf : f ∈ sources c) : f ∈ typeFiles c ∨
    f ∈ unlessEmpty c.defines (definesFile c) ∨
      stem f.name ≠ stem "mm_typedefs.h" ∧ stem f.name ≠ stem "mm_defs.h" := by
  have apart : ∀ name, stem f.name = stem name → stem name ≠ stem "mm_typedefs.h" →
      stem name ≠ stem "mm_defs.h" → stem f.name ≠ stem "mm_typedefs.h" ∧ stem f.name ≠ stem "mm_defs.h" := by
    intro name h htypes hdefines
    rw [h]
    exact ⟨htypes, hdefines⟩
  simp only [sources, List.mem_append, List.mem_cons, List.not_mem_nil, or_false] at hf
  rcases hf with (((((((hf | hf) | hf) | hf) | rfl) | hf) | hf) | rfl | rfl) | hf
  · exact .inr (.inr (apart _ (stem_accessFiles _ (List.mem_map_of_mem hf)) (by decide) (by decide)))
  · obtain rfl := mem_unlessEmpty hf
    exact .inr (.inr (apart "mm_bitfields.h" rfl (by decide) (by decide)))
  · exact .inr (.inr (apart _ (stem_defaultFiles _ (List.mem_map_of_mem hf)) (by decide) (by decide)))
  · exact .inr (.inl hf)
  · exact .inl List.mem_cons_self
  · exact .inl (List.mem_cons_of_mem _ (List.mem_append_left _ hf))
  · exact .inl (List.mem_cons_of_mem _ (List.mem_append_right _ hf))
  · exact .inr (.inr (apart "mm_cc.h" rfl (by decide) (by decide)))
  · exact .inr (.inr (apart "mm_meta.h" rfl (by decide) (by decide)))
  · obtain rfl := mem_unlessEmpty hf
    exact .inr (.inr (apart "mm_enums.h" rfl (by decide) (by decide)))

theorem not_named_defines (h : c.defines = []) : ¬Named c "mm_defs.h" := by
  intro hnamed
  obtain ⟨f, hf, hname⟩ := List.mem_map.mp hnamed
  rcases stem_sources hf with htype | hdefines | ⟨_, hne⟩
  · have hstem := stem_typeFiles _ (List.mem_map_of_mem htype)
    rw [hname] at hstem
    exact absurd hstem (by decide)
  · rw [h] at hdefines
    cases hdefines
  · exact hne (congrArg stem hname)

theorem get?_typedefFile (hl : c.Linked) {e : String × Typedef} (he : e ∈ c.typedefs)
    (hmap : e.1 ∉ c.maps.map (·.name)) : (files c hide).get? (typedefFileName e.1) =
      some ((typedefFile c e.1 e.2).text (banner c hide)) := by
  have hstem : stem (typedefFileName e.1) = stem "mm_typedefs.h" :=
    @take_affixed "mm_typedefs_" ".h" e.1 7 (by decide)
  have hname : ∀ name, typedefFileName name = typedefFileName e.1 → name = e.1 :=
    fun _ heq => affixed_injective "mm_typedefs_" ".h" heq
  refine FileSet.get?_foldl_eq [] ?_ fun w hw heq => ?_
  · refine List.mem_map.mpr ⟨typedefFile c e.1 e.2, ?_, rfl⟩
    rw [sources_eq]
    exact List.mem_append_left _ (List.mem_append_right _ (List.mem_map.mpr ⟨e, he, rfl⟩))
  obtain ⟨f, hf, rfl⟩ := List.mem_map.mp hw
  rcases stem_sources hf with htype | hdefines | ⟨hne, _⟩
  · simp only [typeFiles, List.mem_cons, List.mem_append, List.mem_map] at htype
    rcases htype with rfl | ⟨⟨other, t⟩, ht, rfl⟩ | ⟨m, hm, rfl⟩
    · exact absurd heq (typesHeader_ne_affixed e.1)
    · obtain rfl := hname other heq
      rw [hl.single _ _ _ ht he]
    · exact absurd (List.mem_map.mpr ⟨m, hm, hname _ heq⟩) hmap
  · obtain rfl := mem_unlessEmpty hdefines
    have hdefs : stem "mm_defs.h" = stem (typedefFileName e.1) := congrArg stem heq
    rw [hstem] at hdefs
    exact absurd hdefs (by decide)
  · exact absurd (hstem ▸ congrArg stem heq) hne

theorem closed_iff {d : Description} {c : ResolvedMap} (h : resolve d patterns = .ok c) (hide : Bool) :
    Closed c hide ↔ Closable c hide := by
  have hl := Resolution.resolve_linked h
  -- Every line is part of the text, in pieces if it is broken.
  have pieces : ∀ {f : SourceFile} {line file : String}, line ∈ f.lines (banner c hide) →
      includeLine file ∈ textLines line → includeLine file ∈ textLines (f.text (banner c hide)) := by
    intro f line file hline hfile
    rw [textLines_text]
    exact List.mem_append_left _ (List.mem_flatMap.mpr ⟨line, hline, hfile⟩)
  constructor
  · intro hclosed
    refine ⟨fun hnone e he hu => ?_, fun f hf hget line hline _ file hfile => ?_⟩
    · by_contra hmap
      have hincludes : Includes (typedefFile c e.1 e.2) "mm_defs.h" :=
        includes_typedefFile.mpr (.inr (.inr (.inr (.inr ⟨hu, rfl⟩))))
      have hline := mem_lines_of_includes hincludes (banner c hide)
      have hwhole : includeLine "mm_defs.h" ∈ textLines (includeLine "mm_defs.h") := by
        rw [textLines_of_unbroken (by decide)]
        exact List.mem_singleton_self _
      have hkeys := hclosed _ _ (get?_typedefFile hl he hmap) _ (pieces hline hwhole)
      exact not_named_defines hnone (mem_keys_files.mp hkeys)
    · exact hclosed f.name _ hget file (pieces hline hfile)
  · rintro ⟨hdefines, hbroken⟩ name text hget file hfile
    obtain ⟨f, hf, rfl, rfl, hplace⟩ := files_get? hget
    rw [textLines_text] at hfile
    rcases List.mem_append.mp hfile with hfile | hlast
    · obtain ⟨line, hline, hfile⟩ := List.mem_flatMap.mp hfile
      by_cases hbreak : '\n' ∈ line.toList
      · exact hbroken f hf hget line hline hbreak file hfile
      · rw [textLines_of_unbroken hbreak, List.mem_singleton] at hfile
        subst hfile
        have hincludes := includes_of_mem_lines (foreign_titles hf) hline
        rw [mem_keys_files]
        rcases hplace with hother | ⟨e, he, rfl, hmap⟩
        · exact named_of_includes hl hother hincludes
        · rcases named_of_typedef hl he hincludes with hnamed | ⟨hnone, hu⟩
          · exact hnamed
          · exact absurd (hdefines hnone e he hu) hmap
    · have hend : Foreign "/** @\x7d **/" := by simp [Foreign]
      exact absurd (List.mem_singleton.mp hlast) (hend.ne_includeLine file)

end Header

/-- An array whose size is written as a text, and no defines. -/
def Description.writtenSize : Description where
  sections := [
    ("metadata", .object [("app_name", .string "board"), ("default_type", .string "uint8_t")]),
    ("typedefs", .object [("block", .object [("elements", .array [
      .object [("name", .string "data"), ("array_size", .string "4")]])])]),
    ("generated_maps", .object [("board", .object [("type", .string "block")])])]

namespace Header

open Resolution

theorem finished_writtenSize : (finished .writtenSize).error.isNone ∧
    (finished .writtenSize).state.metadata.isSome ∧ (finished .writtenSize).state.defineOrder = [] ∧
    ((inOrder (finished .writtenSize).state.typedefOrder (finished .writtenSize).state.typedefs).map
      fun e => (e.1, e.2.usesDefines)) = [("block", true)] ∧
    (finished .writtenSize).state.maps.map (·.name) = ["board"] := by
  decide +kernel

/-- The block includes a file for defines, which is not there. -/
theorem writtenSize_open : ∃ c, resolve .writtenSize = .ok c ∧ ∀ hide, ¬Closed c hide := by
  obtain ⟨hnone, hmeta, horder, htypedefs, hmaps⟩ := finished_writtenSize
  obtain ⟨c, _, hc, rfl⟩ := resolves_of_finished hnone hmeta
  refine ⟨_, hc, fun hide hclosed => ?_⟩
  have hclosable := (closed_iff hc hide).mp hclosed
  have hdefines : inOrder (finished .writtenSize).state.defineOrder
      (finished .writtenSize).state.defines = [] := by
    rw [horder]
    rfl
  have hmem : ("block", true) ∈ (inOrder (finished .writtenSize).state.typedefOrder
      (finished .writtenSize).state.typedefs).map fun e => (e.1, e.2.usesDefines) := by
    rw [htypedefs]
    exact List.mem_singleton_self _
  obtain ⟨e, he, heq⟩ := List.mem_map.mp hmem
  obtain ⟨hname, hu⟩ := Prod.mk.inj heq
  have hmap : e.1 ∈ (finished .writtenSize).state.maps.map (·.name) := hclosable.defines hdefines e he hu
  rw [hmaps, hname] at hmap
  exact absurd hmap (by decide)

end Header

end AddressMap
