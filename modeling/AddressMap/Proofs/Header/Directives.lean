import AddressMap.Proofs.Header.Guards
import Mathlib.Data.List.TakeWhile

set_option autoImplicit false

/-!
What a compiler does with the lines of a header before it reads the C in them. A directive stands on one
line, also where a text goes on behind a line break, so the directives of a file are those of its lines as
long as no broken line goes on with another one. All headers have the same directives around their parts.
The parts add definitions only, but for the header of the compiler, which has branches.
-/

namespace AddressMap

namespace Header

def isNameChar (c : Char) : Bool := c.isAlphanum || c == '_' || 128 ≤ c.toNat

def macroName (text : String) : String := String.ofList (text.toList.takeWhile isNameChar)

/-- A condition is kept as the line that it is written in. -/
inductive Directive where
  | define (name : String)
  | opening (condition : String)
  | alternative (condition : String)
  | otherwise
  | closing

def directiveOf (line : List Char) : Option Directive :=
  if "#define ".toList.isPrefixOf line then some (.define (macroName (String.ofList (line.drop 8))))
  else if "#if".toList.isPrefixOf line then some (.opening (String.ofList line))
  else if "#elif".toList.isPrefixOf line then some (.alternative (String.ofList line))
  else if "#else".toList.isPrefixOf line then some .otherwise
  else if "#endif".toList.isPrefixOf line then some .closing
  else none

def inLine (c : Char) : Bool := c != '\n'

def directive (text : String) : Option Directive := directiveOf (text.toList.takeWhile inLine)

def directives (lines : List String) : List Directive := lines.filterMap directive

@[simp]
theorem directives_nil : directives [] = [] := rfl

@[simp]
theorem directives_append (lines others : List String) :
    directives (lines ++ others) = directives lines ++ directives others :=
  List.filterMap_append

@[simp]
theorem directives_cons (line : String) (lines : List String) :
    directives (line :: lines) = (directive line).toList ++ directives lines := by
  rw [directives, List.filterMap_cons]
  cases directive line <;> rfl

theorem directives_eq_nil {lines : List String} (h : ∀ line ∈ lines, directive line = none) :
    directives lines = [] :=
  List.filterMap_eq_nil_iff.mpr h

/-- Most lines begin with something else than a directive. -/
theorem directive_eq_none {text : String} (h : text.toList.head? ≠ some '#') : directive text = none := by
  unfold directive
  cases hcs : text.toList with
  | nil => rfl
  | cons c cs =>
    rw [hcs] at h
    have hc : c ≠ '#' := fun heq => h (congrArg some heq)
    by_cases hbreak : inLine c
    · simp [directiveOf, hbreak, hc.symm]
    · simp [directiveOf, hbreak]

theorem takeWhile_inLine {cs : List Char} (h : '\n' ∉ cs) (ds : List Char) :
    (cs ++ ds).takeWhile inLine = cs ++ ds.takeWhile inLine := by
  refine List.takeWhile_append_of_pos fun c hc => ?_
  rw [inLine, bne_iff_ne]
  rintro rfl
  exact h hc

theorem directive_append {start : String} (h : '\n' ∉ start.toList) (text : String) :
    directive (start ++ text) = directiveOf (start.toList ++ text.toList.takeWhile inLine) := by
  rw [directive, String.toList_append, takeWhile_inLine h]

theorem macroName_inLine (text : String) :
    macroName (String.ofList (text.toList.takeWhile inLine)) = macroName text := by
  have hsub : ∀ c, isNameChar c = true → inLine c = true := by
    intro c hc
    rw [inLine, bne_iff_ne]
    rintro rfl
    exact absurd hc (by decide)
  rw [macroName, macroName, String.toList_ofList, List.takeWhile_takeWhile]
  congr 2
  funext c
  simpa using hsub c

theorem directive_define (text : String) :
    directive ("#define " ++ text) = some (.define (macroName text)) := by
  rw [directive_append (by decide), directiveOf, if_pos (by simp), ← macroName_inLine text]
  rfl

def guardCondition (guard : String) : String :=
  String.ofList ("#ifndef ".toList ++ guard.toList.takeWhile inLine)

theorem directive_guard (guard : String) :
    directive ("#ifndef " ++ guard) = some (.opening (guardCondition guard)) := by
  rw [directive_append (by decide)]
  rfl

theorem macroName_append {text : String} (h : ¬text.toList.all isNameChar) (rest : String) :
    macroName (text ++ rest) = macroName text := by
  have hshort : (text.toList.takeWhile isNameChar).length ≠ text.toList.length := by
    intro hlength
    have hself := (List.takeWhile_prefix isNameChar).eq_of_length hlength
    exact h (List.all_eq_true.mpr (List.takeWhile_eq_self_iff.mp hself))
  rw [macroName, macroName, String.toList_append, List.takeWhile_append, if_neg hshort]

theorem macroName_of_stop {stop : String} (h : stop.toList.takeWhile isNameChar = []) (text : String) :
    macroName (text ++ stop) = macroName text := by
  rw [macroName, macroName, String.toList_append, List.takeWhile_append, h, List.append_nil]
  split
  · rename_i hlength
    rw [(List.takeWhile_prefix isNameChar).eq_of_length hlength]
  · rfl

theorem directive_define_append {start : String} (hstart : "#define ".toList.isPrefixOf start.toList)
    (hstop : ¬(start.toList.drop 8).all isNameChar) (rest : String) :
    directive (start ++ rest) = directive start := by
  obtain ⟨text, htext⟩ := List.isPrefixOf_iff_prefix.mp hstart
  obtain rfl : start = "#define " ++ String.ofList text := by
    rw [← String.toList_inj, ← htext, String.toList_append]
    exact congrArg _ String.toList_ofList.symm
  rw [String.append_assoc, directive_define, directive_define, macroName_append]
  simpa using hstop

theorem directives_map {α : Type} {line name : α → String}
    (h : ∀ x, directive (line x) = some (.define (name x))) (xs : List α) :
    directives (xs.map line) = (xs.map name).map .define := by
  induction xs with
  | nil => rfl
  | cons x rest ih =>
    rw [List.map_cons, directives_cons, h, ih]
    rfl

theorem directives_map_eq_nil {α : Type} {line : α → String} (h : ∀ x, directive (line x) = none) (xs : List α) :
    directives (xs.map line) = [] := by
  refine directives_eq_nil fun l hl => ?_
  obtain ⟨x, _, rfl⟩ := List.mem_map.mp hl
  exact h x

/-- No line but the first one of a text is a directive. -/
def Continued (text : String) : Prop := ∀ line ∈ (textLines text).tail, directive line = none

theorem directives_textLines {text : String} (h : Continued text) :
    directives (textLines text) = (directive text).toList := by
  by_cases hbreak : '\n' ∈ text.toList
  · obtain ⟨line, rest, htext, hline⟩ := List.eq_append_cons_of_mem hbreak
    have hlines : textLines text = String.ofList line :: (rest.splitOn '\n').map String.ofList := by
      rw [textLines, htext, List.splitOn_append_cons_self, List.splitOn_eq_singleton hline]
      rfl
    have hfirst : directive (String.ofList line) = directive text := by
      have hown := takeWhile_inLine hline []
      rw [List.append_nil] at hown
      rw [directive, directive, htext, String.toList_ofList, takeWhile_inLine hline, hown]
      rfl
    rw [Continued, hlines, List.tail_cons] at h
    rw [hlines, directives_cons, directives_eq_nil h, hfirst, List.append_nil]
  · rw [textLines_of_unbroken hbreak, directives_cons]
    exact List.append_nil _

theorem directives_flatMap_textLines {lines : List String} (h : ∀ text ∈ lines, Continued text) :
    directives (lines.flatMap textLines) = directives lines := by
  induction lines with
  | nil => rfl
  | cons text rest ih =>
    obtain ⟨htext, hrest⟩ := List.forall_mem_cons.mp h
    rw [List.flatMap_cons, directives_append, directives_textLines htext, ih hrest, directives_cons]

theorem directives_text {b : Banner} {f : SourceFile} (h : ∀ text ∈ f.lines b, Continued text) :
    directives (textLines (f.text b)) = directives (f.lines b) := by
  have hend : directives ["/** @\x7d **/"] = [] :=
    directives_eq_nil (List.forall_mem_singleton.mpr (directive_eq_none (by simp)))
  rw [textLines_text, directives_append, directives_flatMap_textLines h, hend, List.append_nil]

/-- How far a compiler is with a condition and its alternatives: it reads a branch, or waits for one whose
    condition is fulfilled, or has read one. -/
inductive Branch where
  | reading
  | waiting
  | done
  deriving DecidableEq

def Branch.of (fulfilled : Bool) : Branch := if fulfilled then .reading else .waiting

def turn (fulfilled : Bool) : List Branch → List Branch
  | [] => []
  | .waiting :: outer => .of fulfilled :: outer
  | _ :: outer => .done :: outer

/-- The macros that are defined by lines that are read, in the order of the lines, given which conditions
    are fulfilled. -/
def defined (holds : String → Bool) : List Branch → List Directive → List String
  | _, [] => []
  | branches, .define name :: rest =>
    if branches.all (· == .reading) then name :: defined holds branches rest else defined holds branches rest
  | branches, .opening condition :: rest => defined holds (.of (holds condition) :: branches) rest
  | branches, .alternative condition :: rest => defined holds (turn (holds condition) branches) rest
  | branches, .otherwise :: rest => defined holds (turn true branches) rest
  | branches, .closing :: rest => defined holds branches.tail rest

theorem defined_defines (holds : String → Bool) (branches : List Branch) (names : List String)
    (rest : List Directive) : defined holds branches (names.map .define ++ rest) =
      (if branches.all (· == .reading) then names else []) ++ defined holds branches rest := by
  induction names with
  | nil => simp
  | cons name names ih =>
    rw [List.map_cons, List.cons_append, defined, ih]
    split <;> rfl

/-- The directives of a header, around those of its parts. -/
def enclosed (guard : String) (inner : List Directive) : List Directive :=
  .opening (guardCondition guard) :: .define (macroName guard) :: .opening "#ifdef __cplusplus" :: .closing ::
    (inner ++ [.opening "#ifdef __cplusplus", .closing, .closing])

theorem defined_enclosed (holds : String → Bool) (guard : String) (names : List String) :
    defined holds [] (enclosed guard (names.map .define)) =
      if holds (guardCondition guard) then macroName guard :: names else [] := by
  simp only [enclosed, defined, List.tail_cons, defined_defines]
  by_cases h : holds (guardCondition guard) <;> simp [h, Branch.of]

def Part.directives (p : Part) : List Directive := Header.directives ("" :: p.title :: p.lines)

def contents (f : SourceFile) : List Directive := f.parts.flatMap Part.directives

theorem directives_banner (b : Banner) (f : SourceFile) : directives (b.lines f) = [] := by
  refine directives_eq_nil fun line hline => directive_eq_none ?_
  revert line
  unfold Banner.lines
  cases b.generator <;> simp [toString, stars]

theorem directives_lines (b : Banner) {f : SourceFile} (h : isHeader f.name) :
    directives (f.lines b) = enclosed (guardName f.name) (contents f) := by
  have hparts : directives (f.parts.flatMap fun p => "" :: p.title :: p.lines) = contents f :=
    List.filterMap_flatMap
  have hopening : directives (guardOpening (guardName f.name)) =
      [.opening (guardCondition (guardName f.name)), .define (macroName (guardName f.name)),
        .opening "#ifdef __cplusplus", .closing] := by
    simp only [guardOpening, toString, directives_cons, directive_guard, directive_define]
    rfl
  have hclosing : directives (guardClosing (guardName f.name)) =
      [.opening "#ifdef __cplusplus", .closing, .closing] := by
    have hlast : directive s!"#endif /* {guardName f.name} */" = some .closing := by
      rw [String.append_assoc]
      exact @directive_append "#endif /* " (by decide) _
    simp only [guardClosing, directives_cons, hlast]
    rfl
  simp only [SourceFile.lines, if_pos h, directives_append, directives_banner, hopening, hclosing, hparts]
  simp [enclosed]

@[simp]
theorem Part.directives_part (name : String) (lines : List String) :
    (part name lines).directives = Header.directives lines := by
  have htitle : directive (part name lines).title = none := directive_eq_none (by simp [part, toString])
  rw [directives, directives_cons, directives_cons, htitle]
  rfl

@[simp]
theorem Part.directives_typedefsPart (lines : List String) :
    (typedefsPart lines).directives = Header.directives lines := by
  have htitle : directive (typedefsPart lines).title = none :=
    directive_eq_none (by simp [typedefsPart, typedefsTitle, toString])
  rw [directives, directives_cons, directives_cons, htitle]
  rfl

@[simp]
theorem directive_include (file : String) : directive (includeLine file) = none := by
  rw [includeLine, String.append_assoc]
  exact @directive_append "#include \"" (by decide) _

@[simp]
theorem directive_systemInclude : directive systemInclude = none := rfl

@[simp]
theorem directive_empty : directive "" = none := rfl

@[simp]
theorem directive_commentOpening : directive "/**" = none := rfl

@[simp]
theorem directive_commentClosing : directive " */" = none := rfl

theorem directives_separated (blocks : List (List String)) :
    directives (separated blocks) = blocks.flatMap directives := by
  induction blocks with
  | nil => rfl
  | cons block rest ih =>
    cases rest with
    | nil => exact (List.append_nil _).symm
    | cons next rest =>
      rw [List.flatMap_cons, ← ih]
      exact directives_append block ("" :: separated (next :: rest))

theorem directives_unionLines {description : Option String} {name : String} {members : List String} {size : Nat}
    (h : directives members = []) : directives (unionLines description name members size) = [] := by
  have hend : directives ["    \x7d;", s!"    uint8_t data[{size}]; /**< Array for padding */", s!"\x7d {name};",
      "MM_PACKED_END"] = [] := by
    refine directives_eq_nil fun line hline => directive_eq_none ?_
    revert line
    simp [toString]
  unfold unionLines
  rw [directives_append, directives_append, directives_append, h, hend]
  cases description with
  | none => rfl
  | some d =>
    rw [directives_cons, directive_eq_none (by simp [toString])]
    rfl

theorem contents_bitfields (c : ResolvedMap) : contents (bitfieldsFile c) = [] := by
  have hblocks : directives (separated (c.bitfields.map fun b => bitfieldLines c b.1 b.2)) = [] := by
    rw [directives_separated, List.flatMap_map]
    refine List.flatMap_eq_nil_iff.mpr fun b _ => directives_unionLines (directives_map_eq_nil (fun x => ?_) _)
    exact directive_eq_none (by simp [memberLine, toString])
  simp [contents, bitfieldsFile, hblocks, apply_ite directives]

theorem contents_typedef (c : ResolvedMap) (name : String) (t : Typedef) :
    contents (typedefFile c name t) = [] := by
  have hunion : directives (unionLines t.description name (t.elements.map (elementLine c)) t.size) = [] :=
    directives_unionLines (directives_map_eq_nil (fun e => directive_eq_none (by simp [elementLine, toString])) _)
  simp [contents, typedefFile, hunion, apply_ite directives, directives_map_eq_nil]

theorem contents_map (c : ResolvedMap) (m : FlatMap) : contents (mapFile c m) = [] := by
  have htype : directive s!"typedef {m.type} {m.name};" = none := directive_eq_none (by simp [toString])
  simp [contents, mapFile, htype, directives_map_eq_nil]

theorem contents_typedefs (c : ResolvedMap) : contents (typedefsFile c) = [] := by
  simp [contents, typedefsFile, directives_map_eq_nil]

theorem contents_access (c : ResolvedMap) : contents (accessFile c) = [] := by
  simp [contents, accessFile, directives_map_eq_nil]

theorem contents_accessHeader (m : FlatMap) : contents (accessHeader m) = [] := by
  have htable : directive s!"extern const uint8_t {accessName m}[sizeof({m.name})];" = none :=
    directive_eq_none (by simp [toString])
  simp [contents, accessHeader, htable]

theorem contents_defaultHeader (m : FlatMap) : contents (defaultHeader m) = [] := by
  have hbrief : directive s!" * @brief Set every record of a {m.name} to its default value." = none :=
    directive_eq_none (by simp [toString])
  have hinitialiser : directive s!"{initialiser m};" = none :=
    directive_eq_none (by simp [initialiser, toString])
  simp [contents, defaultHeader, hbrief, hinitialiser]

theorem contents_compiler : contents compilerFile = [
    .opening "#if defined(__GNUC__) || defined(__clang__)", .define "MM_PACKED_START", .define "MM_PACKED_END",
    .alternative "#elif defined(_MSC_VER)", .define "MM_PACKED_START", .define "MM_PACKED_END", .otherwise,
    .closing] := by
  simp only [contents, compilerFile, List.flatMap_cons, List.flatMap_nil, Part.directives_part]
  rfl

theorem contents_metadata (data : Metadata) : contents (metadataFile data) = ["MM_APP_NAME", "MM_VERSION_STR",
    "MM_MAJOR_VERSION", "MM_MINOR_VERSION", "MM_PATCH_VERSION", "MM_FW_HASH", "MM_HASH"].map .define := by
  simp only [contents, metadataFile, List.flatMap_cons, List.flatMap_nil, Part.directives_part, directives_cons,
    toString, String.append_assoc]
  simp (disch := decide) only [directive_define_append]
  rfl

def memberMacro (name : String) (x : EnumMember) : String :=
  macroName s!"{Text.upper name}_{Text.upper x.name}"

def enumMacros (c : ResolvedMap) : List String := c.enums.flatMap fun e => e.2.members.map (memberMacro e.1)

def defineMacros (c : ResolvedMap) : List String := c.defines.map fun d => macroName d.1

def userMacro (user : String) : String := macroName s!"MM_ACCESS_USER_{Text.upper user}"

def userMacros (c : ResolvedMap) : List String := c.metadata.users.map userMacro

theorem directive_member (name : String) (base : Primitive) (x : EnumMember) :
    directive s!"#define {Text.upper name}_{Text.upper x.name} ({x.resolved}{literalSuffix base}){
      docSuffix x.description}" = some (.define (memberMacro name x)) := by
  simp only [toString, String.append_assoc, directive_define]
  rw [← String.append_assoc, ← String.append_assoc, macroName_of_stop]
  · rfl
  · rw [String.toList_append]
    rfl

theorem directives_enumLines (name : String) (e : Enumeration) :
    directives (enumLines name e) = (e.members.map (memberMacro name)).map .define := by
  unfold enumLines
  rw [directives_append, directives_map (directive_member name e.base)]
  cases e.description with
  | none => rfl
  | some d =>
    rw [directives_cons, directive_eq_none (by simp [toString])]
    rfl

theorem contents_enums (c : ResolvedMap) : contents (enumsFile c) = (enumMacros c).map .define := by
  simp only [contents, enumsFile, List.flatMap_cons, List.flatMap_nil, Part.directives_part, directives_separated,
    List.append_nil, enumMacros, List.map_flatMap, List.flatMap_map, directives_enumLines]

theorem contents_defines (c : ResolvedMap) : contents (definesFile c) = (defineMacros c).map .define := by
  simp only [contents, definesFile, List.flatMap_cons, List.flatMap_nil, Part.directives_part, List.append_nil]
  refine directives_map (fun d => ?_) _
  simp only [toString, String.append_assoc, directive_define]
  rw [macroName_of_stop]
  rw [String.toList_append]
  rfl

theorem contents_users (c : ResolvedMap) : contents (accessTypesFile c) =
    ("MM_ACCESS_READ_SHIFT" :: "MM_ACCESS_WRITE_MASK" :: userMacros c).map .define := by
  have huser : ∀ u : String × Nat, directive s!"#define MM_ACCESS_USER_{Text.upper u.1} (0x{hexByte u.2})" =
      some (.define (userMacro u.1)) := by
    intro u
    have hstart : "#define MM_ACCESS_USER_" = "#define " ++ "MM_ACCESS_USER_" := rfl
    simp only [toString, hstart, String.append_assoc, directive_define]
    rw [← String.append_assoc, macroName_of_stop]
    · rfl
    · rw [String.toList_append]
      rfl
  have husers : (Metadata.userBits c.metadata.users).map (fun u => userMacro u.1) = userMacros c := by
    have hfst : c.metadata.users.zipIdx.map (userMacro ∘ Prod.fst) = c.metadata.users.map userMacro := by
      rw [← List.map_map, List.zipIdx_map_fst]
    rw [Metadata.userBits, List.map_map]
    exact hfst
  simp only [contents, accessTypesFile, List.flatMap_cons, List.flatMap_nil, Part.directives_part, List.append_nil,
    directives_append, directives_map huser, husers]
  rfl

end Header

end AddressMap
