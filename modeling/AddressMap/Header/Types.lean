import AddressMap.Header.Frame
import AddressMap.Resolution

set_option autoImplicit false

namespace AddressMap.Header

def docSuffix (description : Option String) : String :=
  match description with
  | some d => s!" /**< {d} */"
  | none => ""

/-- The name of the define that a size was written as, else the size. -/
def sizeText (m : ResolvedMap) (written : Option Value) (size : Nat) : String :=
  match written with
  | some (.string s) =>
    let name := Text.trim s
    if m.hasDefine name then name else toString size
  | _ => toString size

def unionLines (description : Option String) (name : String) (members : List String) (size : Nat) :
    List String :=
  (match description with
    | some d => [s!"/** {d} */"]
    | none => []) ++
  ["MM_PACKED_START", "typedef union \x7b", "    struct \x7b"] ++ members ++
  ["    \x7d;", s!"    uint8_t data[{size}]; /**< Array for padding */", s!"\x7d {name};",
    "MM_PACKED_END"]

def elementLine (m : ResolvedMap) (e : Element) : String :=
  let array := match e.count with
    | some n => s!"[{sizeText m e.arraySize n}]"
    | none => ""
  s!"        {e.itemType} {e.name}{array};{docSuffix e.description}"

def typedefFileName (name : String) : String := s!"mm_typedefs_{name}.h"

def typedefFile (m : ResolvedMap) (name : String) (t : Typedef) : SourceFile where
  name := typedefFileName name
  group := "typedefs"
  parts := [
    part "includes" ([systemInclude, "", includeLine "mm_cc.h"] ++
      t.deps.map (fun d => includeLine (typedefFileName d)) ++
      (if t.usesBitfields then [includeLine "mm_bitfields.h"] else []) ++
      (if t.usesEnums then [includeLine "mm_enums.h"] else []) ++
      (if t.usesDefines then [includeLine "mm_defs.h"] else [])),
    typedefsPart (unionLines t.description name (t.elements.map (elementLine m)) t.size)]

def mapFile (m : ResolvedMap) (f : FlatMap) : SourceFile where
  name := typedefFileName f.name
  group := f.name
  parts :=
    let deps := match m.typedefs.get? f.type with
      | some t => t.deps
      | none => []
    [part "includes" (includeLine "mm_cc.h" ::
        deps.map (fun d => includeLine (typedefFileName d)) ++
        [includeLine (typedefFileName f.type)]),
      typedefsPart [s!"typedef {f.type} {f.name};"]]

def typedefsFile (m : ResolvedMap) : SourceFile where
  name := "mm_typedefs.h"
  group := "typedef"
  parts := [part "includes" (m.maps.map fun f => includeLine (typedefFileName f.name))]

def definesFile (m : ResolvedMap) : SourceFile where
  name := "mm_defs.h"
  group := "defs"
  parts := [part "defines" (m.defines.map fun d =>
    s!"#define {d.1} {d.2.resolved.toText}{docSuffix d.2.description}")]

def memberLine (m : ResolvedMap) (b : Bitfield) (x : BitfieldMember) : String :=
  s!"        {b.base.name} {x.name} : {sizeText m x.bits x.width};{docSuffix x.description}"

def bitfieldLines (m : ResolvedMap) (name : String) (b : Bitfield) : List String :=
  unionLines b.description name (b.members.map (memberLine m b)) b.base.size

def separated : List (List String) → List String
  | [] => []
  | [block] => block
  | block :: rest => block ++ "" :: separated rest

def bitfieldsFile (m : ResolvedMap) : SourceFile where
  name := "mm_bitfields.h"
  group := "bitfields"
  parts := [
    part "includes" ([systemInclude, "", includeLine "mm_cc.h"] ++
      (if m.defines.isEmpty then [] else [includeLine "mm_defs.h"])),
    part "bitfields" (separated (m.bitfields.map fun b => bitfieldLines m b.1 b.2))]

def literalSuffix : Primitive → String
  | .u64 => "ULL"
  | .i64 => "LL"
  | _ => ""

def enumLines (name : String) (e : Enumeration) : List String :=
  let suffix := literalSuffix e.base
  (match e.description with
    | some d => [s!"/** {d} */"]
    | none => []) ++
  e.members.map fun x =>
    s!"#define {Text.upper name}_{Text.upper x.name} ({x.resolved}{suffix}){docSuffix x.description}"

def enumsFile (m : ResolvedMap) : SourceFile where
  name := "mm_enums.h"
  group := "enums"
  parts := [part "defines" (separated (m.enums.map fun e => enumLines e.1 e.2))]

def compilerFile : SourceFile where
  name := "mm_cc.h"
  group := "cc"
  parts := [part "macros" [
    "#if defined(__GNUC__) || defined(__clang__)",
    "#define MM_PACKED_START _Pragma(\"pack(push, 1)\")",
    "#define MM_PACKED_END _Pragma(\"pack(pop)\")",
    "#elif defined(_MSC_VER)",
    "#define MM_PACKED_START __pragma(pack(push, 1))",
    "#define MM_PACKED_END __pragma(pack(pop))",
    "#else",
    "#error \"Unsupported compiler, define MM_PACKED_START and MM_PACKED_END\"",
    "#endif"]]

def metadataFile (m : Metadata) : SourceFile where
  name := "mm_meta.h"
  group := "meta"
  parts := [part "defines" [
    "",
    s!"#define MM_APP_NAME \"{m.appName}\" /** Application name **/",
    "",
    s!"#define MM_VERSION_STR \"{m.version}\" /** Version string for the memory map interface **/",
    s!"#define MM_MAJOR_VERSION {m.major} /** Major version of the memory map interface **/",
    s!"#define MM_MINOR_VERSION {m.minor} /** Minor version of the memory map interface **/",
    s!"#define MM_PATCH_VERSION {m.patch} /** Patch version of the memory map interface **/",
    "",
    "",
    s!"#define MM_FW_HASH  \"{m.fwHash}\" /** Hash for what effects the firmware */",
    s!"#define MM_HASH  \"{m.fullHash}\" /** Hash for the whole generated map */"]]

end AddressMap.Header
