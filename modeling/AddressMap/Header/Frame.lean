import AddressMap.FileSet
import AddressMap.Text.Case

set_option autoImplicit false

namespace AddressMap.Header

structure Part where
  title : String
  lines : List String

structure SourceFile where
  name : String
  group : String
  parts : List Part

structure Banner where
  version : String
  generator : Option String

def width : Nat := 78

def stars (n : Nat) : String := String.ofList (List.replicate n '*')

def part (name : String) (lines : List String) : Part :=
  let start := s!"/* {name} "
  ⟨start ++ stars (width - start.length) ++ "/", lines⟩

/-- Existing firmware expects this title as it is spelled here. -/
def typedefsTitle : String := s!"/* tyepdefs {stars 63}/"

def typedefsPart (lines : List String) : Part := ⟨typedefsTitle, lines⟩

def includeLine (file : String) : String := s!"#include \"{file}\""

def systemInclude : String := "#include <stdint.h>"

def guardName (file : String) : String :=
  String.ofList ((Text.upper file).toList.map fun c => if c == '.' then '_' else c)

def isHeader (file : String) : Bool := file.endsWith ".h"

def Banner.lines (b : Banner) (f : SourceFile) : List String :=
  ["/**", s!" {stars width}", s!" * @addtogroup {f.group}_mmm", " * @\x7b",
    s!" * @file      {f.name}", s!" * @version   {b.version}"] ++
  (match b.generator with
    | some version => [" *", s!" * @details   Generated from the memory map manager version {version}"]
    | none => []) ++
  [s!" {stars width}", " */"]

def guardOpening (guard : String) : List String :=
  [s!"#ifndef {guard}", s!"#define {guard}", "", "#ifdef __cplusplus", "extern \"C\"", "\x7b", "#endif"]

def guardClosing (guard : String) : List String :=
  ["", "#ifdef __cplusplus", "\x7d", "#endif", "", s!"#endif /* {guard} */"]

/-- All lines but the last, which has no line end. -/
def SourceFile.lines (b : Banner) (f : SourceFile) : List String :=
  let guard := guardName f.name
  b.lines f ++
  (if isHeader f.name then guardOpening guard else []) ++
  f.parts.flatMap (fun p => "" :: p.title :: p.lines) ++
  (if isHeader f.name then guardClosing guard else [""])

def SourceFile.text (b : Banner) (f : SourceFile) : String :=
  String.join ((f.lines b).map (· ++ "\n")) ++ "/** @\x7d **/"

end AddressMap.Header
