import AddressMap.Header.Types

set_option autoImplicit false

namespace AddressMap.Header

def hexByte (n : Nat) : String :=
  let digits := (Nat.toDigits 16 n).map Char.toUpper
  String.ofList (List.replicate (2 - digits.length) '0' ++ digits)

def orFrom (bits : Nat) (start : Nat) : Nat → Array Nat → Array Nat
  | 0, table => table
  | n + 1, table => orFrom bits (start + 1) n (table.modify start (· ||| bits))

def accessTable (f : FlatMap) : List Nat :=
  (f.records.foldl (fun table r =>
    let stop := min (r.mapOffset + r.unitSize) f.size
    orFrom r.access r.mapOffset (stop - r.mapOffset) table) (Array.replicate f.size 0)).toList

def chunks {α : Type} (n : Nat) : (steps : Nat) → List α → List (List α)
  | 0, _ => []
  | _ + 1, [] => []
  | steps + 1, x :: xs => (x :: xs).take n :: chunks n steps ((x :: xs).drop n)

def tableLines (table : List Nat) : List String :=
  (chunks 8 table.length table).map fun line =>
    "    " ++ " ".intercalate (line.map fun a => s!"0x{hexByte a},")

def accessTypesFile (m : ResolvedMap) : SourceFile where
  name := "mm_access_types.h"
  group := "access"
  parts := [part "defines" (
    ["#define MM_ACCESS_READ_SHIFT (4)", "#define MM_ACCESS_WRITE_MASK (0x0F)", ""] ++
    (Metadata.userBits m.metadata.users).map fun u =>
      s!"#define MM_ACCESS_USER_{Text.upper u.1} (0x{hexByte u.2})")]

def accessName (f : FlatMap) : String := s!"mm_access_{Text.lower f.name}"

def accessHeader (f : FlatMap) : SourceFile where
  name := s!"{accessName f}.h"
  group := f.name
  parts := [
    part "includes" [systemInclude, "", includeLine (typedefFileName f.name)],
    part "variables" [s!"extern const uint8_t {accessName f}[sizeof({f.name})];"]]

def accessSource (f : FlatMap) : SourceFile where
  name := s!"{accessName f}.c"
  group := f.name
  parts := [
    part "includes" [includeLine s!"{accessName f}.h"],
    part "variables" ([s!"const uint8_t {accessName f}[{f.size}] = \x7b"] ++
      tableLines (accessTable f) ++ ["\x7d;"])]

def accessFile (m : ResolvedMap) : SourceFile where
  name := "mm_access.h"
  group := "access"
  parts := [part "includes" (includeLine "mm_access_types.h" ::
    m.maps.map fun f => includeLine s!"{accessName f}.h")]

/-- There are access files only if there are users. -/
def accessFiles (m : ResolvedMap) : List SourceFile :=
  if m.metadata.users.isEmpty then []
  else accessTypesFile m :: m.maps.flatMap (fun f => [accessHeader f, accessSource f]) ++ [accessFile m]

def defaultOf (r : Record) : Option Scalar := r.default.scaled.or r.default.value

def defaultLines (f : FlatMap) : List String :=
  f.records.filterMap fun r => (defaultOf r).map fun x => s!"    map->{r.name} = {x.toText};"

def defaultName (f : FlatMap) : String := s!"mm_default_{Text.lower f.name}"

def initialiser (f : FlatMap) : String := s!"void {defaultName f}_init({f.name} *map)"

def defaultHeader (f : FlatMap) : SourceFile where
  name := s!"{defaultName f}.h"
  group := f.name
  parts := [
    part "includes" [includeLine (typedefFileName f.name)],
    part "functions" ["/**", s!" * @brief Set every record of a {f.name} to its default value.", " */",
      s!"{initialiser f};"]]

def defaultSource (f : FlatMap) : SourceFile where
  name := s!"{defaultName f}.c"
  group := f.name
  parts := [
    part "includes" [includeLine s!"{defaultName f}.h"],
    part "functions" ([initialiser f, "\x7b"] ++ defaultLines f ++ ["\x7d"])]

def defaultFiles (m : ResolvedMap) : List SourceFile :=
  m.maps.flatMap fun f =>
    if (defaultLines f).isEmpty then [] else [defaultHeader f, defaultSource f]

end AddressMap.Header
