import AddressMap.FileSet
import AddressMap.Resolution

set_option autoImplicit false

namespace AddressMap.Sheet

def quoteOf (s : String) : Char :=
  if s.toList.contains '\'' && !s.toList.contains '"' then '"' else '\''

def escapedChar (quote c : Char) : List Char :=
  if c == '\\' then ['\\', '\\']
  else if c == '\n' then ['\\', 'n']
  else if c == '\r' then ['\\', 'r']
  else if c == '\t' then ['\\', 't']
  else if c == quote then ['\\', c]
  else [c]

/-- Single quotes, or double ones around a text that has only single ones in it. -/
def quotedText (s : String) : String :=
  let quote := quoteOf s
  String.ofList (quote :: s.toList.flatMap (escapedChar quote) ++ [quote])

mutual

def nested : Value → String
  | .null => "None"
  | .bool b => if b then "True" else "False"
  | .number n => n.text
  | .string s => quotedText s
  | .array xs => "[" ++ ", ".intercalate (nestedItems xs) ++ "]"
  | .object es => "\x7b" ++ ", ".intercalate (nestedEntries es) ++ "\x7d"

def nestedItems : List Value → List String
  | [] => []
  | x :: xs => nested x :: nestedItems xs

def nestedEntries : List (String × Value) → List String
  | [] => []
  | (k, x) :: es => (quotedText k ++ ": " ++ nested x) :: nestedEntries es

end

def cell : Option Value → String
  | none | some .null => ""
  | some (.string s) => s
  | some v => nested v

def mustQuote (c : Char) : Bool := c == ',' || c == '"' || c == '\r' || c == '\n'

def field (s : String) : String :=
  if s.toList.any mustQuote then
    String.ofList ('"' :: s.toList.flatMap (fun c => if c == '"' then ['"', '"'] else [c]) ++ ['"'])
  else s

def row (cells : List String) : String := ",".intercalate (cells.map field) ++ "\r\n"

def document (rows : List (List String)) : String := String.join (rows.map row)

def cellsOf (columns : List String) (es : Props) : List String := columns.map fun c => cell (es.get? c)

def table (columns : List String) (objects : List Props) : String :=
  document (columns :: objects.map (cellsOf columns))

def columnsOf (objects : List Props) : List String :=
  sortedNames (objects.flatMap fun es => es.map (·.1))

def full (objects : List Props) : String := table (columnsOf objects) objects

def legacyColumns : List String :=
  ["name", "offset", "total_size", "type_size", "type", "description", "access", "array_size",
    "bit_offset", "bits", "default", "flag", "max", "min"]

def legacyRenames : List (String × String) :=
  [("offset", "map_offset"), ("total_size", "resolved_total_size"),
    ("type_size", "resolved_type_size"), ("array_size", "resolved_array_size"),
    ("bit_offset", "resolved_bit_offset"), ("bits", "resolved_bits"),
    ("access", "resolved_access")]

/-- The name without the index of a first item. -/
def arrayName? (name : String) : Option String :=
  match name.toList.reverse with
  | ']' :: '0' :: '[' :: rest => some (String.ofList rest.reverse)
  | _ => none

def legacyRenamed (es : Props) : Props :=
  legacyRenames.foldl (fun row e => row.set e.1 ((es.get? e.2).getD .null)) es

/-- The row of a record. Of an array of items only the first one has a row, under the array's name. -/
def legacyRow (r : Record) : Option Props :=
  let es := r.toProps
  if 0 < ((r.item?.bind (·.count)).getD 0) then
    (arrayName? r.name).map fun name => (legacyRenamed es).set "name" (.string name)
  else some (legacyRenamed es)

def legacy (records : List Record) : String := table legacyColumns (records.filterMap legacyRow)

def foldedColumns : List String :=
  ["name", "compressed_offset", "resolved_total_size", "resolved_type_size", "resolved_type",
    "description"]

def folded (objects : List Props) : String :=
  table (foldedColumns ++ (columnsOf objects).filter fun c => !foldedColumns.contains c) objects

def readableBy (bit : Nat) (es : Props) : Bool :=
  match es.get? "resolved_access" with
  | some (.number (.int access)) => 0 ≤ access && access.toNat &&& bit != 0
  | _ => false

def readable (objects foldedObjects : List Props) (bit : Nat) : Option String :=
  let rows := foldedObjects.filter (readableBy bit)
  if rows.isEmpty then none
  else some (table (columnsOf (objects.filter (readableBy bit))) rows)

def fileVersion (version : String) : String :=
  String.ofList (version.toList.map fun c => if c == '.' then '_' else c)

def mapWrites (metadata : Metadata) (f : FlatMap) : List (String × String) :=
  let start := s!"mm_{metadata.appName}_{f.name}"
  let version := fileVersion metadata.version
  let objects := f.records.map Record.toProps
  let foldedObjects := f.folded.map Record.toProps
  [(s!"{start}_{metadata.fullHash}.csv", full objects),
    (s!"{start}_{version}.csv", legacy f.records),
    (s!"{start}_compressed_{version}.csv", folded foldedObjects)] ++
  (Metadata.userBits metadata.users).filterMap fun u =>
    (readable objects foldedObjects (16 * u.2)).map fun text =>
      (s!"{start}_{u.1}_{metadata.fullHash}.csv", text)

def writes (m : ResolvedMap) : List (String × String) := m.maps.flatMap (mapWrites m.metadata)

def files (m : ResolvedMap) : FileSet := .ofWrites (writes m)

end AddressMap.Sheet
