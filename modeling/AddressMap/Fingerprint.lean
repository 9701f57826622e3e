import AddressMap.Digest.Blake3
import AddressMap.Value.Json

set_option autoImplicit false

/-!
A fingerprint is taken over a canonical text of a value: the keys of every object in ascending order
and every scalar as a quoted text. So neither the order of keys nor the type of a scalar counts.
-/

namespace AddressMap.Fingerprint

def quoted (s : String) : String :=
  "'" ++ String.ofList (s.toList.flatMap fun c => if c == '\'' || c == '\\' then ['\\', c] else [c]) ++ "'"

mutual

def text : Value → String
  | .null => quoted "None"
  | .bool b => quoted (if b then "True" else "False")
  | .number n => quoted n.text
  | .string s => quoted s
  | .array xs => "[" ++ ", ".intercalate (itemTexts xs) ++ "]"
  | .object es =>
    let fields := Entries.sortByKey (entryTexts es)
    "\x7b" ++ ", ".intercalate (fields.map fun f => quoted f.1 ++ ": " ++ f.2) ++ "\x7d"

def itemTexts : List Value → List String
  | [] => []
  | x :: xs => text x :: itemTexts xs

def entryTexts : List (String × Value) → List (String × String)
  | [] => []
  | (k, x) :: es => (k, text x) :: entryTexts es

end

/-- The first 32 hexadecimal digits of the digest of the canonical text. -/
def ofValue (v : Value) : String := String.ofList ((Digest.Blake3.hash (text v).toUTF8).toList.take 32)

end AddressMap.Fingerprint
