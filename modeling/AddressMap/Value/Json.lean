import AddressMap.Decimal.Layout
import AddressMap.Value

set_option autoImplicit false

namespace AddressMap

def Number.text : Number → String
  | .int i => toString i
  | .float x => Decimal.Layout.data.render x

namespace Value

/-- A double that is no number has no JSON form and becomes null. -/
def ofFloat (x : Float) : Value :=
  if Decimal.isFinite x then .number (.float x) else .null

def hexDigit (n : Nat) : Char := (Nat.toDigits 16 (n % 16)).headD '0'

def escapedChar (c : Char) : List Char :=
  if c == '"' then ['\\', '"']
  else if c == '\\' then ['\\', '\\']
  else if 32 ≤ c.toNat then [c]
  else match c.toNat with
    | 8 => ['\\', 'b']
    | 9 => ['\\', 't']
    | 10 => ['\\', 'n']
    | 12 => ['\\', 'f']
    | 13 => ['\\', 'r']
    | n => ['\\', 'u', '0', '0', hexDigit (n / 16), hexDigit n]

def stringText (s : String) : String := "\"" ++ String.ofList (s.toList.flatMap escapedChar) ++ "\""

mutual

def compact : Value → String
  | .null => "null"
  | .bool b => if b then "true" else "false"
  | .number n => n.text
  | .string s => stringText s
  | .array xs => "[" ++ compactItems xs ++ "]"
  | .object es => "\x7b" ++ compactEntries es ++ "\x7d"

def compactItems : List Value → String
  | [] => ""
  | [x] => x.compact
  | x :: y :: xs => x.compact ++ "," ++ compactItems (y :: xs)

def compactEntries : List (String × Value) → String
  | [] => ""
  | [(k, x)] => stringText k ++ ":" ++ x.compact
  | (k, x) :: e :: es => stringText k ++ ":" ++ x.compact ++ "," ++ compactEntries (e :: es)

end

def indent (depth : Nat) : String := String.ofList (List.replicate (2 * depth) ' ')

mutual

def prettyAt (depth : Nat) : Value → String
  | .array [] => "[]"
  | .object [] => "\x7b\x7d"
  | .array xs => "[\n" ++ prettyItems (depth + 1) xs ++ "\n" ++ indent depth ++ "]"
  | .object es => "\x7b\n" ++ prettyEntries (depth + 1) es ++ "\n" ++ indent depth ++ "\x7d"
  | v => v.compact

def prettyItems (depth : Nat) : List Value → String
  | [] => ""
  | [x] => indent depth ++ prettyAt depth x
  | x :: y :: xs => indent depth ++ prettyAt depth x ++ ",\n" ++ prettyItems depth (y :: xs)

def prettyEntries (depth : Nat) : List (String × Value) → String
  | [] => ""
  | [(k, x)] => indent depth ++ stringText k ++ ": " ++ prettyAt depth x
  | (k, x) :: e :: es =>
    indent depth ++ stringText k ++ ": " ++ prettyAt depth x ++ ",\n" ++ prettyEntries depth (e :: es)

end

def pretty (v : Value) : String := v.prettyAt 0

end Value

end AddressMap
