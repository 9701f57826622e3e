import AddressMap.Decimal.Read

set_option autoImplicit false

namespace AddressMap.Yaml

inductive Plain where
  | null
  | bool (b : Bool)
  | int (i : Int)
  | wideInt
  | float (x : Float)
  | text

def isNull (s : String) : Bool := s == "null" || s == "Null" || s == "NULL" || s == "~"

def bool? (s : String) : Option Bool :=
  if s == "true" || s == "True" || s == "TRUE" then some true
  else if s == "false" || s == "False" || s == "FALSE" then some false
  else none

def hasLeadingZero (cs : List Char) : Bool :=
  let digits := match cs with
    | '-' :: ds => ds
    | '+' :: ds => ds
    | ds => ds
  match digits with
  | '0' :: d :: ds => (d :: ds).all Char.isDigit
  | _ => false

def digitOf (c : Char) : Nat :=
  if c.isDigit then c.toNat - '0'.toNat else c.toLower.toNat - 'a'.toNat + 10

def natural? (radix : Nat) (digits : List Char) : Option Nat :=
  if digits.isEmpty || !digits.all fun c => c.isAlphanum && digitOf c < radix then none
  else some (digits.foldl (fun n c => radix * n + digitOf c) 0)

def marked? : List Char → Option Nat
  | '0' :: 'x' :: ds => natural? 16 ds
  | '0' :: 'o' :: ds => natural? 8 ds
  | '0' :: 'b' :: ds => natural? 2 ds
  | _ => none

def integer? (cs : List Char) : Option Int :=
  let decimal (ds : List Char) : Option Nat := if hasLeadingZero cs then none else natural? 10 ds
  match cs with
  | '-' :: ds => ((marked? ds).or (decimal ds)).map fun n => -(n : Int)
  | '+' :: ds => ((marked? ds).or (decimal ds)).map fun n => (n : Int)
  | ds => ((marked? ds).or (decimal ds)).map fun n => (n : Int)

def infinity : Float := 1.0 / 0.0

/-- A double; a decimal text that is too large for one is none. -/
def float? (s : String) : Option Float :=
  if s == ".inf" || s == ".Inf" || s == ".INF" || s == "+.inf" || s == "+.Inf" || s == "+.INF" then
    some infinity
  else if s == "-.inf" || s == "-.Inf" || s == "-.INF" then some (-infinity)
  else if s == ".nan" || s == ".NaN" || s == ".NAN" then some (0.0 / 0.0)
  else match Decimal.float? s.toList with
    | some x => if x.isFinite then some x else none
    | none => none

def plain (s : String) : Plain :=
  if s.isEmpty || isNull s then .null
  else match bool? s with
    | some b => .bool b
    | none =>
      let number : Option Plain := match integer? s.toList with
        | some i =>
          if -0x8000000000000000 ≤ i ∧ i < 0x10000000000000000 then some (.int i)
          else if -0x80000000000000000000000000000000 ≤ i ∧ i < 0x100000000000000000000000000000000 then
            some .wideInt
          else none
        | none => none
      match number with
      | some p => p
      | none =>
        if hasLeadingZero s.toList then .text
        else match float? s with
          | some x => .float x
          | none => .text

end AddressMap.Yaml
