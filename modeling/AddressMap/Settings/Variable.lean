import AddressMap.Decimal.Read
import AddressMap.Text.Class
import AddressMap.Value

set_option autoImplicit false

namespace AddressMap.Variable

def isSpace (c : Char) : Bool := c == ' ' || c == '\t' || c == '\n' || c == '\r' || c.toNat == 12

def skipSpace (cs : List Char) : List Char := cs.dropWhile isSpace

def hexDigit? (c : Char) : Option Nat :=
  if c.isDigit then some (c.toNat - '0'.toNat)
  else if ('a' ≤ c && c ≤ 'f') || ('A' ≤ c && c ≤ 'F') then some (c.toLower.toNat - 'a'.toNat + 10)
  else none

def codePoint? (digits : List Char) : Option Char := do
  let n ← digits.foldlM (fun n d => (hexDigit? d).map (16 * n + ·)) 0
  if n.isValidChar then some (Char.ofNat n) else none

def escaped? : Char → Option Char
  | '"' => some '"'
  | '\\' => some '\\'
  | 'b' => some '\x08'
  | 'f' => some '\x0c'
  | 'n' => some '\n'
  | 'r' => some '\r'
  | 't' => some '\t'
  | _ => none

def quoted? : List Char → Option (List Char × List Char)
  | [] => none
  | '"' :: rest => some ([], rest)
  | '\\' :: 'u' :: a :: b :: c :: d :: rest => do
    let x ← codePoint? [a, b, c, d]
    let r ← quoted? rest
    some (x :: r.1, r.2)
  | '\\' :: 'U' :: a :: b :: c :: d :: e :: f :: g :: h :: rest => do
    let x ← codePoint? [a, b, c, d, e, f, g, h]
    let r ← quoted? rest
    some (x :: r.1, r.2)
  | '\\' :: c :: rest => do
    let x ← escaped? c
    let r ← quoted? rest
    some (x :: r.1, r.2)
  | c :: rest => (quoted? rest).map fun r => (c :: r.1, r.2)

def isSeparator (c : Char) : Bool := ",\x7b\x7d[]".toList.contains c

def isKeyChar (c : Char) : Bool := c.isAlphanum || c == '_' || c == '-'

def integer? (cs : List Char) : Option Int :=
  let (sign, digits) : Int × List Char := match cs with
    | '-' :: ds => (-1, ds)
    | '+' :: ds => (1, ds)
    | ds => (1, ds)
  if digits.isEmpty || !digits.all Char.isDigit then none
  else
    let i := sign * (Decimal.digitsValue digits : Int)
    if -0x8000000000000000 ≤ i && i < 0x10000000000000000 then some i else none

/-- A number with a point is a double; digits alone are an integer; all else is a text. -/
def plainValue (s : String) : Value :=
  let cs := s.toList
  match if cs.contains '.' then Decimal.float? cs else none with
  | some x => .number (.float x)
  | none =>
    match integer? cs with
    | some i => .ofInt i
    | none => .string s

mutual

def value? : Nat → List Char → Option (Value × List Char)
  | 0, _ => none
  | fuel + 1, cs => do
    let r ← bare? fuel (skipSpace cs)
    some (r.1, skipSpace r.2)

def bare? : Nat → List Char → Option (Value × List Char)
  | 0, _ => none
  | fuel + 1, cs =>
    match cs with
    | 't' :: 'r' :: 'u' :: 'e' :: rest => some (.bool true, rest)
    | 'f' :: 'a' :: 'l' :: 's' :: 'e' :: rest => some (.bool false, rest)
    | '\x7b' :: rest => (table? [] fuel rest).map fun r => (.object r.1, r.2)
    | '[' :: rest => (list? fuel rest).map fun r => (.array r.1, r.2)
    | '"' :: rest => (quoted? rest).map fun r => (.string (String.ofList r.1), r.2)
    | '\'' :: rest =>
      match rest with
      | c :: '\'' :: rest => some (.string c.toString, rest)
      | _ => none
    | cs =>
      let run := cs.takeWhile fun c => !isSeparator c
      some (plainValue (Text.trim (String.ofList run)), cs.drop run.length)

def list? : Nat → List Char → Option (List Value × List Char)
  | 0, _ => none
  | fuel + 1, cs =>
    match cs with
    | ']' :: rest => some ([], rest)
    | cs => do
      let item ← value? fuel cs
      match item.2 with
      | ',' :: rest => (list? fuel rest).map fun r => (item.1 :: r.1, r.2)
      | ']' :: rest => some ([item.1], rest)
      | _ => none

def table? (entries : Props) : Nat → List Char → Option (Props × List Char)
  | 0, _ => none
  | fuel + 1, cs =>
    match cs with
    | '\x7d' :: rest => some (entries, rest)
    | cs => do
      let (key, rest) ← match skipSpace cs with
        | '"' :: rest => quoted? rest
        | cs =>
          let run := cs.takeWhile isKeyChar
          if run.isEmpty then none else some (run, cs.drop run.length)
      match skipSpace rest with
      | '=' :: rest =>
        let item ← value? fuel rest
        let entries := entries.set (String.ofList key) item.1
        match item.2 with
        | ',' :: rest => table? entries fuel rest
        | '\x7d' :: rest => some (entries, rest)
        | _ => none
      | _ => none

end

def read (text : String) : Value :=
  if text.toList.all Text.isBlank then .string text
  else match value? (2 * text.length + 2) text.toList with
    | some (v, []) => v
    | _ => .string text

end AddressMap.Variable
