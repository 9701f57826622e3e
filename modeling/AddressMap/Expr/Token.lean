import AddressMap.Decimal.Read
import AddressMap.Scalar.Operator
import AddressMap.Text.Class

set_option autoImplicit false

namespace AddressMap.Expr

inductive Token where
  | int (i : Int)
  | float (x : Float)
  | text (s : String)
  | name (s : String)
  | op (o : BinaryOp)
  | tilde
  | opening
  | closing

inductive Fault where
  | invalidNumber (text : String)
  | unterminatedText
  | unexpectedCharacter (c : Char)
  | unexpectedEnd
  | unexpectedToken
  | unclosed
  | trailing
  | negativeShift
  | notAnExpression
  | tooDeep

def Fault.message : Fault → String
  | .invalidNumber text => s!"invalid number '{text}'"
  | .unterminatedText => "unterminated string"
  | .unexpectedCharacter c => s!"unexpected character '{c}'"
  | .unexpectedEnd => "unexpected end of expression"
  | .unexpectedToken => "unexpected token"
  | .unclosed => "expected ')'"
  | .trailing => "unexpected trailing input"
  | .negativeShift => "negative shift count"
  | .notAnExpression => "expected a number or an expression"
  | .tooDeep => "nested too deeply"

def isNumberChar (c : Char) : Bool := c.isAlphanum || c == '_' || c == '.'

def isRadixMark (c : Char) : Bool :=
  c == 'x' || c == 'X' || c == 'b' || c == 'B' || c == 'o' || c == 'O'

/-- The characters of a number at the start of the text. A sign belongs to it after an exponent mark,
    unless a radix mark has been seen. -/
def numberText (radix : Bool) : List Char → List Char
  | [] => []
  | [c] => if isNumberChar c then [c] else []
  | c :: s :: more =>
    if isNumberChar c then
      let radix' := radix || isRadixMark c
      if (c == 'e' || c == 'E') && !radix && (s == '+' || s == '-') then
        c :: s :: numberText radix' more
      else c :: numberText radix' (s :: more)
    else []

def isNameChar (c : Char) : Bool := Text.isAlphanumeric c || c == '_'

def digitValue (c : Char) : Nat :=
  if c.isDigit then c.toNat - '0'.toNat else c.toNat - 'a'.toNat + 10

def integer? (radix : Nat) (digits : List Char) : Option Int :=
  if digits.isEmpty || !digits.all fun c => (c.isDigit || c.isLower) && digitValue c < radix then none
  else
    let i : Int := digits.foldl (fun n c => radix * n + digitValue c) 0
    if Scalar.fits i then some i else none

def number? (cs : List Char) : Option Token :=
  match cs.map Char.toLower with
  | '0' :: 'x' :: digits => (integer? 16 digits).map .int
  | '0' :: 'o' :: digits => (integer? 8 digits).map .int
  | '0' :: 'b' :: digits => (integer? 2 digits).map .int
  | digits =>
    if digits.contains '.' || digits.contains 'e' then (Decimal.float? digits).map .float
    else (integer? 10 digits).map .int

def operator? : List Char → Option (Token × Nat)
  | '*' :: '*' :: _ => some (.op .pow, 2)
  | '/' :: '/' :: _ => some (.op .floorDiv, 2)
  | '<' :: '<' :: _ => some (.op .shiftLeft, 2)
  | '>' :: '>' :: _ => some (.op .shiftRight, 2)
  | '+' :: _ => some (.op .add, 1)
  | '-' :: _ => some (.op .sub, 1)
  | '*' :: _ => some (.op .mul, 1)
  | '/' :: _ => some (.op .div, 1)
  | '%' :: _ => some (.op .mod, 1)
  | '~' :: _ => some (.tilde, 1)
  | '&' :: _ => some (.op .and, 1)
  | '|' :: _ => some (.op .or, 1)
  | '^' :: _ => some (.op .xor, 1)
  | _ => none

def startsNumber (c : Char) (rest : List Char) : Bool :=
  c.isDigit || (c == '.' && (rest.head?.map Char.isDigit).getD false)

def lexeme (c : Char) (rest : List Char) :
    Except Fault (Token × { after : List Char // after.length ≤ rest.length }) :=
  if startsNumber c rest then
    let more := numberText false rest
    let text := (c :: more).filter (· != '_')
    match number? text with
    | some t => .ok (t, ⟨rest.drop more.length, by simp⟩)
    | none => .error (.invalidNumber (String.ofList text))
  else if Text.isAlphabetic c || c == '_' then
    let more := rest.takeWhile isNameChar
    .ok (.name (String.ofList (c :: more)), ⟨rest.drop more.length, by simp⟩)
  else if c == '"' || c == '\'' then
    let more := rest.takeWhile (· != c)
    if more.length < rest.length then
      .ok (.text (String.ofList more), ⟨rest.drop (more.length + 1), by simp⟩)
    else .error .unterminatedText
  else if c == '(' then .ok (.opening, ⟨rest, by simp⟩)
  else if c == ')' then .ok (.closing, ⟨rest, by simp⟩)
  else match operator? (c :: rest) with
    | some (t, n) => .ok (t, ⟨rest.drop (n - 1), by simp⟩)
    | none => .error (.unexpectedCharacter c)

def tokens (cs : List Char) : Except Fault (List Token) :=
  match cs with
  | [] => .ok []
  | c :: rest =>
    if Text.isBlank c then tokens rest
    else match lexeme c rest with
      | .error f => .error f
      | .ok (t, after) =>
        (tokens after.1).map (t :: ·)
termination_by cs.length
decreasing_by
  · exact Nat.lt_succ_self rest.length
  · exact Nat.lt_succ_of_le after.2

end AddressMap.Expr
