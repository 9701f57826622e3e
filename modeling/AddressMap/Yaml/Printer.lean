import AddressMap.Value.Json
import AddressMap.Yaml.Character
import AddressMap.Yaml.Scalar

set_option autoImplicit false

namespace AddressMap.Yaml

inductive Style where
  | plain
  | single
  | double
  | literal
  deriving DecidableEq

def isStartIndicator (c : Char) (next : Option Char) : Bool :=
  "#,[]\x7b\x7d&*!|>'\"%@\x60".toList.contains c ||
    ((c == '?' || c == ':' || c == '-') && isBlankOrEnd next)

/-- Whether a later indicator rules it out: a colon before a blank or a hash after one. -/
def hasInnerIndicator : List Char → Bool
  | [] => false
  | [_] => false
  | a :: b :: rest =>
    (b == ':' && isBlankOrEnd rest.head?) || (b == '#' && isBlankOrEnd (some a)) ||
      hasInnerIndicator (b :: rest)

def hasPair (p q : Char → Bool) : List Char → Bool
  | a :: b :: rest => (p a && q b) || hasPair p q (b :: rest)
  | _ => false

def startsDocument : List Char → Bool
  | '-' :: '-' :: '-' :: _ => true
  | '.' :: '.' :: '.' :: _ => true
  | _ => false

def isSpace (c : Char) : Bool := c == ' '

structure Allowed where
  plain : Bool
  single : Bool
  literal : Bool

def allowed (cs : List Char) : Allowed :=
  match cs with
  | [] => ⟨true, true, false⟩
  | first :: rest =>
    let special := cs.any (fun c => !isPrintable c) || hasPair isSpace isBreak cs
    let breakSpace := hasPair isBreak isSpace cs
    let edge (c : Char) : Bool := isSpace c || isBreak c
    let last := cs.getLast?.getD first
    let indicated := startsDocument cs || isStartIndicator first rest.head? || hasInnerIndicator cs
    { plain := !special && !breakSpace && !cs.any isBreak && !edge first && !edge last && !indicated
      single := !special && !breakSpace
      literal := !special && !isSpace last }

def needsQuotes (s : String) : Bool :=
  match plain s with
  | .text => hasLeadingZero s.toList
  | _ => true

/-- The style of a text; a key on one line cannot be a block. -/
def styleOf (isKey : Bool) (s : String) : Style :=
  let a := allowed s.toList
  if s.toList.contains '\n' then if a.literal && !isKey then .literal else .double
  else if a.plain && !needsQuotes s && !s.isEmpty then .plain
  else if a.single && !(isKey && s.toList.any isBreak) then .single
  else .double

def pad (indent : Nat) : List Char := List.replicate indent ' '

def singleBody (indent : Nat) (afterBreak : Bool) : List Char → List Char
  | [] => if afterBreak then pad indent else []
  | c :: rest =>
    if isBreak c then c :: singleBody indent true rest
    else
      (if afterBreak then pad indent else []) ++
        (if c == '\'' then ['\'', '\''] else [c]) ++ singleBody indent false rest

def hexDigits (width n : Nat) : List Char :=
  let digits := (Nat.toDigits 16 n).map Char.toUpper
  List.replicate (width - digits.length) '0' ++ digits

def doubleChar (c : Char) : List Char :=
  if isPrintable c && !isBreak c && c != '"' && c != '\\' then [c]
  else match c.toNat with
    | 0x00 => ['\\', '0']
    | 0x07 => ['\\', 'a']
    | 0x08 => ['\\', 'b']
    | 0x09 => ['\\', 't']
    | 0x0A => ['\\', 'n']
    | 0x0B => ['\\', 'v']
    | 0x0C => ['\\', 'f']
    | 0x0D => ['\\', 'r']
    | 0x1B => ['\\', 'e']
    | 0x22 => ['\\', '"']
    | 0x5C => ['\\', '\\']
    | 0x85 => ['\\', 'N']
    | 0xA0 => ['\\', '_']
    | 0x2028 => ['\\', 'L']
    | 0x2029 => ['\\', 'P']
    | n =>
      if n ≤ 0xFF then '\\' :: 'x' :: hexDigits 2 n
      else if n ≤ 0xFFFF then '\\' :: 'u' :: hexDigits 4 n
      else '\\' :: 'U' :: hexDigits 8 n

/-- Marks behind the bar: the indentation where the text starts with a blank, and what happens to the
    line ends at its end. -/
def literalHints (cs : List Char) : List Char :=
  let start := match cs with
    | c :: _ => if isSpace c || isBreak c then ['2'] else []
    | [] => []
  let stop := match cs.reverse with
    | [] => ['-']
    | [c] => if isBreak c then ['+'] else ['-']
    | c :: b :: _ => if !isBreak c then ['-'] else if isBreak b then ['+'] else []
  start ++ stop

def literalBody (indent : Nat) (afterBreak : Bool) : List Char → List Char
  | [] => []
  | c :: rest =>
    if isBreak c then c :: literalBody indent true rest
    else (if afterBreak then pad indent else []) ++ c :: literalBody indent false rest

def textAs (style : Style) (indent : Nat) (s : String) : String :=
  let cs := s.toList
  match style with
  | .plain => s
  | .single => String.ofList ('\'' :: singleBody indent false cs ++ ['\''])
  | .double => String.ofList ('"' :: cs.flatMap doubleChar ++ ['"'])
  | .literal => String.ofList ('|' :: literalHints cs ++ '\n' :: literalBody indent true cs)

def numberText : Number → String
  | .int i => toString i
  | .float x => Decimal.Layout.yaml.render x

/-- Starts a new line at the indentation, unless a block has just ended one. -/
def onNewLine (before : String) (indent : Nat) (after : String) : String :=
  before ++ (if before.endsWith "\n" then "" else "\n") ++ String.ofList (pad indent) ++ after

/-- Keys of one line and at most 128 bytes stand before their colon. -/
def isSimpleKey (k : String) : Bool := !k.toList.any isBreak && k.utf8ByteSize ≤ 128

mutual

/-- A value behind its indicator, at the given indentation. Behind a key a mapping starts on a new line
    and a list is not indented; behind a dash both go on in the same line. -/
def node (indent : Nat) (behindKey : Bool) : Value → String
  | .null => " null"
  | .bool b => if b then " true" else " false"
  | .number n => " " ++ numberText n
  | .string s => " " ++ textAs (styleOf false s) (indent + 2) s
  | .array [] => " []"
  | .object [] => " \x7b\x7d"
  | .array xs =>
    if behindKey then onNewLine "" indent (items indent xs) else " " ++ items (indent + 2) xs
  | .object es =>
    if behindKey then onNewLine "" (indent + 2) (entries (indent + 2) es)
    else " " ++ entries (indent + 2) es

def items (indent : Nat) : List Value → String
  | [] => ""
  | [x] => "-" ++ node indent false x
  | x :: y :: xs => onNewLine ("-" ++ node indent false x) indent (items indent (y :: xs))

def entries (indent : Nat) : List (String × Value) → String
  | [] => ""
  | [(k, x)] => entry indent k (node indent true x) (node indent false x)
  | (k, x) :: e :: es =>
    onNewLine (entry indent k (node indent true x) (node indent false x)) indent
      (entries indent (e :: es))

def entry (indent : Nat) (k : String) (behindKey behindColon : String) : String :=
  if isSimpleKey k then textAs (styleOf true k) indent k ++ ":" ++ behindKey
  else onNewLine ("? " ++ textAs (styleOf false k) (indent + 2) k) indent (":" ++ behindColon)

end

def document (v : Value) : String :=
  let text := match v with
    | .object (e :: es) => entries 0 (e :: es)
    | .array (x :: xs) => items 0 (x :: xs)
    | v => String.ofList ((node 0 false v).toList.drop 1)
  if text.endsWith "\n" then text else text ++ "\n"

end AddressMap.Yaml
