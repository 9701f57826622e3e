import AddressMap.Yaml.Token.Block
import AddressMap.Yaml.Token.Name

set_option autoImplicit false

/-!
Outside brackets indentation opens and closes blocks. A text, a tag, an anchor or a bracket may turn out
to be a key once a colon follows on the same line, so its place among the tokens is remembered and the
key token goes there. A text that starts a line of a mapping has to be such a key.
-/

namespace AddressMap.Yaml

structure KeyPlace where
  /-- Number of tokens in front. -/
  position : Nat
  index : Nat
  line : Nat
  column : Nat
  /-- Whether nothing but a key can stand there. -/
  required : Bool

/-- Brackets apart, indentations are listed from the innermost block outwards. -/
structure Lexer where
  cursor : Cursor
  /-- Tokens so far, the latest first. -/
  tokens : List Token
  indents : List Nat
  /-- Possible key of the innermost brackets. -/
  place : Option KeyPlace
  /-- Possible keys around them, from the inside out; one for each open bracket. -/
  outerPlaces : List (Option KeyPlace)
  /-- Whether a key may start here. -/
  keyAllowed : Bool

namespace Lexer

def start (cs : List Char) : Lexer := ⟨.ofChars cs, [], [], none, [], true⟩

def inFlow (l : Lexer) : Bool := !l.outerPlaces.isEmpty

def take (l : Lexer) (n : Nat) (t : Token) : Lexer := { l with cursor := l.cursor.advance n, tokens := t :: l.tokens }

def dropPlace? (l : Lexer) : Option Lexer :=
  match l.place with
  | some p => if p.required then none else some { l with place := none }
  | none => some l

def savePlace? (l : Lexer) : Option Lexer :=
  if !l.keyAllowed then some l
  else l.dropPlace?.map fun l =>
    { l with place := some {
        position := l.tokens.length
        index := l.cursor.index
        line := l.cursor.line
        column := l.cursor.column
        required := !l.inFlow && l.indents.head? == some l.cursor.column } }

/-- A key ends on its line and has at most 1024 characters. -/
def isStale (l : Lexer) (p : KeyPlace) : Bool :=
  p.line < l.cursor.line || p.index + 1024 < l.cursor.index

def freshPlace? (l : Lexer) : Option KeyPlace → Option (Option KeyPlace)
  | none => some none
  | some p => if !l.isStale p then some (some p) else if p.required then none else some none

def dropStale? (l : Lexer) : Option Lexer := do
  let place ← l.freshPlace? l.place
  let outerPlaces ← l.outerPlaces.mapM l.freshPlace?
  some { l with place, outerPlaces }

/-- Ends the blocks that are deeper than the column; without a column, all blocks. -/
def closeBlocks (l : Lexer) (column : Option Nat) : Lexer :=
  if l.inFlow then l
  else
    let isDeeper (indent : Nat) : Bool := match column with
      | some n => n < indent
      | none => true
    let closed := l.indents.takeWhile isDeeper
    { l with
      indents := l.indents.dropWhile isDeeper
      tokens := closed.map (fun _ => Token.blockEnd) ++ l.tokens }

def isDeeper (l : Lexer) (column : Nat) : Bool :=
  match l.indents with
  | [] => true
  | indent :: _ => indent < column

def openBlock (l : Lexer) (block : Token) : Lexer :=
  if l.inFlow || !l.isDeeper l.cursor.column then l
  else { l with indents := l.cursor.column :: l.indents, tokens := block :: l.tokens }

/-- Puts the key token at its place, behind the start of a mapping where one is opened. -/
def insertKey (l : Lexer) (p : KeyPlace) : Lexer :=
  let opens := !l.inFlow && l.isDeeper p.column
  let late := l.tokens.length - p.position
  { l with
    tokens := l.tokens.take late ++ (.key :: if opens then [.blockMappingStart] else []) ++ l.tokens.drop late
    indents := if opens then p.column :: l.indents else l.indents
    place := none
    keyAllowed := false }

/-- Passes blanks, comments and line ends. A tab may not stand where a key may. -/
def skipGapFrom (l : Lexer) : Nat → Lexer
  | 0 => l
  | fuel + 1 =>
    let c := l.cursor
    let c := if c.column == 0 && c.starts '\uFEFF' then c.step else c
    let c := c.skip fun a => a == ' ' || ((l.inFlow || !l.keyAllowed) && a == '\t')
    let c := if c.starts '#' then c.skipLine else c
    if c.head?.any isBreak then
      skipGapFrom { l with cursor := c.step, keyAllowed := l.keyAllowed || !l.inFlow } fuel
    else { l with cursor := c }

def skipGap (l : Lexer) : Lexer := l.skipGapFrom (l.cursor.rest.length + 1)

def directive? (l : Lexer) : Option Lexer := do
  let l ← (l.closeBlocks none).dropPlace?
  let (token, cursor) ← Yaml.directive? l.cursor.step
  some { l with cursor, tokens := token :: l.tokens, keyAllowed := false }

def documentMark? (l : Lexer) (t : Token) : Option Lexer := do
  let l ← (l.closeBlocks none).dropPlace?
  some { l.take 3 t with keyAllowed := false }

def openFlow? (l : Lexer) (t : Token) : Option Lexer := do
  let l ← l.savePlace?
  some { l.take 1 t with place := none, outerPlaces := l.place :: l.outerPlaces, keyAllowed := true }

def closeFlow? (l : Lexer) (t : Token) : Option Lexer := do
  let l ← l.dropPlace?
  let l := { l.take 1 t with keyAllowed := false }
  match l.outerPlaces with
  | place :: outerPlaces => some { l with place, outerPlaces }
  | [] => some l

def comma? (l : Lexer) : Option Lexer := do
  let l ← l.dropPlace?
  some { l.take 1 .flowEntry with keyAllowed := true }

def dash? (l : Lexer) : Option Lexer := do
  if !l.inFlow && !l.keyAllowed then none
  let l ← (l.openBlock .blockSequenceStart).dropPlace?
  some { l.take 1 .blockEntry with keyAllowed := true }

def key? (l : Lexer) : Option Lexer := do
  if !l.inFlow && !l.keyAllowed then none
  let l ← (l.openBlock .blockMappingStart).dropPlace?
  some { l.take 1 .key with keyAllowed := !l.inFlow }

def value? (l : Lexer) : Option Lexer :=
  match l.place with
  | some p => some ((l.insertKey p).take 1 .value)
  | none =>
    if !l.inFlow && !l.keyAllowed then none
    else some { (l.openBlock .blockMappingStart).take 1 .value with keyAllowed := !l.inFlow }

def keyed? (l : Lexer) (n : Nat) (read : Cursor → Option (Token × Cursor)) : Option Lexer := do
  let l ← l.savePlace?
  let (token, cursor) ← read (l.cursor.advance n)
  some { l with cursor, tokens := token :: l.tokens, keyAllowed := false }

def quoted? (l : Lexer) (quote : Char) : Option Lexer :=
  l.keyed? 1 fun c => (quotedText? quote c).map fun r => (.scalar false (String.ofList r.1), r.2)

def block? (l : Lexer) (folded : Bool) : Option Lexer := do
  let l ← l.dropPlace?
  let (text, cursor) ← blockText? folded l.indents.head? l.cursor.step
  some { l with cursor, tokens := .scalar false (String.ofList text) :: l.tokens, keyAllowed := true }

def plainIndent (l : Lexer) : Nat :=
  match l.indents with
  | [] => 0
  | indent :: _ => indent + 1

def plain? (l : Lexer) : Option Lexer := do
  let l ← l.savePlace?
  let p ← plainText? l.inFlow l.plainIndent l.cursor
  some { l with
    cursor := p.stop
    tokens := .scalar true (String.ofList p.text) :: l.tokens
    keyAllowed := p.lineEnded }

/-- Characters that no plain text starts with, unless a dash, a question mark or a colon is followed
    by another character. -/
def startsPlain (l : Lexer) (c : Char) (next : Option Char) : Bool :=
  !(isGap c || "-?:,[]\x7b\x7d#&*!|>'\"%@\x60".toList.contains c) ||
    (c == '-' && !next.any isBlank) ||
    (!l.inFlow && (c == '?' || c == ':') && !isBlankOrEnd next)

def token? (l : Lexer) (c : Char) (rest : List Char) : Option Lexer :=
  let marks := isBlankOrEnd rest.head?
  if l.cursor.column == 0 && c == '%' then l.directive?
  else if l.cursor.isDocumentStart then l.documentMark? .documentStart
  else if l.cursor.isDocumentEnd then l.documentMark? .documentEnd
  else if c == '[' then l.openFlow? .flowSequenceStart
  else if c == '\x7b' then l.openFlow? .flowMappingStart
  else if c == ']' then l.closeFlow? .flowSequenceEnd
  else if c == '\x7d' then l.closeFlow? .flowMappingEnd
  else if c == ',' then l.comma?
  else if c == '-' && marks then l.dash?
  else if c == '?' && (l.inFlow || marks) then l.key?
  else if c == ':' && (l.inFlow || marks) then l.value?
  else if c == '*' then l.keyed? 1 fun c => (anchorName? c).map fun r => (.reference r.1, r.2)
  else if c == '&' then l.keyed? 1 fun c => (anchorName? c).map fun r => (.anchor r.1, r.2)
  else if c == '!' then l.keyed? 0 fun c => (tag? l.inFlow c).map fun r => (.tag r.1, r.2)
  else if c == '|' && !l.inFlow then l.block? false
  else if c == '>' && !l.inFlow then l.block? true
  else if c == '\'' || c == '"' then l.quoted? c
  else if l.startsPlain c rest.head? then l.plain?
  else none

def run? : Nat → Lexer → Option (List Token)
  | 0, _ => none
  | fuel + 1, l => do
    let l ← l.skipGap.dropStale?
    let l := l.closeBlocks (some l.cursor.column)
    match l.cursor.rest with
    | [] =>
      let l ← (l.closeBlocks none).dropPlace?
      some l.tokens.reverse
    | c :: rest =>
      let l ← l.token? c rest
      run? fuel l

end Lexer

def tokens? (text : String) : Option (List Token) :=
  if text.toList.all isAllowed then
    let cs := unifyBreaks text.toList
    Lexer.run? (cs.length + 1) (.start cs)
  else none

end AddressMap.Yaml
