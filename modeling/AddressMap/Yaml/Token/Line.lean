import AddressMap.Yaml.Cursor

set_option autoImplicit false

namespace AddressMap.Yaml

def isGap (c : Char) : Bool := isBlank c || isBreak c

def foldGap (gap : List Char) : List Char :=
  match gap.dropWhile isBlank with
  | [] => gap
  | first :: more =>
    let breaks := more.filter isBreak
    if first != '\n' then first :: breaks else if breaks.isEmpty then [' '] else breaks

/-- Whether a line of the gap has a tab where it has to be indented. The first line is the end of the line
    before it. -/
def hasTabBefore (indent : Nat) (broken : Bool) (column : Nat) : List Char → Bool
  | [] => false
  | c :: rest =>
    if isBreak c then hasTabBefore indent true 0 rest
    else (broken && column < indent && c == '\t') || hasTabBefore indent broken (column + 1) rest

structure PlainText where
  text : List Char
  stop : Cursor
  /-- Whether the last word is at the end of its line. -/
  lineEnded : Bool

def plainWord (inFlow : Bool) : List Char → Option (List Char)
  | [] => some []
  | c :: rest =>
    let next := rest.head?
    if isGap c then some []
    else if inFlow && c == ':' && next.any (fun d => isFlowIndicator d || d == '?') then none
    else if (c == ':' && isBlankOrEnd next) || (inFlow && isFlowIndicator c) then some []
    else (plainWord inFlow rest).map (c :: ·)

def plainFrom (inFlow : Bool) (indent : Nat) : Nat → Cursor → Option PlainText
  | 0, _ => none
  | fuel + 1, c =>
    if c.isDocumentLimit || c.starts '#' then some ⟨[], c, false⟩
    else
      match plainWord inFlow c.rest with
      | none => none
      | some word =>
        let stop := c.advance word.length
        let (gap, next) := stop.span isGap
        let broken := gap.any isBreak
        if gap.isEmpty then some ⟨word, stop, false⟩
        else if hasTabBefore indent false 0 gap then none
        else if !inFlow && next.column < indent then some ⟨word, next, broken⟩
        else
          match plainFrom inFlow indent fuel next with
          | none => none
          | some more =>
            if more.text.isEmpty then some ⟨word, more.stop, broken⟩
            else some { more with text := word ++ foldGap gap ++ more.text }

def plainText? (inFlow : Bool) (indent : Nat) (c : Cursor) : Option PlainText :=
  plainFrom inFlow indent (c.rest.length + 1) c

def hexValue? (digits : List Char) : Option Nat :=
  if digits.all fun d => d.isDigit || ('a' ≤ d && d ≤ 'f') || ('A' ≤ d && d ≤ 'F') then
    some (digits.foldl (fun n d => 16 * n +
      (if d.isDigit then d.toNat - '0'.toNat else d.toLower.toNat - 'a'.toNat + 10)) 0)
  else none

def codePoint? (width : Nat) (digits : List Char) : Option (Char × Nat) :=
  let ds := digits.take width
  if ds.length < width then none
  else (hexValue? ds).bind fun n =>
    if n.isValidChar then some (Char.ofNat n, width + 1) else none

def escape? : List Char → Option (Char × Nat)
  | [] => none
  | c :: rest =>
    let simple (n : Nat) : Option (Char × Nat) := some (Char.ofNat n, 1)
    match c with
    | '0' => simple 0x00
    | 'a' => simple 0x07
    | 'b' => simple 0x08
    | 't' | '\t' => simple 0x09
    | 'n' => simple 0x0A
    | 'v' => simple 0x0B
    | 'f' => simple 0x0C
    | 'r' => simple 0x0D
    | 'e' => simple 0x1B
    | ' ' | '"' | '/' | '\\' => some (c, 1)
    | 'N' => simple 0x85
    | '_' => simple 0xA0
    | 'L' => simple 0x2028
    | 'P' => simple 0x2029
    | 'x' => codePoint? 2 rest
    | 'u' => codePoint? 4 rest
    | 'U' => codePoint? 8 rest
    | _ => none

structure QuotedWord where
  text : List Char
  length : Nat
  /-- Whether the word ends with an escaped line end, which joins the lines. -/
  joins : Bool

def QuotedWord.before (w : QuotedWord) (c : Char) (length : Nat) : QuotedWord :=
  { w with text := c :: w.text, length := length + w.length }

def singleWord : List Char → QuotedWord
  | '\'' :: '\'' :: rest => (singleWord rest).before '\'' 2
  | c :: rest => if isGap c || c == '\'' then ⟨[], 0, false⟩ else (singleWord rest).before c 1
  | [] => ⟨[], 0, false⟩

def doubleWord : List Char → Option QuotedWord
  | [] => some ⟨[], 0, false⟩
  | c :: rest =>
    if isGap c || c == '"' then some ⟨[], 0, false⟩
    else if c == '\\' then
      if rest.head?.any isBreak then some ⟨[], 2, true⟩
      else
        match escape? rest with
        | none => none
        | some (d, n) => (doubleWord (rest.drop n)).map fun w => w.before d (n + 1)
    else (doubleWord rest).map fun w => w.before c 1
termination_by cs => cs.length
decreasing_by all_goals simp only [List.length_cons, List.length_drop]; omega

def quotedFrom (quote : Char) : Nat → Cursor → Option (List Char × Cursor)
  | 0, _ => none
  | fuel + 1, c =>
    if c.isDocumentLimit || c.rest.isEmpty then none
    else
      match if quote == '\'' then some (singleWord c.rest) else doubleWord c.rest with
      | none => none
      | some word =>
        let stop := c.advance word.length
        if stop.starts quote then some (word.text, stop.step)
        else
          let (gap, next) := stop.span isGap
          let between := if word.joins then gap.filter isBreak else foldGap gap
          (quotedFrom quote fuel next).map fun r => (word.text ++ between ++ r.1, r.2)

def quotedText? (quote : Char) (c : Cursor) : Option (List Char × Cursor) :=
  quotedFrom quote (c.rest.length + 1) c

end AddressMap.Yaml
