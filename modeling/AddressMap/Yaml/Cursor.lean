import AddressMap.Yaml.Character

set_option autoImplicit false

namespace AddressMap.Yaml

structure Cursor where
  rest : List Char
  index : Nat
  line : Nat
  column : Nat

namespace Cursor

def ofChars (cs : List Char) : Cursor := ⟨cs, 0, 0, 0⟩

def step (c : Cursor) : Cursor :=
  match c.rest with
  | [] => c
  | a :: rest =>
    if isBreak a then ⟨rest, c.index + 1, c.line + 1, 0⟩
    else ⟨rest, c.index + 1, c.line, c.column + 1⟩

def advance (c : Cursor) : Nat → Cursor
  | 0 => c
  | n + 1 => c.step.advance n

def span (c : Cursor) (p : Char → Bool) : List Char × Cursor :=
  let run := c.rest.takeWhile p
  (run, c.advance run.length)

def skip (c : Cursor) (p : Char → Bool) : Cursor := (c.span p).2

def head? (c : Cursor) : Option Char := c.rest.head?

def starts (c : Cursor) (a : Char) : Bool := c.rest.head? == some a

def accept? (c : Cursor) (p : Char → Bool) : Option Cursor :=
  if c.rest.head?.any p then some c.step else none

def skipLine (c : Cursor) : Cursor := c.skip fun a => !isBreak a

/-- Blanks and a comment up to the end of the line, which nothing else may stand before. -/
def endOfLine? (c : Cursor) : Option Cursor :=
  let c := c.skip isBlank
  let c := if c.starts '#' then c.skipLine else c
  match c.rest with
  | [] => some c
  | a :: _ => if isBreak a then some c.step else none

/-- Three equal marks at the start of a line, alone on their line or with a blank behind them. -/
def isDocumentMark (c : Cursor) (mark : Char) : Bool :=
  match c.rest with
  | x :: y :: z :: rest => c.column == 0 && x == mark && y == mark && z == mark && isBlankOrEnd rest.head?
  | _ => false

def isDocumentStart (c : Cursor) : Bool := c.isDocumentMark '-'

def isDocumentEnd (c : Cursor) : Bool := c.isDocumentMark '.'

def isDocumentLimit (c : Cursor) : Bool := c.isDocumentStart || c.isDocumentEnd

end Cursor

end AddressMap.Yaml
