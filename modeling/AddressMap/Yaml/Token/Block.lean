import AddressMap.Yaml.Cursor

set_option autoImplicit false

namespace AddressMap.Yaml

inductive Chomping where
  | strip
  | clip
  | keep
  deriving DecidableEq

structure BlockHeader where
  chomping : Chomping
  /-- Depth below the surrounding block, where it is given. -/
  depth : Option Nat

def chomping? : Option Char → Option Chomping
  | some '+' => some .keep
  | some '-' => some .strip
  | _ => none

def BlockHeader.depth? (c : Cursor) : Option (Option Nat × Cursor) :=
  match c.head? with
  | some d =>
    if d == '0' then none
    else if d.isDigit then some (some (d.toNat - '0'.toNat), c.step)
    else some (none, c)
  | none => some (none, c)

def BlockHeader.read? (c : Cursor) : Option (BlockHeader × Cursor) :=
  match chomping? c.head? with
  | some chomping => (depth? c.step).map fun r => (⟨chomping, r.1⟩, r.2)
  | none =>
    (depth? c).map fun r =>
      match r.1, chomping? r.2.head? with
      | some n, some chomping => (⟨chomping, some n⟩, r.2.step)
      | depth, _ => (⟨.clip, depth⟩, r.2)

structure BlankLines where
  breaks : List Char
  deepest : Nat
  stop : Cursor

/-- Passes blank lines and the indentation of the line behind them, as far as the text is indented. -/
def blankLinesFrom (indent : Option Nat) (deepest : Nat) : Nat → Cursor → Option BlankLines
  | 0, _ => none
  | fuel + 1, c =>
    let spaces := (c.rest.takeWhile (· == ' ')).length
    let c := c.advance (match indent with
      | some n => min spaces (n - c.column)
      | none => spaces)
    let deepest := max deepest c.column
    let isInside : Bool := match indent with
      | some n => c.column < n
      | none => true
    if isInside && c.starts '\t' then none
    else
      match c.rest with
      | b :: _ =>
        if isBreak b then
          (blankLinesFrom indent deepest fuel c.step).map fun r => { r with breaks := b :: r.breaks }
        else some ⟨[], deepest, c⟩
      | [] => some ⟨[], deepest, c⟩

def blankLines? (indent : Option Nat) (c : Cursor) : Option BlankLines :=
  blankLinesFrom indent 0 (c.rest.length + 1) c

structure LineGap where
  first : List Char
  more : List Char
  /-- Whether the line in front starts with a blank; such lines are not folded. -/
  afterBlank : Bool

def LineGap.text (g : LineGap) (folded beforeBlank : Bool) : List Char :=
  if folded && g.first == ['\n'] && !g.afterBlank && !beforeBlank then
    (if g.more.isEmpty then [' '] else g.more)
  else g.first ++ g.more

def Chomping.tail (chomping : Chomping) (g : LineGap) : List Char :=
  match chomping with
  | .strip => []
  | .clip => g.first
  | .keep => g.first ++ g.more

def blockLinesFrom (folded : Bool) (chomping : Chomping) (indent : Nat) (gap : LineGap) :
    Nat → Cursor → Option (List Char × Cursor)
  | 0, _ => none
  | fuel + 1, c =>
    if c.column != indent || c.rest.isEmpty then some (chomping.tail gap, c)
    else
      let startsBlank := c.rest.head?.any isBlank
      let (line, stop) := c.span fun a => !isBreak a
      let (first, next) := match stop.rest with
        | b :: _ => ([b], stop.step)
        | [] => ([], stop)
      match blankLines? (some indent) next with
      | none => none
      | some blank =>
        (blockLinesFrom folded chomping indent ⟨first, blank.breaks, startsBlank⟩ fuel blank.stop).map
          fun r => (gap.text folded startsBlank ++ line ++ r.1, r.2)

def blockText? (folded : Bool) (outer : Option Nat) (c : Cursor) : Option (List Char × Cursor) := do
  let (header, c) ← BlockHeader.read? c
  let c ← c.endOfLine?
  let given := header.depth.map fun n => outer.getD 0 + n
  let blank ← blankLines? given c
  let indent := given.getD (max blank.deepest (max ((outer.map (· + 1)).getD 0) 1))
  blockLinesFrom folded header.chomping indent ⟨[], blank.breaks, false⟩ (c.rest.length + 1) blank.stop

end AddressMap.Yaml
