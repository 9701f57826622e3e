import AddressMap.Expr.Token

set_option autoImplicit false

/-!
Six left-associative binary levels, loosest first: `|`; `^`; `&`; `<<` and `>>`; `+` and `-`; `*`, `/`,
`//` and `%`. Below them the unary operators, and tightest `**`, whose right side may be unary again.

Reading is done with a meaning: every phrase is given its meaning as soon as it is complete, so of two
faults the one that ends first in the text is reported. With the tree as meaning, reading parses; with
the value as meaning, it evaluates.
-/

namespace AddressMap.Expr

/-- What the phrases of an expression mean. -/
structure Meaning (ε α : Type) where
  fault : Fault → ε
  int : Int → α
  float : Float → α
  text : String → α
  name : String → Except ε α
  unary : UnaryOp → α → Except ε α
  binary : BinaryOp → α → α → Except ε α

def level? : BinaryOp → Option Nat
  | .or => some 0
  | .xor => some 1
  | .and => some 2
  | .shiftLeft | .shiftRight => some 3
  | .add | .sub => some 4
  | .mul | .div | .floorDiv | .mod => some 5
  | .pow => none

def levels : Nat := 6

def prefixOp? : Token → Option UnaryOp
  | .op .add => some .plus
  | .op .sub => some .minus
  | .tilde => some .invert
  | _ => none

section Reading

variable {ε α : Type} (m : Meaning ε α)

/-- Reading takes an upper bound for its depth; `depthFor` is enough for any list of tokens, so that nothing is ever
    too deep. -/
def depthFor (ts : List Token) : Nat := 10 * (ts.length + 1)

mutual

def readLevel (depth : Nat) (level : Nat) (ts : List Token) : Except ε (α × List Token) :=
  match depth with
  | 0 => .error (m.fault .tooDeep)
  | depth + 1 =>
    if level < levels then
      match readLevel depth (level + 1) ts with
      | .error e => .error e
      | .ok (x, rest) => readChain depth level x rest
    else readFactor depth ts

def readChain (depth : Nat) (level : Nat) (lhs : α) (ts : List Token) : Except ε (α × List Token) :=
  match depth with
  | 0 => .error (m.fault .tooDeep)
  | depth + 1 =>
    match ts with
    | .op o :: rest =>
      if level? o = some level then
        match readLevel depth (level + 1) rest with
        | .error e => .error e
        | .ok (y, rest) =>
          match m.binary o lhs y with
          | .error e => .error e
          | .ok x => readChain depth level x rest
      else .ok (lhs, ts)
    | _ => .ok (lhs, ts)

def readFactor (depth : Nat) (ts : List Token) : Except ε (α × List Token) :=
  match depth with
  | 0 => .error (m.fault .tooDeep)
  | depth + 1 =>
    match ts with
    | t :: rest =>
      match prefixOp? t with
      | some o =>
        match readFactor depth rest with
        | .error e => .error e
        | .ok (x, rest) => (m.unary o x).map fun y => (y, rest)
      | none => readPower depth ts
    | [] => .error (m.fault .unexpectedEnd)

def readPower (depth : Nat) (ts : List Token) : Except ε (α × List Token) :=
  match depth with
  | 0 => .error (m.fault .tooDeep)
  | depth + 1 =>
    match readAtom depth ts with
    | .error e => .error e
    | .ok (x, .op .pow :: rest) =>
      match readFactor depth rest with
      | .error e => .error e
      | .ok (y, rest) => (m.binary .pow x y).map fun z => (z, rest)
    | .ok (x, rest) => .ok (x, rest)

def readAtom (depth : Nat) (ts : List Token) : Except ε (α × List Token) :=
  match depth with
  | 0 => .error (m.fault .tooDeep)
  | depth + 1 =>
    match ts with
    | [] => .error (m.fault .unexpectedEnd)
    | .int i :: rest => .ok (m.int i, rest)
    | .float x :: rest => .ok (m.float x, rest)
    | .text s :: rest => .ok (m.text s, rest)
    | .name s :: rest =>
      if s = "True" then .ok (m.int 1, rest)
      else if s = "False" then .ok (m.int 0, rest)
      else (m.name s).map fun x => (x, rest)
    | .opening :: rest =>
      match readLevel depth 0 rest with
      | .error e => .error e
      | .ok (x, .closing :: rest) => .ok (x, rest)
      | .ok _ => .error (m.fault .unclosed)
    | .closing :: _ | .op _ :: _ | .tilde :: _ => .error (m.fault .unexpectedToken)

end

def readAll (ts : List Token) : Except ε α :=
  match readLevel m (depthFor ts) 0 ts with
  | .error e => .error e
  | .ok (x, []) => .ok x
  | .ok (_, _ :: _) => .error (m.fault .trailing)

def readText (source : String) : Except ε α :=
  match tokens source.toList with
  | .error f => .error (m.fault f)
  | .ok ts => readAll m ts

end Reading

end AddressMap.Expr
