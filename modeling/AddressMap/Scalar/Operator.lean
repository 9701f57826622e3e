import AddressMap.Scalar

set_option autoImplicit false

/-!
Integer results are exact or refused. `/` always gives a double; `//` is the floor of the quotient and
`%` the remainder with the sign of the divisor; `&`, `|`, `^` and `~` work on two's complement.

Integers are computed with step by step on 128 bits, by two kinds of steps: a checked step refuses a result
that it cannot give, a plain one relies on having a result and traps otherwise.
-/

namespace AddressMap

inductive UnaryOp where
  | plus
  | minus
  | invert
  deriving DecidableEq

inductive BinaryOp where
  | or
  | xor
  | and
  | shiftLeft
  | shiftRight
  | add
  | sub
  | mul
  | div
  | floorDiv
  | mod
  | pow
  deriving DecidableEq

def UnaryOp.symbol : UnaryOp → String
  | .plus => "+"
  | .minus => "-"
  | .invert => "~"

def BinaryOp.symbol : BinaryOp → String
  | .or => "|"
  | .xor => "^"
  | .and => "&"
  | .shiftLeft => "<<"
  | .shiftRight => ">>"
  | .add => "+"
  | .sub => "-"
  | .mul => "*"
  | .div => "/"
  | .floorDiv => "//"
  | .mod => "%"
  | .pow => "**"

inductive OperatorError where
  | operands (symbol : String) (lhs rhs : Scalar.Kind)
  | divisionByZero
  | overflow
  | negativeShift (a : Int) (op : BinaryOp) (b : Int)

namespace Scalar

/-- What ends a computation on integers of 128 bits before its result. -/
inductive Stop where
  | refused
  | trapped
  deriving DecidableEq

def within (stop : Stop) (i : Int) : Except Stop Int := if fits i then .ok i else .error stop

def quotient (a b : Int) : Except Stop Int :=
  if b = 0 then .error .refused else within .refused (a.tdiv b)

def remainder (stop : Stop) (a b : Int) : Except Stop Int :=
  if b = 0 then .error stop else (within stop (a.tdiv b)).map fun _ => a.tmod b

/-- Shift counts and exponents are natural numbers of 32 bits. -/
def countLimit : Int := 0x100000000

def count (b : Int) : Except Stop Nat :=
  if 0 ≤ b ∧ b < countLimit then .ok b.toNat else .error .refused

/-- The low bits of the exact result, whatever is lost above them. -/
def shiftedLeft (a : Int) (n : Nat) : Except Stop Int :=
  if n < 128 then .ok (Int.bmod (a * (Nat.pow 2 n : Int)) (Nat.pow 2 128)) else .error .refused

def shiftedRight (a : Int) (n : Nat) : Except Stop Int :=
  if n < 128 then .ok (a.shiftRight n) else .error .trapped

def bitwise (f : BitVec 128 → BitVec 128 → BitVec 128) (a b : Int) : Int :=
  (f (BitVec.ofInt 128 a) (BitVec.ofInt 128 b)).toInt

/-- Where the signs differ, a quotient toward zero that is not exact lies one above the floor. -/
def floorDiv (a b : Int) : Except Stop Int := do
  let q ← quotient a b
  let r ← remainder .trapped a b
  if r ≠ 0 ∧ ¬(a < 0 ↔ b < 0) then within .refused (q - 1) else return q

def mod (a b : Int) : Except Stop Int := do
  let r ← remainder .refused a b
  if r ≠ 0 ∧ ¬(r < 0 ↔ b < 0) then within .trapped (r + b) else return r

def shiftLeft (a b : Int) : Except Stop Int := do
  let n ← count b
  let shifted ← shiftedLeft a n
  let back ← shiftedRight shifted n
  if back = a then return shifted else throw .refused

def shiftRight (a b : Int) : Except Stop Int := do
  let n ← count b
  shiftedRight a (min n 127)

/-- Bases other than -1, 0 and 1 overflow from the exponent 128 on. -/
def power (a b : Int) : Except Stop Int := do
  let n ← count b
  if a.natAbs ≤ 1 then return if n = 0 then 1 else if n % 2 = 0 then a * a else a
  else if 128 ≤ n then throw .refused
  else within .refused (Int.pow a n)

def intBinary (op : BinaryOp) (a b : Int) : Except Stop Scalar :=
  match op with
  | .add => (within .refused (a + b)).map .int
  | .sub => (within .refused (a - b)).map .int
  | .mul => (within .refused (a * b)).map .int
  | .div => if b = 0 then .error .refused else .ok (.float (Float.ofInt a / Float.ofInt b))
  | .floorDiv => (floorDiv a b).map .int
  | .mod => (mod a b).map .int
  | .and => .ok (.int (bitwise (· &&& ·) a b))
  | .or => .ok (.int (bitwise (· ||| ·) a b))
  | .xor => .ok (.int (bitwise (· ^^^ ·) a b))
  | .shiftLeft => (shiftLeft a b).map .int
  | .shiftRight => (shiftRight a b).map .int
  | .pow =>
    if b < 0 then .ok (.float ((Float.ofInt a).pow (Float.ofInt b))) else (power a b).map .int

def refusal (op : BinaryOp) (a b : Int) : OperatorError :=
  if (op = .div ∨ op = .floorDiv ∨ op = .mod) ∧ b = 0 then .divisionByZero
  else if (op = .shiftLeft ∨ op = .shiftRight) ∧ b < 0 then .negativeShift a op b
  else .overflow

def floatBinary (op : BinaryOp) (a b : Float) : Option (Except OperatorError Float) :=
  let divided (x : Float) : Option (Except OperatorError Float) :=
    some (if b == 0.0 then .error .divisionByZero else .ok x)
  match op with
  | .add => some (.ok (a + b))
  | .sub => some (.ok (a - b))
  | .mul => some (.ok (a * b))
  | .div => divided (a / b)
  | .floorDiv => divided (a / b).floor
  | .mod => divided (a - b * (a / b).floor)
  | .pow => some (.ok (a.pow b))
  | .or | .xor | .and | .shiftLeft | .shiftRight => none

def unary (op : UnaryOp) (x : Scalar) : Except OperatorError Scalar :=
  match op, x with
  | .plus, .int i => .ok (.int i)
  | .plus, .float f => .ok (.float f)
  | .minus, .int i => ((within .refused (-i)).map .int).mapError fun _ => .overflow
  | .minus, .float f => .ok (.float (-f))
  | .invert, .int i => .ok (.int (-i - 1))
  | _, _ => .error (.operands op.symbol x.kind x.kind)

def binary (op : BinaryOp) (x y : Scalar) : Except OperatorError Scalar :=
  match x, y with
  | .int a, .int b => (intBinary op a b).mapError fun _ => refusal op a b
  | .text a, .text b =>
    if op = .add then .ok (.text (a ++ b)) else .error (.operands op.symbol .text .text)
  | _, _ =>
    match x.toFloat?, y.toFloat? with
    | some a, some b =>
      match floatBinary op a b with
      | some r => r.map .float
      | none => .error (.operands op.symbol x.kind y.kind)
    | _, _ => .error (.operands op.symbol x.kind y.kind)

end Scalar

end AddressMap
