import AddressMap.Expr.Grammar
import AddressMap.Value.Json

set_option autoImplicit false

/-!
An expression is evaluated against the constants known so far. A name that is not known, or operands
that do not fit, may still come right once more constants are known; all other errors are final.
-/

namespace AddressMap

inductive ExprError where
  | unknownName (name : String)
  | operands (symbol : String) (lhs rhs : Scalar.Kind)
  | divisionByZero
  | overflow
  | malformed (source : String) (fault : Expr.Fault)

namespace ExprError

def isRetryable : ExprError → Bool
  | .unknownName _ | .operands .. => true
  | _ => false

def message : ExprError → String
  | .unknownName name => s!"name '{name}' is not defined"
  | .operands symbol lhs rhs =>
    s!"unsupported operand type(s) for {symbol}: {lhs.name} and {rhs.name}"
  | .divisionByZero => "division by zero"
  | .overflow => "integer overflow"
  | .malformed source fault => s!"invalid syntax in '{source}': {fault.message}"

/-- A negative shift is a fault of the shift itself, written out with its operands. -/
def ofOperator : OperatorError → ExprError
  | .operands symbol lhs rhs => .operands symbol lhs rhs
  | .divisionByZero => .divisionByZero
  | .overflow => .overflow
  | .negativeShift a op b => .malformed s!"{a} {op.symbol} {b}" .negativeShift

end ExprError

inductive Expr where
  | int (i : Int)
  | float (x : Float)
  | text (s : String)
  | name (s : String)
  | unary (op : UnaryOp) (operand : Expr)
  | binary (op : BinaryOp) (lhs rhs : Expr)

namespace Expr

def lookup (env : Env) (name : String) : Except ExprError Scalar :=
  match env.get? name with
  | some x => .ok x
  | none => .error (.unknownName name)

/-- Operands from left to right, then the operator. `True` and `False` are 1 and 0, whatever is known. -/
def eval (env : Env) : Expr → Except ExprError Scalar
  | .int i => .ok (.int i)
  | .float x => .ok (.float x)
  | .text s => .ok (.text s)
  | .name s =>
    if s = "True" then .ok (.int 1) else if s = "False" then .ok (.int 0) else lookup env s
  | .unary op e => do
    let x ← e.eval env
    (Scalar.unary op x).mapError ExprError.ofOperator
  | .binary op e f => do
    let x ← e.eval env
    let y ← f.eval env
    (Scalar.binary op x y).mapError ExprError.ofOperator

def tree : Meaning Fault Expr where
  fault := id
  int := .int
  float := .float
  text := .text
  name s := .ok (.name s)
  unary op e := .ok (.unary op e)
  binary op e f := .ok (.binary op e f)

def parse (source : String) : Except Fault Expr := readText tree source

def value (source : String) (env : Env) : Meaning ExprError Scalar where
  fault := .malformed source
  int := .int
  float := .float
  text := .text
  name := lookup env
  unary op x := (Scalar.unary op x).mapError ExprError.ofOperator
  binary op x y := (Scalar.binary op x y).mapError ExprError.ofOperator

end Expr

def evaluate (source : String) (env : Env) : Except ExprError Scalar :=
  Expr.readText (Expr.value source env) source

def evaluateValue (v : Value) (env : Env) : Except ExprError Scalar :=
  match v with
  | .string s => evaluate s env
  | v =>
    match Scalar.ofValue? v with
    | some x => .ok x
    | none => .error (.malformed v.compact .notAnExpression)

end AddressMap
