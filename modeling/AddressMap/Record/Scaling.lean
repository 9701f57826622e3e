import AddressMap.Record

set_option autoImplicit false

namespace AddressMap.Scaling

def evaluateKey (env : Env) (r : Record) (key : String) : Except Error (Option Scalar) :=
  match r.props.get? key with
  | none | some .null => .ok none
  | some v =>
    match evaluateValue v env with
    | .ok x => .ok (some x)
    | .error e => .error (.evaluation s!"{key} of {r.name}" e)

def divide (x factor : Scalar) (integral : Bool) : Except ExprError Scalar :=
  match x.toFloat?, factor.toFloat? with
  | some a, some b =>
    if b == 0.0 then .error .divisionByZero
    else .ok (if integral then (Scalar.float (a / b)).truncated else .float (a / b))
  | _, _ => .error (.operands BinaryOp.div.symbol x.kind factor.kind)

def scaledValue (env : Env) (r : Record) (factor : Option Scalar) (key : String) :
    Except Error ScaledValue := do
  match ← evaluateKey env r key with
  | none => return .absent
  | some x =>
    match factor with
    | none => return ⟨some x, none⟩
    | some f =>
      match divide x f r.isIntegral with
      | .ok y => return ⟨some x, some y⟩
      | .error e => .error (.evaluation s!"scaled {key} of {r.name}" e)

def resolve (env : Env) (r : Record) : Except Error Record := do
  let scalingFactor ← evaluateKey env r "scaling_factor"
  let default ← scaledValue env r scalingFactor "default"
  let min ← scaledValue env r scalingFactor "min"
  let max ← scaledValue env r scalingFactor "max"
  return { r with scalingFactor, default, min, max }

end AddressMap.Scaling
