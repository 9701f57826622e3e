import AddressMap.Record

set_option autoImplicit false

namespace AddressMap.Access

def limit : Nat := 16

def bitsOf (users : Entries Nat) (v : Value) : Except PermissionFault Nat :=
  match v with
  | .null => .ok 0
  | .string user =>
    match users.get? user with
    | some bit => .ok bit
    | none => .error (.unknownUser user)
  | v =>
    match (Scalar.ofValue? v).bind fun x => x.truncated.toInt? with
    | some i => if 0 ≤ i then .ok i.toNat else .error (.invalid v)
    | none => .error (.invalid v)

def joinBits (users : Entries Nat) (bits : Nat) : List Value → Except PermissionFault Nat
  | [] => .ok bits
  | v :: rest =>
    match bitsOf users v with
    | .error e => .error e
    | .ok more => joinBits users (bits ||| more) rest

def listed : Option Value → List Value
  | none => []
  | some (.array xs) => xs
  | some v => [v]

def permission (users : Entries Nat) (r : Record) (p : Permission) : Except Error Nat :=
  match joinBits users 0 (listed (r.props.get? p.key)) with
  | .error fault => .error (.invalidPermission p r.name fault)
  | .ok bits => if limit ≤ bits then .error (.invalidPermission p r.name .tooWide) else .ok bits

def resolve (users : Entries Nat) (r : Record) : Except Error Record := do
  let readers ← permission users r .read
  let writers ← permission users r .write
  return { r with readers, writers }

end AddressMap.Access
