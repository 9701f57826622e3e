set_option autoImplicit false

namespace AddressMap.Decimal

/-- The magnitude `mantissa · 2 ^ exponent` of a finite double. It is `narrow` when the next smaller
    double is only half as far away as the next larger one. -/
structure Dyadic where
  mantissa : Nat
  exponent : Int
  narrow : Bool

inductive Unpacked where
  | nan
  | infinite (negative : Bool)
  | finite (negative : Bool) (magnitude : Dyadic)

def unpack (x : Float) : Unpacked :=
  let bits := x.toBits.toNat
  let negative := 0x8000000000000000 ≤ bits
  let field : Nat := bits / 0x10000000000000 % 0x800
  let fraction : Nat := bits % 0x10000000000000
  if field = 0x7FF then
    if fraction = 0 then .infinite negative else .nan
  else if field = 0 then .finite negative ⟨fraction, -1074, false⟩
  else .finite negative ⟨0x10000000000000 + fraction, (field : Int) - 1075, fraction = 0 && 1 < field⟩

def Dyadic.floor (d : Dyadic) : Nat :=
  if 0 ≤ d.exponent then d.mantissa * Nat.pow 2 d.exponent.toNat
  else d.mantissa / Nat.pow 2 (-d.exponent).toNat

def Dyadic.isWhole (d : Dyadic) : Bool :=
  0 ≤ d.exponent || d.mantissa % Nat.pow 2 (-d.exponent).toNat == 0

def isFinite (x : Float) : Bool :=
  match unpack x with
  | .finite .. => true
  | _ => false

/-- The part of `x` before the point, held within `low` and `high`; no number counts as zero. -/
def truncate (low high : Int) (x : Float) : Int :=
  match unpack x with
  | .nan => 0
  | .infinite negative => if negative then low else high
  | .finite negative d =>
    let i : Int := if negative then -(d.floor : Int) else d.floor
    max low (min high i)

end AddressMap.Decimal
