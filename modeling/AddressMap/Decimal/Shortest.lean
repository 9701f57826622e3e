import AddressMap.Decimal.Binary

set_option autoImplicit false

/-!
A double stands for every real that rounds to it: an interval around the value, with its ends when the
mantissa is even. Its shortest text is the coarsest decimal grid with a point in that interval. If a
grid has such a point then one of the two neighbours of the value on that grid is one, so only these
are tried.
-/

namespace AddressMap.Decimal

structure GridPoint where
  digits : Nat
  exponent : Int

/-- `num / den` with the ends of the rounding interval over the same denominator. -/
structure Interval where
  num : Nat
  den : Nat
  low : Nat
  high : Nat
  closed : Bool

def Dyadic.interval (d : Dyadic) : Interval :=
  let e := d.exponent - 2
  let scale := Nat.pow 2 e.toNat
  { num := 4 * d.mantissa * scale
    den := Nat.pow 2 (-e).toNat
    low := (4 * d.mantissa - if d.narrow then 1 else 2) * scale
    high := (4 * d.mantissa + 2) * scale
    closed := d.mantissa % 2 == 0 }

def Interval.leading (v : Interval) : Int :=
  if v.den ≤ v.num then (Nat.toDigits 10 (v.num / v.den)).length - 1
  else -(((List.range 400).find? fun j => v.den ≤ v.num * Nat.pow 10 j).getD 400 : Nat)

def Interval.holds (v : Interval) (scale unit c : Nat) : Bool :=
  let x := c * unit
  if v.closed then v.low * scale ≤ x && x ≤ v.high * scale
  else v.low * scale < x && x < v.high * scale

/-- The point of the grid `10 ^ k` nearest to the value, if the interval has one. -/
def Interval.onGrid? (v : Interval) (tieUp : Bool) (k : Int) : Option GridPoint :=
  let scale := Nat.pow 10 (-k).toNat
  let unit := v.den * Nat.pow 10 k.toNat
  let below := v.num * scale / unit
  let toBelow := v.num * scale - below * unit
  let toAbove := (below + 1) * unit - v.num * scale
  match v.holds scale unit below, v.holds scale unit (below + 1) with
  | true, true =>
    let up := toAbove < toBelow || (toAbove == toBelow && (tieUp || below % 2 == 1))
    some ⟨if up then below + 1 else below, k⟩
  | true, false => some ⟨below, k⟩
  | false, true => some ⟨below + 1, k⟩
  | false, false => none

def GridPoint.trim : Nat → GridPoint → GridPoint
  | 0, d => d
  | fuel + 1, d =>
    if d.digits ≠ 0 && d.digits % 10 == 0 then GridPoint.trim fuel ⟨d.digits / 10, d.exponent + 1⟩
    else d

/-- Seventeen digits always suffice. -/
def Dyadic.shortest (tieUp : Bool) (d : Dyadic) : GridPoint :=
  if d.mantissa = 0 then ⟨0, 0⟩
  else
    let v := d.interval
    let top := v.leading
    let found := (List.range 17).findSome? fun (n : Nat) => v.onGrid? tieUp (top - n)
    GridPoint.trim 20 (found.getD ⟨0, 0⟩)

end AddressMap.Decimal
