import AddressMap.Decimal.Shortest

set_option autoImplicit false

/-!
A layout fixes what the shortest digits leave open: where the text turns to an exponent, how whole
values end, and which way a tie between two equally short texts goes. Generated C writes every value
out; data files use an exponent for very large and very small values.
-/

namespace AddressMap.Decimal

structure Layout where
  /-- A tie between two texts goes to the larger one, else to the even one. -/
  tieUp : Bool
  /-- Whole values are written with all their digits, not only those that read back. -/
  exactWhole : Bool
  /-- The positions of the point, relative to the first digit, that need no exponent: above the first
      number and up to the second. -/
  points : Option (Int × Int)
  /-- An exponent that is not negative has a plus. -/
  plus : Bool

def Layout.plain : Layout := ⟨true, true, none, true⟩

/-- An exponent, always with its sign, from `1e+16` on and below `1e-5`; a tie goes to the even digit. -/
def Layout.data : Layout := ⟨false, false, some (-5, 16), true⟩

def Layout.yaml : Layout := ⟨false, false, some (-5, 16), false⟩

def zeros (n : Nat) : List Char := List.replicate n '0'

def positional (digits : List Char) (point : Int) : List Char :=
  let n : Int := digits.length
  if n ≤ point then digits ++ zeros (point - n).toNat ++ ['.', '0']
  else if 0 < point then digits.take point.toNat ++ '.' :: digits.drop point.toNat
  else '0' :: '.' :: zeros (-point).toNat ++ digits

def scientific (plus : Bool) (digits : List Char) (point : Int) : List Char :=
  let power := point - 1
  let mark := 'e' :: (if plus && 0 ≤ power then "+" else "").toList ++ (toString power).toList
  match digits with
  | [] => mark
  | [d] => d :: mark
  | d :: rest => d :: '.' :: rest ++ mark

def Layout.magnitude (l : Layout) (d : Dyadic) : List Char :=
  if l.exactWhole && d.isWhole then (toString d.floor).toList ++ ['.', '0']
  else
    let s := d.shortest l.tieUp
    let digits := (toString s.digits).toList
    let point := s.exponent + digits.length
    match l.points with
    | none => positional digits point
    | some (low, high) =>
      if s.digits = 0 then ['0', '.', '0']
      else if low < point && point ≤ high then positional digits point
      else scientific l.plus digits point

def Layout.render (l : Layout) (x : Float) : String :=
  match unpack x with
  | .nan => "NaN"
  | .infinite negative => if negative then "-inf" else "inf"
  | .finite negative d =>
    String.ofList (if negative then '-' :: l.magnitude d else l.magnitude d)

end AddressMap.Decimal
