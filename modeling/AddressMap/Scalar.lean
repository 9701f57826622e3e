import AddressMap.Decimal.Layout
import AddressMap.Value

set_option autoImplicit false

namespace AddressMap

inductive Scalar where
  | int (i : Int)
  | float (x : Float)
  | text (s : String)
  deriving Inhabited

abbrev Env := Entries Scalar

namespace Scalar

inductive Kind where
  | int
  | float
  | text
  deriving DecidableEq

def Kind.name : Kind → String
  | .int => "int"
  | .float => "float"
  | .text => "str"

def minInt : Int := -0x80000000000000000000000000000000

def maxInt : Int := 0x7FFFFFFFFFFFFFFFFFFFFFFFFFFFFFFF

def fits (i : Int) : Bool := minInt ≤ i && i ≤ maxInt

def kind : Scalar → Kind
  | .int _ => .int
  | .float _ => .float
  | .text _ => .text

/-- A description value taken as it is: truth values count as 1 and 0, null and containers are none. -/
def ofValue? : Value → Option Scalar
  | .bool b => some (.int (if b then 1 else 0))
  | .number (.int i) => some (.int i)
  | .number (.float x) => some (.float x)
  | .string s => some (.text s)
  | .null | .array _ | .object _ => none

def toInt? : Scalar → Option Int
  | .int i => some i
  | _ => none

def toFloat? : Scalar → Option Float
  | .int i => some (Float.ofInt i)
  | .float x => some x
  | .text _ => none

/-- Drops the fraction of a double, which then becomes an integer. -/
def truncated : Scalar → Scalar
  | .float x => .int (Decimal.truncate minInt maxInt x)
  | s => s

def toText : Scalar → String
  | .int i => toString i
  | .float x => Decimal.Layout.plain.render x
  | .text s => s

def toValue : Scalar → Value
  | .int i =>
    if -0x8000000000000000 ≤ i ∧ i < 0x10000000000000000 then .number (.int i) else .string (toString i)
  | .float x => if Decimal.isFinite x then .number (.float x) else .null
  | .text s => .string s

end Scalar

end AddressMap
