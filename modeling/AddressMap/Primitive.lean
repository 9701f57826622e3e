set_option autoImplicit false

namespace AddressMap

inductive Primitive where
  | u8
  | i8
  | u16
  | i16
  | u32
  | i32
  | u64
  | i64
  | char
  | float
  | double
  deriving DecidableEq, Inhabited

namespace Primitive

def all : List Primitive := [.u8, .i8, .u16, .i16, .u32, .i32, .u64, .i64, .char, .float, .double]

def name : Primitive → String
  | .u8 => "uint8_t"
  | .i8 => "int8_t"
  | .u16 => "uint16_t"
  | .i16 => "int16_t"
  | .u32 => "uint32_t"
  | .i32 => "int32_t"
  | .u64 => "uint64_t"
  | .i64 => "int64_t"
  | .char => "char"
  | .float => "float"
  | .double => "double"

def ofName? (name : String) : Option Primitive := all.find? fun p => p.name = name

def size : Primitive → Nat
  | .u8 | .i8 | .char => 1
  | .u16 | .i16 => 2
  | .u32 | .i32 | .float => 4
  | .u64 | .i64 | .double => 8

/-- Fixed-width integers; `char` is not one of them. -/
def isInteger : Primitive → Bool
  | .char | .float | .double => false
  | _ => true

def isSigned : Primitive → Bool
  | .i8 | .i16 | .i32 | .i64 => true
  | _ => false

def bounds? (p : Primitive) : Option (Int × Int) :=
  if !p.isInteger then none
  else if p.isSigned then some (-(Nat.pow 2 (8 * p.size - 1) : Int), (Nat.pow 2 (8 * p.size - 1) : Int) - 1)
  else some (0, (Nat.pow 2 (8 * p.size) : Int) - 1)

def fallback : Primitive := .u32

def smallestUnsigned (bits : Nat) : Primitive :=
  if 32 < bits then .u64
  else if 16 < bits then .u32
  else if 8 < bits then .u16
  else .u8

theorem size_pos (p : Primitive) : 0 < p.size := by cases p <;> decide

theorem smallestUnsigned_holds {bits : Nat} (h : bits ≤ 64) :
    bits ≤ 8 * (smallestUnsigned bits).size := by
  unfold smallestUnsigned
  split
  · simpa [size] using h
  · split
    · simp [size]; omega
    · split <;> simp [size] <;> omega

end Primitive

end AddressMap
