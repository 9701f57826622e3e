import AddressMap.Entries

set_option autoImplicit false

namespace AddressMap

inductive Number where
  | int (i : Int)
  | float (x : Float)
  deriving BEq, DecidableEq, Inhabited

inductive Value where
  | null
  | bool (b : Bool)
  | number (n : Number)
  | string (s : String)
  | array (items : List Value)
  | object (entries : List (String × Value))
  deriving Inhabited

abbrev Props := Entries Value

namespace Value

def ofInt (i : Int) : Value := .number (.int i)

def ofNat (n : Nat) : Value := .number (.int n)

def strings (names : List String) : Value := .array (names.map .string)

def flag (key : String) (b : Bool) : Props := if b then [(key, .bool true)] else []

def isString : Value → Bool
  | .string _ => true
  | _ => false

mutual

/-- Equality of data: the order of an object's keys does not count. -/
def same : Value → Value → Bool
  | .null, .null => true
  | .bool a, .bool b => a == b
  | .number a, .number b => a == b
  | .string a, .string b => a == b
  | .array xs, .array ys => sameItems xs ys
  | .object xs, .object ys => xs.length == ys.length && sameEntries xs ys
  | _, _ => false

def sameItems : List Value → List Value → Bool
  | [], [] => true
  | x :: xs, y :: ys => x.same y && sameItems xs ys
  | _, _ => false

def sameEntries : List (String × Value) → Entries Value → Bool
  | [], _ => true
  | (k, x) :: xs, ys =>
    (match ys.get? k with
      | some y => x.same y
      | none => false) && sameEntries xs ys

end

mutual

/-- Whether two values are one, the order of keys included. -/
def identical : Value → Value → Bool
  | .null, .null => true
  | .bool a, .bool b => a == b
  | .number m, .number n => decide (m = n)
  | .string s, .string t => s == t
  | .array xs, .array ys => identicalItems xs ys
  | .object es, .object fs => identicalEntries es fs
  | _, _ => false

def identicalItems : List Value → List Value → Bool
  | [], [] => true
  | x :: xs, y :: ys => x.identical y && identicalItems xs ys
  | _, _ => false

def identicalEntries : List (String × Value) → List (String × Value) → Bool
  | [], [] => true
  | (k, x) :: es, (l, y) :: fs => k == l && x.identical y && identicalEntries es fs
  | _, _ => false

end

mutual

theorem identical_iff : (v w : Value) → (v.identical w ↔ v = w)
  | .null, w => by cases w <;> simp [identical]
  | .bool _, w => by cases w <;> simp [identical]
  | .number _, w => by cases w <;> simp [identical]
  | .string _, w => by cases w <;> simp [identical]
  | .array xs, w => by cases w <;> simp [identical, identicalItems_iff xs]
  | .object es, w => by cases w <;> simp [identical, identicalEntries_iff es]

theorem identicalItems_iff : (xs ys : List Value) → (identicalItems xs ys ↔ xs = ys)
  | [], ys => by cases ys <;> simp [identicalItems]
  | x :: xs, ys => by cases ys <;> simp [identicalItems, identical_iff x, identicalItems_iff xs]

theorem identicalEntries_iff : (es fs : List (String × Value)) → (identicalEntries es fs ↔ es = fs)
  | [], fs => by cases fs <;> simp [identicalEntries]
  | (k, x) :: es, [] => by simp [identicalEntries]
  | (k, x) :: es, (l, y) :: fs => by
    simp [identicalEntries, identical_iff x, identicalEntries_iff es]

end

instance : DecidableEq Value := fun v w => decidable_of_iff _ (identical_iff v w)

mutual

def sortKeys : Value → Value
  | .array xs => .array (sortItems xs)
  | .object es => .object (Entries.sortByKey (sortEntries es))
  | v => v

def sortItems : List Value → List Value
  | [] => []
  | x :: xs => x.sortKeys :: sortItems xs

def sortEntries : List (String × Value) → List (String × Value)
  | [] => []
  | (k, x) :: es => (k, x.sortKeys) :: sortEntries es

end

end Value

end AddressMap
