set_option autoImplicit false

/-!
Regular expressions over characters, and whether a text contains a match. Only that is asked, so a match is a pair of
positions and the set of ends reached from a start is all that has to be known. Overrides take any reader of patterns;
this is the one that a run has unless it is given another.
-/

namespace AddressMap

inductive Pattern where
  /-- The empty text, where the characters before and after satisfy a test. -/
  | between (test : Option Char → Option Char → Bool)
  | one (test : Char → Bool)
  | seq (a b : Pattern)
  | alt (a b : Pattern)
  | repeated (least : Nat) (most : Option Nat) (a : Pattern)

namespace Pattern

def empty : Pattern := .between fun _ _ => true

def union (xs ys : List Nat) : List Nat := xs ++ ys.filter fun y => !xs.contains y

def unionAll (xss : List (List Nat)) : List Nat := xss.foldl union []

def stepAll (step : Nat → List Nat) (starts : List Nat) : List Nat := unionAll (starts.map step)

def stepsExactly (step : Nat → List Nat) : Nat → List Nat → List Nat
  | 0, starts => starts
  | n + 1, starts => stepsExactly step n (stepAll step starts)

def stepsUpTo (step : Nat → List Nat) : Nat → List Nat → List Nat
  | 0, starts => starts
  | n + 1, starts =>
    if starts.isEmpty then [] else union starts (stepsUpTo step n (stepAll step starts))

/-- Any number of steps, given how many positions there are: what `seen` does not hold yet is reached
    at most that many steps later. -/
def closure (step : Nat → List Nat) : Nat → (seen frontier : List Nat) → List Nat
  | 0, seen, _ => seen
  | n + 1, seen, frontier =>
    let fresh := (stepAll step frontier).filter fun i => !seen.contains i
    if fresh.isEmpty then seen else closure step n (seen ++ fresh) fresh

def ends (text : Array Char) : Pattern → Nat → List Nat
  | .between test, i => if test (if i = 0 then none else text[i - 1]?) text[i]? then [i] else []
  | .one test, i =>
    match text[i]? with
    | some c => if test c then [i + 1] else []
    | none => []
  | .seq a b, i => stepAll (ends text b) (ends text a i)
  | .alt a b, i => union (ends text a i) (ends text b i)
  | .repeated least most a, i =>
    let start := stepsExactly (ends text a) least [i]
    match most with
    | none => closure (ends text a) (text.size + 1) start start
    | some most => stepsUpTo (ends text a) (most - least) start

def matches? (p : Pattern) (text : String) : Bool :=
  let cs := text.toList.toArray
  (List.range (cs.size + 1)).any fun i => !(p.ends cs i).isEmpty

end Pattern

end AddressMap
