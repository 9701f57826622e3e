import AddressMap.Record

set_option autoImplicit false

/-!
The folded form of a map keeps the records in the first item of every array and writes them over loop
variables. A loop opens at the first record of its array and closes at the last one, which is where the
number of the array at that level changes from one record to the next.
-/

namespace AddressMap.LoopNest

/-- Variables are `n`, `m`, … `a` from the outside in, then `i14`, `i15`, … -/
def variableName (level : Nat) : String :=
  if level ≤ 13 then String.ofList [Char.ofNat ('n'.toNat - level)] else s!"i{level}"

def replaceIndex (name : String) : List Char → List Char
  | '[' :: '0' :: ']' :: rest => '[' :: name.toList ++ ']' :: rest
  | c :: rest => c :: replaceIndex name rest
  | [] => []

def loopLevels (arrays : List ArrayLevel) : List LoopLevel :=
  arrays.zipIdx.map fun a => ⟨a.1.size, a.1.stride, a.1.uid, variableName a.2, false, false⟩

def loopName (name : String) (loops : List LoopLevel) : String :=
  String.ofList (loops.foldl (fun cs l => replaceIndex l.variableName cs) name.toList)

def loopOffset (base : Nat) (loops : List LoopLevel) : String :=
  loops.foldl (fun text l => text ++ s!"+{l.stride}*{l.variableName}") (toString base)

/-- A record of first items over its loop variables; where loops open and close is not known yet. -/
def generic (r : Record) : Record :=
  let loops := loopLevels r.arrays
  { r with
    name := loopName r.name loops
    loopOffset := some (loopOffset r.mapOffset loops)
    loops }

def uidAt (r : Option Record) (level : Nat) : Option Nat :=
  (r.bind fun r => r.loops[level]?).map (·.uid)

def mark (before after : Option Record) (r : Record) : Record :=
  { r with loops := r.loops.zipIdx.map fun l =>
      { l.1 with
        opens := uidAt before l.2 != some l.1.uid
        closes := uidAt after l.2 != some l.1.uid } }

def markAll (before : Option Record) : List Record → List Record
  | [] => []
  | r :: rest => mark before rest.head? r :: markAll (some r) rest

def fold (records : List Record) : List Record :=
  markAll none ((records.filter Record.isFirst).map generic)

end AddressMap.LoopNest
