set_option autoImplicit false

namespace AddressMap.Yaml

structure Marks where
  tag : Option String
  slot : Option Nat

def Marks.none : Marks := ⟨.none, .none⟩

inductive Node where
  | reference (slot : Nat)
  | scalar (marks : Marks) ( isPlain : Bool) (text : String)
  | sequence (marks : Marks) (items : List Node)
  | mapping (marks : Marks) (entries : List (Node × Node))

namespace Node

def absent : Node := .scalar .none true ""

def slot? : Node → Option Nat
  | .reference _ => none
  | .scalar marks .. => marks.slot
  | .sequence marks _ => marks.slot
  | .mapping marks _ => marks.slot

mutual

def size : Node → Nat
  | .reference _ => 1
  | .scalar .. => 1
  | .sequence _ xs => 2 + sizeItems xs
  | .mapping _ es => 2 + sizeEntries es

def sizeItems : List Node → Nat
  | [] => 0
  | x :: xs => x.size + sizeItems xs

def sizeEntries : List (Node × Node) → Nat
  | [] => 0
  | (k, x) :: es => k.size + x.size + sizeEntries es

end

mutual

def find? (slot : Nat) : Node → Option Node
  | .sequence marks xs =>
    (findInItems? slot xs).or (if marks.slot == some slot then some (.sequence marks xs) else none)
  | .mapping marks es =>
    (findInEntries? slot es).or (if marks.slot == some slot then some (.mapping marks es) else none)
  | node => if node.slot? == some slot then some node else none

def findInItems? (slot : Nat) : List Node → Option Node
  | [] => none
  | x :: xs => (findInItems? slot xs).or (x.find? slot)

def findInEntries? (slot : Nat) : List (Node × Node) → Option Node
  | [] => none
  | (k, x) :: es => (findInEntries? slot es).or ((x.find? slot).or (k.find? slot))

end

end Node

end AddressMap.Yaml
