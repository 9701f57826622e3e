import AddressMap.Declaration
import AddressMap.Error

set_option autoImplicit false

/-!
An entry with a reference starts with the members of the entry it names, which may itself refer on. A
chain that comes back to an entry or leaves the table is refused. Chains are followed in the table as
it is written, so the order in which entries are expanded does not matter.
-/

namespace AddressMap.Reference

variable {μ η : Type}

/-- The entries reached from `next`, nearest first. No chain is longer than the table, so `steps` need
    not exceed its length by more than one. -/
def chain (table : Entries (Declared μ η)) :
    (steps : Nat) → (visited : List String) → (next : Option String) →
      Except ReferenceFault (List (Declared μ η))
  | _, _, none => .ok []
  | 0, _, some target => .error (.loop target)
  | steps + 1, visited, some target =>
    if target ∈ visited then .error (.loop target)
    else match table.get? target with
      | none => .error (.missing target)
      | some d => (chain table steps (target :: visited) d.reference).map (d :: ·)

def expandEntry (table : Entries (Declared μ η)) (name : String) (d : Declared μ η) :
    Except ReferenceFault (Declared μ η) :=
  (chain table (table.length + 1) [name] d.reference).map fun ds =>
    { d with
      members := ds.reverse.flatMap (·.members) ++ d.members
      reference := none }

def expandFrom (kind : Section) (table : Entries (Declared μ η)) :
    Entries (Declared μ η) → Except Error (Entries (Declared μ η))
  | [] => .ok []
  | (name, d) :: rest =>
    match expandEntry table name d with
    | .error fault => .error (.unresolved (.reference name kind fault))
    | .ok d =>
      match expandFrom kind table rest with
      | .error e => .error e
      | .ok ds => .ok ((name, d) :: ds)

def expand (kind : Section) (table : Entries (Declared μ η)) :
    Except Error (Entries (Declared μ η)) :=
  expandFrom kind table table

end AddressMap.Reference
