import AddressMap.Declaration
import AddressMap.Error

set_option autoImplicit false

namespace AddressMap.Typedef

def elementTypes (fallback : Primitive) (d : TypedefDecl) : List String :=
  d.members.map fun e => e.type.getD fallback.name

def firstMissing (isLeaf : String → Bool) (fallback : Primitive) (known : List String)
    (d : TypedefDecl) : Option String :=
  (elementTypes fallback d).find? fun type => !isLeaf type && !known.contains type

structure OrderPass where
  ordered : List String
  postponed : Entries TypedefDecl
  missing : List String

def orderPass (isLeaf : String → Bool) (fallback : Primitive) (known : List String) :
    Entries TypedefDecl → OrderPass
  | [] => ⟨[], [], []⟩
  | (name, d) :: rest =>
    match firstMissing isLeaf fallback known d with
    | none =>
      let p := orderPass isLeaf fallback (name :: known) rest
      { p with ordered := name :: p.ordered }
    | some type =>
      let p := orderPass isLeaf fallback known rest
      { p with postponed := (name, d) :: p.postponed, missing := type :: p.missing }

/-- Passes until none is open, at most one for each typedef. -/
def orderPasses (isLeaf : String → Bool) (fallback : Primitive) :
    Nat → (known : List String) → Entries TypedefDecl → Except Error (List String)
  | _, known, [] => .ok known
  | 0, _, pending => .error (.unresolved (.typedefs pending.keys []))
  | n + 1, known, pending =>
    let p := orderPass isLeaf fallback known pending
    if p.ordered.isEmpty then
      .error (.unresolved (.typedefs pending.keys (sortedNames p.missing)))
    else orderPasses isLeaf fallback n (known ++ p.ordered) p.postponed

def order (isLeaf : String → Bool) (fallback : Primitive) (table : Entries TypedefDecl) :
    Except Error (List String) :=
  orderPasses isLeaf fallback table.length [] table

end AddressMap.Typedef
