set_option autoImplicit false

namespace AddressMap.Path

def isAbsolute (p : String) : Bool := p.startsWith "/"

/-- The names of a path; several slashes are one. -/
def names (p : String) : List String := ((p.toList.splitOn '/').map String.ofList).filter fun name => name != ""

/-- The names to follow. A slash at the end asks for a directory. -/
def steps (p : String) : List String := if p.endsWith "/" then names p ++ ["."] else names p

def isHere (p : String) : Bool := !isAbsolute p && !(names p).isEmpty && (names p).all (· == ".")

def join (base p : String) : String :=
  if isAbsolute p then p
  else if base.isEmpty || base.endsWith "/" then base ++ p
  else base ++ "/" ++ p

/-- Names up to the last one that says more than that the directory is meant. -/
def dropHere (names : List String) : List String := (names.reverse.dropWhile (· == ".")).reverse

def parent? (names : List String) : Option (List String) :=
  match dropHere names with
  | [] => none
  | name :: rest => some (dropHere (name :: rest).dropLast)

/-- What follows the last point of a name that has something in front of it. -/
def extension? (name : String) : Option String :=
  let reversed := name.toList.reverse
  match reversed.dropWhile (· != '.') with
  | _ :: _ :: _ => some (String.ofList (reversed.takeWhile (· != '.')).reverse)
  | _ => none

end AddressMap.Path
