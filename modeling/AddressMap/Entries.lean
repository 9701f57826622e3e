set_option autoImplicit false

namespace AddressMap

abbrev Entries (α : Type) := List (String × α)

namespace Entries

variable {α β : Type}

def get? (es : Entries α) (key : String) : Option α :=
  match es with
  | [] => none
  | (k, v) :: rest => if k = key then some v else get? rest key

def has (es : Entries α) (key : String) : Bool := (es.get? key).isSome

def keys (es : Entries α) : List String := es.map (·.1)

/-- Replaces the value of `key` in its place, or appends it. -/
def set (es : Entries α) (key : String) (value : α) : Entries α :=
  match es with
  | [] => [(key, value)]
  | (k, v) :: rest => if k = key then (k, value) :: rest else (k, v) :: set rest key value

def merge (es layer : Entries α) : Entries α :=
  layer.foldl (fun acc e => acc.set e.1 e.2) es

/-- Removes `key`; the last entry takes its place. -/
def swapErase (es : Entries α) (key : String) : Entries α :=
  match es with
  | [] => []
  | (k, v) :: rest =>
    if k = key then
      match rest.getLast? with
      | some last => last :: rest.dropLast
      | none => []
    else (k, v) :: swapErase rest key

/-- Inserts into a list that is ascending in its keys; an equal key is replaced. -/
def insert (es : Entries α) (key : String) (value : α) : Entries α :=
  match es with
  | [] => [(key, value)]
  | (k, v) :: rest =>
    if k = key then (key, value) :: rest
    else if key < k then (key, value) :: (k, v) :: rest
    else (k, v) :: insert rest key value

def ofOption (key : String) : Option α → Entries α
  | some value => [(key, value)]
  | none => []

def mapValues (es : Entries α) (f : α → β) : Entries β := es.map fun e => (e.1, f e.2)

/-- Puts an entry in front of the first one whose key is not smaller. -/
def place (es : Entries α) (e : String × α) : Entries α :=
  match es with
  | [] => [e]
  | f :: rest => if e.1 ≤ f.1 then e :: f :: rest else f :: place rest e

def sortByKey (es : Entries α) : Entries α := es.foldr (fun e sorted => sorted.place e) []

theorem get?_set_self (es : Entries α) (key : String) (value : α) :
    (es.set key value).get? key = some value := by
  induction es with
  | nil => simp [set, get?]
  | cons e rest ih =>
    obtain ⟨k, v⟩ := e
    by_cases h : k = key
    · simp [set, get?, h]
    · simp [set, get?, h, ih]

theorem get?_set_of_ne (es : Entries α) {key other : String} (value : α) (h : key ≠ other) :
    (es.set key value).get? other = es.get? other := by
  induction es with
  | nil => simp [set, get?, h]
  | cons e rest ih =>
    obtain ⟨k, v⟩ := e
    by_cases hk : k = key
    · subst hk
      simp [set, get?, h]
    · by_cases ho : k = other
      · subst ho
        simp [set, get?, hk]
      · simp [set, get?, hk, ho, ih]

theorem keys_set_of_has (es : Entries α) {key : String} (value : α) (h : key ∈ es.keys) :
    (es.set key value).keys = es.keys := by
  induction es with
  | nil => simp [keys] at h
  | cons e rest ih =>
    obtain ⟨k, v⟩ := e
    by_cases hk : k = key
    · simp [set, keys, hk]
    · have : key ∈ keys rest := by
        simp only [keys, List.map_cons, List.mem_cons] at h
        rcases h with h | h
        · exact absurd h.symm hk
        · exact h
      have ih := ih this
      simp only [keys] at ih
      simp [set, keys, hk, ih]

end Entries

def sortedNames (names : List String) : List String :=
  Entries.keys (names.foldl (fun (es : Entries Unit) name => es.insert name ()) [])

end AddressMap
