import AddressMap.Proofs.Value.KeyOrder
import AddressMap.Reference
import AddressMap.Typedef.Order

set_option autoImplicit false

namespace AddressMap

variable {keep : String → Bool}

def seen (keep : String → Bool) (description : Option String) : Option String :=
  if keep "description" then description else none

def Declared.map {μ μ' η η' : Type} (f : μ → μ') (g : η → η') (d : Declared μ η) : Declared μ' η' :=
  ⟨d.members.map f, d.reference, g d.head⟩

def ElementDecl.view (keep : String → Bool) (d : ElementDecl) : ElementDecl where
  name := d.name
  type := d.type
  arraySize := d.arraySize.map Value.sortKeys
  description := seen keep d.description
  props := d.props.view keep

def TypedefHead.view (keep : String → Bool) (h : TypedefHead) : TypedefHead where
  totalSize := h.totalSize.map Value.sortKeys
  description := none
  props := h.props.view keep

def TypedefDecl.view (keep : String → Bool) : TypedefDecl → TypedefDecl :=
  Declared.map (ElementDecl.view keep) (TypedefHead.view keep)

def BitDecl.view (keep : String → Bool) (d : BitDecl) : BitDecl where
  name := d.name
  bits := d.bits.map Value.sortKeys
  description := seen keep d.description
  props := d.props.view keep

def BitfieldHead.view (keep : String → Bool) (h : BitfieldHead) : BitfieldHead where
  type := h.type
  description := none
  props := h.props.view keep

def BitfieldDecl.view (keep : String → Bool) : BitfieldDecl → BitfieldDecl :=
  Declared.map (BitDecl.view keep) (BitfieldHead.view keep)

/-- Of the members of an enum only their values matter, as they have to be valid. -/
def OptionDecl.view (d : OptionDecl) : OptionDecl where
  name := d.name
  value := d.value.map Value.sortKeys
  description := none
  props := []

def EnumHead.view (keep : String → Bool) (h : EnumHead) : EnumHead where
  type := h.type
  bitwise := h.bitwise
  description := seen keep h.description
  props := h.props.view keep

def EnumDecl.view (keep : String → Bool) : EnumDecl → EnumDecl :=
  Declared.map OptionDecl.view (EnumHead.view keep)

namespace Reference

variable {μ μ' η η' : Type} (f : μ → μ') (g : η → η')

theorem chain_map (table : Entries (Declared μ η)) (steps : Nat) (visited : List String)
    (next : Option String) : chain (table.mapValues (Declared.map f g)) steps visited next =
      (chain table steps visited next).map (List.map (Declared.map f g)) := by
  induction steps generalizing visited next with
  | zero => cases next <;> rfl
  | succ steps ih =>
    cases next with
    | none => rfl
    | some target =>
      unfold chain
      split
      · rfl
      · rw [Entries.get?_mapValues]
        cases table.get? target with
        | none => rfl
        | some d =>
          change (chain _ steps _ d.reference).map _ = ((chain table steps _ d.reference).map _).map _
          rw [ih]
          cases chain table steps (target :: visited) d.reference <;> rfl

theorem expandEntry_map (table : Entries (Declared μ η)) (name : String) (d : Declared μ η) :
    expandEntry (table.mapValues (Declared.map f g)) name (d.map f g) =
      (expandEntry table name d).map (Declared.map f g) := by
  unfold expandEntry
  rw [show (d.map f g).reference = d.reference from rfl, chain_map, Entries.mapValues, List.length_map]
  cases chain table (table.length + 1) [name] d.reference with
  | error fault => rfl
  | ok ds => simp [Except.map, Declared.map, List.flatMap_map, List.map_flatMap, ← List.map_reverse]

theorem expandFrom_map (kind : Section) (table es : Entries (Declared μ η)) :
    expandFrom kind (table.mapValues (Declared.map f g)) (es.mapValues (Declared.map f g)) =
      (expandFrom kind table es).map (Entries.mapValues · (Declared.map f g)) := by
  induction es with
  | nil => rfl
  | cons e rest ih =>
    obtain ⟨name, d⟩ := e
    rw [Entries.mapValues_cons, expandFrom, expandFrom, expandEntry_map]
    cases expandEntry table name d with
    | error fault => rfl
    | ok d =>
      dsimp only [Except.map]
      rw [ih]
      cases expandFrom kind table rest <;> rfl

theorem expand_map (kind : Section) (table : Entries (Declared μ η)) :
    expand kind (table.mapValues (Declared.map f g)) =
      (expand kind table).map (Entries.mapValues · (Declared.map f g)) :=
  expandFrom_map f g kind table table

end Reference

namespace Typedef

section Order

variable (isLeaf : String → Bool) (fallback : Primitive)

theorem firstMissing_view (known : List String) (d : TypedefDecl) :
    firstMissing isLeaf fallback known (d.view keep) = firstMissing isLeaf fallback known d := by
  simp only [firstMissing, elementTypes, TypedefDecl.view, Declared.map, List.map_map]
  rfl

theorem orderPass_view (keep : String → Bool) (known : List String) (table : Entries TypedefDecl) :
    orderPass isLeaf fallback known (table.mapValues (TypedefDecl.view keep)) =
      let p := orderPass isLeaf fallback known table
      { p with postponed := p.postponed.mapValues (TypedefDecl.view keep) } := by
  induction table generalizing known with
  | nil => rfl
  | cons e rest ih =>
    obtain ⟨name, d⟩ := e
    simp only [Entries.mapValues_cons, orderPass, firstMissing_view]
    cases firstMissing isLeaf fallback known d with
    | none => simp only [ih]
    | some type => simp only [ih, Entries.mapValues_cons]

theorem orderPasses_view (n : Nat) (known : List String) (pending : Entries TypedefDecl) :
    orderPasses isLeaf fallback n known (pending.mapValues (TypedefDecl.view keep)) =
      orderPasses isLeaf fallback n known pending := by
  induction n generalizing known pending with
  | zero =>
    cases pending with
    | nil => rfl
    | cons e rest =>
      unfold orderPasses
      simp [Entries.mapValues, Entries.keys]
  | succ n ih =>
    cases pending with
    | nil => rfl
    | cons e rest =>
      have step := orderPass_view isLeaf fallback keep known (e :: rest)
      rw [Entries.mapValues_cons] at step ⊢
      unfold orderPasses
      rw [step]
      dsimp only
      split
      · simp [Entries.mapValues, Entries.keys]
      · exact ih _ _

theorem order_view (keep : String → Bool) (table : Entries TypedefDecl) :
    order isLeaf fallback (table.mapValues (TypedefDecl.view keep)) = order isLeaf fallback table := by
  unfold order
  rw [show (table.mapValues (TypedefDecl.view keep)).length = table.length from List.length_map _]
  exact orderPasses_view isLeaf fallback _ _ _

end Order

end Typedef

end AddressMap
