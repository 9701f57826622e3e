import AddressMap.Error

set_option autoImplicit false

/-!
Defines are named constants. They are evaluated in passes over their names in ascending order; a pass
sees what it has evaluated itself, and what does not evaluate yet is put off to the next pass. A pass
that gets nowhere leaves a missing name or a circle. A text in double quotes is kept with its quotes.
-/

namespace AddressMap

structure Define where
  value : Value
  resolved : Scalar
  description : Option String
  props : Props

structure PendingDefine where
  value : Value
  description : Option String
  props : Props

namespace Define

def toProps (d : Define) : Props :=
  Entries.merge (
    [("value", d.value), ("resolved_value", d.resolved.toValue)] ++
    Entries.ofOption "description" (d.description.map .string)) d.props

/-- A define is a bare value or a mapping with a key for it. -/
def pending (name : String) (entry : Value) : Except Error PendingDefine :=
  match entry with
  | .object es =>
    match Entries.get? es "value" with
    | none => .error (.invalidDefinition .define name .noValue)
    | some value =>
      let rest := Entries.swapErase es "value"
      let description := match rest.get? "description" with
        | some (.string s) => some s
        | some other => some other.compact
        | none => none
      .ok ⟨value, description, rest.swapErase "description"⟩
  | value => .ok ⟨value, none, []⟩

def isQuoted (s : String) : Bool := 2 ≤ s.length && s.front == '"' && s.back == '"'

def evaluate (env : Env) (name : String) (value : Value) : Except Error Scalar :=
  match value with
  | .string s =>
    if isQuoted s then .ok (.text s)
    else (AddressMap.evaluate s env).mapError (.evaluation s!"define {name}")
  | value =>
    match Scalar.ofValue? value with
    | some x => .ok x
    | none => .error (.invalidDefinition .define name .noScalar)

def mayResolve : Error → Bool
  | .evaluation _ source => source.isRetryable
  | _ => false

structure Pass where
  env : Env
  resolved : Entries PendingDefine
  postponed : Entries PendingDefine
  error : Option Error

/-- One pass. An error that cannot go away ends it; what was evaluated before stays known. -/
def pass (env : Env) : Entries PendingDefine → Pass
  | [] => ⟨env, [], [], none⟩
  | (name, d) :: rest =>
    match evaluate env name d.value with
    | .ok x =>
      let p := pass (env.insert name x) rest
      { p with resolved := (name, d) :: p.resolved }
    | .error e =>
      if mayResolve e then
        let p := pass env rest
        { p with postponed := (name, d) :: p.postponed }
      else ⟨env, [], (name, d) :: rest, some e⟩

structure Table where
  env : Env
  defines : Entries Define

def Table.addAll (t : Table) (resolved : Entries PendingDefine) : Table :=
  resolved.foldl (fun t e =>
    match t.env.get? e.1 with
    | some x => { t with defines := t.defines.insert e.1 ⟨e.2.value, x, e.2.description, e.2.props⟩ }
    | none => t) t

/-- Passes until nothing is pending. Each one leaves fewer pending defines, so their number bounds the
    passes. -/
def passes : Nat → Table → Entries PendingDefine → Outcome Table
  | _, t, [] => .done t
  | 0, t, pending => ⟨t, some (.unresolved (.defines pending.keys))⟩
  | n + 1, t, pending =>
    let p := pass t.env pending
    let t := { t with env := p.env }
    match p.error with
    | some e => ⟨t, some e⟩
    | none =>
      if p.resolved.isEmpty then ⟨t, some (.unresolved (.defines pending.keys))⟩
      else passes n (t.addAll p.resolved) p.postponed

def pendingAll : Props → Except Error (Entries PendingDefine)
  | [] => .ok []
  | (name, entry) :: rest =>
    match pending name entry with
    | .error e => .error e
    | .ok d => (pendingAll rest).map ((name, d) :: ·)

def resolve (t : Table) (entries : Props) : Outcome Table :=
  match pendingAll entries with
  | .error e => ⟨t, some e⟩
  | .ok pending => passes pending.length t pending.sortByKey

end Define

end AddressMap
