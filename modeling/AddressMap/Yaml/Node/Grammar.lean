import AddressMap.Entries
import AddressMap.Yaml.Node
import AddressMap.Yaml.Token

set_option autoImplicit false

namespace AddressMap.Yaml

/-- Tokens that are left, slots of the anchors so far, and what the tag handles stand for. -/
structure Reading where
  tokens : List Token
  anchors : Entries Nat
  handles : Entries String

abbrev Production (α : Type) := StateT Reading Option α

namespace Production

def fail {α : Type} : Production α := fun _ => none

def peek : Production (Option Token) := fun r => some (r.tokens.head?, r)

def pass : Production Unit := fun r => some ((), { r with tokens := r.tokens.drop 1 })

def slotOf (name : String) : Production Nat := fun r =>
  some (r.anchors.length, { r with anchors := r.anchors.set name r.anchors.length })

def reference (name : String) : Production Node := fun r => (r.anchors.get? name).map fun slot => (.reference slot, r)

def tagOf (name : TagName) : Production String := fun r =>
  if name.handle.isEmpty then some (name.suffix, r)
  else (r.handles.get? name.handle).map fun start => (start ++ name.suffix, r)

def anchorMark : Production (Option String) := do
  match ← peek with
  | some (.anchor name) =>
    pass
    return some name
  | _ => return none

def tagMark : Production (Option TagName) := do
  match ← peek with
  | some (.tag name) =>
    pass
    return some name
  | _ => return none

def marks : Production (Option String × Option String) := do
  let anchor ← anchorMark
  let tag ← tagMark
  let anchor ← if anchor.isSome then pure anchor else anchorMark
  let tag ← match tag with
    | some name => some <$> tagOf name
    | none => pure none
  return (anchor, tag)

def markedBy (anchor tag : Option String) : Production Marks := do
  match anchor with
  | some name => return ⟨tag, some (← slotOf name)⟩
  | none => return ⟨tag, none⟩

/-- A lone mark says that a text is no more than that. -/
def scalarTag (tag : Option String) : Option String := if tag == some "!" then none else tag

def endsEntry : Option Token → Bool
  | some .blockEntry | some .blockEnd => true
  | _ => false

def endsKey : Option Token → Bool
  | some .key | some .value | some .blockEnd => true
  | _ => false

def endsListUnderKey (t : Option Token) : Bool := endsKey t || endsEntry t

def endsFlowItem : Option Token → Bool
  | some .flowEntry | some .flowSequenceEnd => true
  | _ => false

def endsFlowValue : Option Token → Bool
  | some .flowEntry | some .flowMappingEnd => true
  | _ => false

def isValue : Option Token → Bool
  | some .value => true
  | _ => false

mutual

/-- Blocks can start only outside brackets; a list that is not indented only under a key. -/
def node (block underKey : Bool) : Nat → Production Node
  | 0 => fail
  | fuel + 1 => do
    match ← peek with
    | some (.reference name) =>
      pass
      reference name
    | _ =>
      let (anchor, tag) ← marks
      match ← peek with
      | some (.scalar isPlain text) =>
        pass
        let marks ← markedBy anchor (scalarTag tag)
        return .scalar marks isPlain text
      | some .flowSequenceStart =>
        pass
        let marks ← markedBy anchor tag
        return .sequence marks (← flowItems true fuel)
      | some .flowMappingStart =>
        pass
        let marks ← markedBy anchor tag
        return .mapping marks (← flowEntries true fuel)
      | some .blockEntry =>
        if underKey then
          let marks ← markedBy anchor tag
          return .sequence marks (← listUnderKey fuel)
        else unwritten anchor tag
      | some .blockSequenceStart =>
        if block then
          pass
          let marks ← markedBy anchor tag
          return .sequence marks (← blockItems fuel)
        else unwritten anchor tag
      | some .blockMappingStart =>
        if block then
          pass
          let marks ← markedBy anchor tag
          return .mapping marks (← blockEntries fuel)
        else unwritten anchor tag
      | _ => unwritten anchor tag

def unwritten (anchor tag : Option String) : Production Node := do
  if anchor.isNone && tag.isNone then fail
  else return .scalar (← markedBy anchor tag) true ""

def blockItems : Nat → Production (List Node)
  | 0 => fail
  | fuel + 1 => do
    match ← peek with
    | some .blockEntry =>
      pass
      let item ← if endsEntry (← peek) then pure .absent else node true false fuel
      return item :: (← blockItems fuel)
    | some .blockEnd =>
      pass
      return []
    | _ => fail

def listUnderKey : Nat → Production (List Node)
  | 0 => fail
  | fuel + 1 => do
    match ← peek with
    | some .blockEntry =>
      pass
      let item ← if endsListUnderKey (← peek) then pure .absent else node true false fuel
      return item :: (← listUnderKey fuel)
    | _ => return []

def blockEntries : Nat → Production (List (Node × Node))
  | 0 => fail
  | fuel + 1 => do
    match ← peek with
    | some .key =>
      pass
      let key ← if endsKey (← peek) then pure .absent else node true true fuel
      let value ← blockValue fuel
      return (key, value) :: (← blockEntries fuel)
    | some .blockEnd =>
      pass
      return []
    | _ => fail

def blockValue : Nat → Production Node
  | 0 => fail
  | fuel + 1 => do
    if isValue (← peek) then
      pass
      if endsKey (← peek) then return .absent else node true true fuel
    else return .absent

def separator (first : Bool) : Production Unit := do
  if first then return ()
  else
    match ← peek with
    | some .flowEntry => pass
    | _ => fail

def flowItems (first : Bool) : Nat → Production (List Node)
  | 0 => fail
  | fuel + 1 => do
    if (← peek) matches some .flowSequenceEnd then
      pass
      return []
    else
      separator first
      match ← peek with
      | some .flowSequenceEnd =>
        pass
        return []
      | some .key =>
        pass
        let item ← singlePair fuel
        return item :: (← flowItems false fuel)
      | _ =>
        let item ← node false false fuel
        return item :: (← flowItems false fuel)

def singlePair : Nat → Production Node
  | 0 => fail
  | fuel + 1 => do
    let next ← peek
    let key ←
      if isValue next || endsFlowItem next then do
        pass
        pure .absent
      else node false false fuel
    let value ←
      if isValue (← peek) then do
        pass
        if endsFlowItem (← peek) then pure .absent else node false false fuel
      else pure .absent
    return .mapping .none [(key, value)]

def flowEntries (first : Bool) : Nat → Production (List (Node × Node))
  | 0 => fail
  | fuel + 1 => do
    if (← peek) matches some .flowMappingEnd then
      pass
      return []
    else
      separator first
      match ← peek with
      | some .flowMappingEnd =>
        pass
        return []
      | some .key =>
        pass
        let next ← peek
        let key ← if isValue next || endsFlowValue next then pure .absent else node false false fuel
        let value ←
          if isValue (← peek) then do
            pass
            if endsFlowValue (← peek) then pure .absent else node false false fuel
          else pure .absent
        return (key, value) :: (← flowEntries false fuel)
      | _ =>
        let key ← node false false fuel
        return (key, .absent) :: (← flowEntries false fuel)

end

/-- What the handles stand for that no directive declares. -/
def defaultHandles : Entries String := [("!", "!"), ("!!", "tag:yaml.org,2002:")]

def directives (versioned : Bool) (declared : Entries String) : List Token → Option (Entries String × List Token)
  | .version major minor :: rest =>
    if versioned || major != 1 || (minor != 1 && minor != 2) then none
    else directives true declared rest
  | .handle name tag :: rest =>
    if declared.has name then none else directives versioned (declared.set name tag) rest
  | rest => some (declared, rest)

def startsExplicitly : List Token → Bool
  | .version .. :: _ => true
  | .handle .. :: _ => true
  | .documentStart :: _ => true
  | _ => false

def isDocumentLimit : Option Token → Bool
  | none | some (.version ..) | some (.handle ..) | some .documentStart | some .documentEnd => true
  | _ => false

def opening? (tokens : List Token) : Option Reading :=
  if startsExplicitly tokens then
    match directives false [] tokens with
    | some (declared, .documentStart :: rest) => some ⟨rest, [], Entries.merge defaultHandles declared⟩
    | _ => none
  else some ⟨tokens, [], defaultHandles⟩

end Production

/-- The root of the only document. Tokens that are none at all have an absent root. -/
def Node.ofTokens? (tokens : List Token) : Option Node :=
  if tokens.isEmpty then some .absent
  else do
    let r ← Production.opening? tokens
    let root : Production Node :=
      if Production.startsExplicitly tokens && Production.isDocumentLimit r.tokens.head? then pure .absent
      else Production.node true false (4 * tokens.length + 4)
    let (node, r) ← root.run r
    let rest := r.tokens.dropWhile fun t => t matches .documentEnd
    if rest.isEmpty then some node else none

end AddressMap.Yaml
