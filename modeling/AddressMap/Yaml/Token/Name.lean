import AddressMap.Yaml.Cursor
import AddressMap.Yaml.Token
import AddressMap.Yaml.Token.Line

set_option autoImplicit false

namespace AddressMap.Yaml

def endsAnchor (c : Option Char) : Bool := isBlankOrEnd c || c.any fun d => "?:,]\x7d%@\x60".toList.contains d

def anchorName? (c : Cursor) : Option (String × Cursor) :=
  let (name, c) := c.span isNameChar
  if name.isEmpty || !endsAnchor c.head? then none else some (String.ofList name, c)

def isTagChar (verbatim : Bool) (c : Char) : Bool :=
  isNameChar c || ";/?:@&=+$.%!~*'()".toList.contains c || (verbatim && ",[]".toList.contains c)

def octet? : List Char → Option Nat
  | '%' :: a :: b :: _ => hexValue? [a, b]
  | _ => none

def sequenceLength? (byte : Nat) : Option Nat :=
  if byte < 0x80 then some 1
  else if 0xC0 ≤ byte && byte < 0xE0 then some 2
  else if 0xE0 ≤ byte && byte < 0xF0 then some 3
  else if 0xF0 ≤ byte && byte < 0xF8 then some 4
  else none

def trailing? (count : Nat) (cs : List Char) : Option (List Char) :=
  match count with
  | 0 => some []
  | n + 1 => do
    let byte ← octet? cs
    if 0x80 ≤ byte && byte < 0xC0 then (trailing? n (cs.drop 3)).map (Char.ofNat byte :: ·) else none

def escapedBytes? (cs : List Char) : Option (List Char) := do
  let byte ← octet? cs
  let length ← sequenceLength? byte
  (trailing? (length - 1) (cs.drop 3)).map (Char.ofNat byte :: ·)

def tagCharsFrom (verbatim : Bool) : Nat → Cursor → Option (List Char × Cursor)
  | 0, _ => none
  | fuel + 1, c =>
    match c.rest with
    | [] => some ([], c)
    | a :: _ =>
      if !isTagChar verbatim a then some ([], c)
      else if a == '%' then do
        let bytes ← escapedBytes? c.rest
        let r ← tagCharsFrom verbatim fuel (c.advance (3 * bytes.length))
        some (bytes ++ r.1, r.2)
      else (tagCharsFrom verbatim fuel c.step).map fun r => (a :: r.1, r.2)

def tagChars? (verbatim : Bool) (c : Cursor) : Option (List Char × Cursor) :=
  tagCharsFrom verbatim (c.rest.length + 1) c

def nonempty? (r : List Char × Cursor) : Option (List Char × Cursor) := if r.1.isEmpty then none else some r

def tagHandle? (c : Cursor) : Option (List Char × Cursor) := do
  let c ← c.accept? (· == '!')
  let (name, c) := c.span isNameChar
  if c.starts '!' then some ('!' :: name ++ ['!'], c.step) else some ('!' :: name, c)

def isFullHandle (handle : List Char) : Bool := 1 < handle.length && handle.getLast? == some '!'

/-- A tag in angle brackets, behind a handle, or behind a lone mark, which alone is a tag of its own. -/
def tagName? (c : Cursor) : Option (TagName × Cursor) :=
  match c.rest with
  | '!' :: '<' :: _ => do
    let (suffix, c) ← (tagChars? true (c.advance 2)).bind nonempty?
    let c ← c.accept? (· == '>')
    some (⟨"", String.ofList suffix⟩, c)
  | _ => do
    let (handle, c) ← tagHandle? c
    if isFullHandle handle then
      let (suffix, c) ← (tagChars? false c).bind nonempty?
      some (⟨String.ofList handle, String.ofList suffix⟩, c)
    else
      let (suffix, c) ← tagChars? false c
      let suffix := handle.drop 1 ++ suffix
      some (if suffix.isEmpty then ⟨"", "!"⟩ else ⟨"!", String.ofList suffix⟩, c)

def tag? (inFlow : Bool) (c : Cursor) : Option (TagName × Cursor) := do
  let (name, c) ← tagName? c
  if isBlankOrEnd c.head? || (inFlow && c.starts ',') then some (name, c) else none

def versionNumber? (c : Cursor) : Option (Nat × Cursor) :=
  let (digits, c) := c.span Char.isDigit
  if digits.isEmpty || 9 < digits.length then none
  else some (digits.foldl (fun n d => 10 * n + (d.toNat - '0'.toNat)) 0, c)

def versionDirective? (c : Cursor) : Option (Token × Cursor) := do
  let (major, c) ← versionNumber? (c.skip isBlank)
  let c ← c.accept? (· == '.')
  let (minor, c) ← versionNumber? c
  some (.version major minor, c)

def handleDirective? (c : Cursor) : Option (Token × Cursor) := do
  let (handle, c) ← tagHandle? (c.skip isBlank)
  if handle != ['!'] && !isFullHandle handle then none
  let c ← c.accept? isBlank
  let (tag, c) ← (tagChars? true (c.skip isBlank)).bind nonempty?
  if isBlankOrEnd c.head? then some (.handle (String.ofList handle) (String.ofList tag), c) else none

def directive? (c : Cursor) : Option (Token × Cursor) := do
  let (name, c) := c.span isNameChar
  if !isBlankOrEnd c.head? then none
  let (token, c) ←
    if name == "YAML".toList then versionDirective? c
    else if name == "TAG".toList then handleDirective? c
    else none
  let c ← c.endOfLine?
  some (token, c)

end AddressMap.Yaml
