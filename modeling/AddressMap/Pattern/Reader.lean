import AddressMap.Expr.Token
import AddressMap.Pattern
import AddressMap.Text.Case

set_option autoImplicit false

namespace AddressMap.Pattern

structure Flags where
  anyCase : Bool := false
  multiline : Bool := false
  dotAll : Bool := false
  /-- Blanks and comments in the pattern do not count. -/
  spaced : Bool := false
  /-- Classes go beyond ASCII. -/
  unicode : Bool := true
  crlf : Bool := false

structure State where
  flags : Flags := {}
  groups : List String := []

def caseVariants (c : Char) : List Char :=
  let single : List Char → Char
    | [d] => d
    | _ => c
  let u := single (Text.upperChar c)
  let l := single (Text.lowerChar c)
  [c, u, l, single (Text.lowerChar u), single (Text.upperChar l)]

def anyCase (f : Flags) (test : Char → Bool) (c : Char) : Bool :=
  if f.anyCase then (caseVariants c).any test else test c

def literal (f : Flags) (c : Char) : Char → Bool := anyCase f (· == c)

def isPunctuation (c : Char) : Bool := 33 ≤ c.toNat && c.toNat ≤ 126 && !c.isAlphanum

def isWordChar (f : Flags) (c : Char) : Bool :=
  if f.unicode then Text.isWord c else c.isAlphanum || c == '_'

def isDigitChar (f : Flags) (c : Char) : Bool := if f.unicode then Text.isDecimalDigit c else c.isDigit

def isSpaceChar (f : Flags) (c : Char) : Bool :=
  if f.unicode then Text.isBlank c else Text.isBlank c && c.toNat < 128

/-- Classes named by one letter; a capital letter names the complement. -/
def letterClass? (f : Flags) : Char → Option (Char → Bool)
  | 'd' => some (isDigitChar f)
  | 'D' => some fun c => !isDigitChar f c
  | 'w' => some (isWordChar f)
  | 'W' => some fun c => !isWordChar f c
  | 's' => some (isSpaceChar f)
  | 'S' => some fun c => !isSpaceChar f c
  | _ => none

def isUpperCase (c : Char) : Bool := Text.isAlphabetic c && Text.lowerChar c != [c]

def isLowerCase (c : Char) : Bool := Text.isAlphabetic c && Text.upperChar c != [c]

/-- The common Unicode classes by name. Scripts and the finer categories are not among them, and are refused. -/
def property? (name : String) : Option (Char → Bool) :=
  let key := name.toList.filter fun c => c != '_' && c != ' ' && c != '-'
  match String.ofList (key.map Char.toLower) with
  | "l" | "letter" | "alphabetic" | "alpha" => some Text.isAlphabetic
  | "lu" | "uppercaseletter" | "uppercase" | "upper" => some isUpperCase
  | "ll" | "lowercaseletter" | "lowercase" | "lower" => some isLowerCase
  | "n" | "number" => some fun c => Text.isAlphanumeric c && !Text.isAlphabetic c
  | "nd" | "decimalnumber" | "digit" => some Text.isDecimalDigit
  | "whitespace" | "wspace" | "space" => some Text.isBlank
  | "ascii" => some fun c => c.toNat < 128
  | "any" => some fun _ => true
  | "p" | "punctuation" | "punct" => some fun c => isPunctuation c && !"$+<=>^\x60|~".toList.contains c
  | _ => none

def asciiClass? : String → Option (Char → Bool)
  | "alnum" => some Char.isAlphanum
  | "alpha" => some Char.isAlpha
  | "ascii" => some fun c => c.toNat < 128
  | "blank" => some fun c => c == ' ' || c == '\t'
  | "cntrl" => some fun c => c.toNat < 32 || c.toNat == 127
  | "digit" => some Char.isDigit
  | "graph" => some fun c => 33 ≤ c.toNat && c.toNat ≤ 126
  | "lower" => some Char.isLower
  | "print" => some fun c => 32 ≤ c.toNat && c.toNat ≤ 126
  | "punct" => some isPunctuation
  | "space" => some fun c => Text.isBlank c && c.toNat < 128
  | "upper" => some Char.isUpper
  | "word" => some fun c => c.isAlphanum || c == '_'
  | "xdigit" => some fun c => c.isDigit || ('a' ≤ c.toLower && c.toLower ≤ 'f')
  | _ => none

def hexChar? (digits : List Char) : Option Char :=
  match Expr.integer? 16 (digits.map Char.toLower) with
  | some i => if i.toNat.isValidChar then some (Char.ofNat i.toNat) else none
  | none => none

def codePoint? (size : Nat) : List Char → Option (Char × List Char)
  | '\x7b' :: rest =>
    let digits := rest.takeWhile (· != '\x7d')
    match rest.drop digits.length with
    | _ :: after => (hexChar? digits).map fun c => (c, after)
    | [] => none
  | cs =>
    if cs.length < size then none else (hexChar? (cs.take size)).map fun c => (c, cs.drop size)

inductive Escape where
  | char (c : Char)
  | set (test : Char → Bool)
  | place (test : Option Char → Option Char → Bool)

def isWordAt (f : Flags) (c : Option Char) : Bool := c.any (isWordChar f)

def boundary? (f : Flags) (name : String) : Option (Option Char → Option Char → Bool) :=
  match name with
  | "start" => some fun a b => !isWordAt f a && isWordAt f b
  | "end" => some fun a b => isWordAt f a && !isWordAt f b
  | "start-half" => some fun a _ => !isWordAt f a
  | "end-half" => some fun _ b => !isWordAt f b
  | _ => none

def escape? (f : Flags) : List Char → Option (Escape × List Char)
  | [] => none
  | 'x' :: rest => (codePoint? 2 rest).map fun r => (.char r.1, r.2)
  | 'u' :: rest => (codePoint? 4 rest).map fun r => (.char r.1, r.2)
  | 'U' :: rest => (codePoint? 8 rest).map fun r => (.char r.1, r.2)
  | 'a' :: rest => some (.char '\x07', rest)
  | 'f' :: rest => some (.char '\x0c', rest)
  | 't' :: rest => some (.char '\t', rest)
  | 'n' :: rest => some (.char '\n', rest)
  | 'r' :: rest => some (.char '\r', rest)
  | 'v' :: rest => some (.char '\x0b', rest)
  | 'A' :: rest => some (.place fun a _ => a.isNone, rest)
  | 'z' :: rest => some (.place fun _ b => b.isNone, rest)
  | 'B' :: rest => some (.place fun a b => isWordAt f a == isWordAt f b, rest)
  | '<' :: rest => some (.place fun a b => !isWordAt f a && isWordAt f b, rest)
  | '>' :: rest => some (.place fun a b => isWordAt f a && !isWordAt f b, rest)
  | 'b' :: rest =>
    let plain : Escape := .place fun a b => isWordAt f a != isWordAt f b
    match rest with
    | '\x7b' :: more =>
      let name := more.takeWhile fun c => c.isAlpha || c == '-'
      match more.drop name.length with
      | '\x7d' :: after =>
        match boundary? f (String.ofList name) with
        | some test => some (.place test, after)
        | none => if name.isEmpty then some (plain, rest) else none
      | _ => some (plain, rest)
    | _ => some (plain, rest)
  | c :: rest =>
    if c == 'p' || c == 'P' then
      let (name, after) : String × List Char := match rest with
        | '\x7b' :: more =>
          let name := more.takeWhile (· != '\x7d')
          (String.ofList name, more.drop (name.length + 1))
        | more => (String.ofList (more.take 1), more.drop 1)
      let (negated, name) : Bool × String := match name.toList with
        | '^' :: more => (true, String.ofList more)
        | _ => (false, name)
      (property? name).map fun test => (.set fun x => anyCase f test x != ((c == 'P') != negated), after)
    else match letterClass? f c with
      | some test => some (.set test, rest)
      | none => if c.toNat < 128 && !c.isAlphanum then some (.char c, rest) else none

def skipSpaced (f : Flags) : List Char → List Char
  | [] => []
  | cs@(c :: rest) =>
    if !f.spaced then cs
    else if Text.isBlank c then skipSpaced f rest
    else if c == '#' then skipComment rest
    else cs
where
  skipComment : List Char → List Char
    | [] => []
    | c :: rest => if c == '\n' then skipSpaced f rest else skipComment rest

/-- One member of a class: a character, which may start or end a range, or a set. -/
def classMember? (f : Flags) : List Char → Option (Escape × List Char)
  | '\\' :: rest =>
    match escape? f rest with
    | some (.place _, _) => none
    | r => r
  | c :: rest => some (.char c, rest)
  | [] => none

def classRange? (f : Flags) (cs : List Char) : Option ((Char → Bool) × List Char) :=
  match classMember? f cs with
  | none => none
  | some (first, rest) =>
    let single : Option ((Char → Bool) × List Char) := match first with
      | .char c => some (literal f c, rest)
      | .set test => some (test, rest)
      | .place _ => none
    match skipSpaced f rest with
    | '-' :: more =>
      match skipSpaced f more with
      | ']' :: _ => single
      | '-' :: _ => single
      | more =>
        match first, classMember? f more with
        | .char a, some (.char b, after) =>
          if a ≤ b then some (anyCase f fun c => a ≤ c && c ≤ b, after) else none
        | _, _ => none
    | _ => single

def namedClass? (f : Flags) : List Char → Option ((Char → Bool) × List Char)
  | '[' :: ':' :: rest =>
    let (negated, rest) : Bool × List Char := match rest with
      | '^' :: more => (true, more)
      | more => (false, more)
    let name := rest.takeWhile Char.isAlpha
    match rest.drop name.length with
    | ':' :: ']' :: after =>
      (asciiClass? (String.ofList name)).map fun test =>
        (fun c => anyCase f test c != negated, after)
    | _ => none
  | _ => none

abbrev Joined := (Char → Bool) → (Char → Bool)

mutual

def readClass (depth : Nat) (f : Flags) (cs : List Char) : Option ((Char → Bool) × List Char) :=
  match depth with
  | 0 => none
  | depth + 1 =>
    let (negated, rest) : Bool × List Char := match skipSpaced f cs with
      | '^' :: more => (true, skipSpaced f more)
      | more => (false, more)
    let dashes := rest.takeWhile (· == '-')
    let rest := skipSpaced f (rest.drop dashes.length)
    let start : Char → Bool := if dashes.isEmpty then fun _ => false else fun c => c == '-'
    let (start, rest) : (Char → Bool) × List Char := match rest with
      | ']' :: more => if dashes.isEmpty then (fun c => c == ']', more) else (start, rest)
      | _ => (start, rest)
    (readMembers depth f id start rest).map fun r => (fun c => r.1 c != negated, r.2)

/-- Further members of a class, of which `acc` has been read since the last operator. -/
def readMembers (depth : Nat) (f : Flags) (join : Joined) (acc : Char → Bool) (cs : List Char) :
    Option ((Char → Bool) × List Char) :=
  match depth with
  | 0 => none
  | depth + 1 =>
    match skipSpaced f cs with
    | [] => none
    | ']' :: rest => some (join acc, rest)
    | '&' :: '&' :: rest =>
      let left := join acc
      readMembers depth f (fun right c => left c && right c) (fun _ => false) rest
    | '-' :: '-' :: rest =>
      let left := join acc
      readMembers depth f (fun right c => left c && !right c) (fun _ => false) rest
    | '~' :: '~' :: rest =>
      let left := join acc
      readMembers depth f (fun right c => left c != right c) (fun _ => false) rest
    | '[' :: rest =>
      match namedClass? f ('[' :: rest) with
      | some (test, after) => readMembers depth f join (fun c => acc c || test c) after
      | none =>
        match readClass depth f rest with
        | none => none
        | some (test, after) => readMembers depth f join (fun c => acc c || test c) after
    | rest =>
      match classRange? f rest with
      | none => none
      | some (test, after) => readMembers depth f join (fun c => acc c || test c) after

end

def setFlag? (f : Flags) (on : Bool) : Char → Option Flags
  | 'i' => some { f with anyCase := on }
  | 'm' => some { f with multiline := on }
  | 's' => some { f with dotAll := on }
  | 'x' => some { f with spaced := on }
  | 'u' => some { f with unicode := on }
  | 'R' => some { f with crlf := on }
  | 'U' => some f
  | _ => none

def readFlags (f : Flags) (on : Bool) (seen : List Char) (last : Option Char) :
    List Char → Option (Flags × Char × List Char)
  | [] => none
  | c :: rest =>
    if c == ':' || c == ')' then
      if last == some '-' then none else some (f, c, rest)
    else if c == '-' then if on then readFlags f false seen (some '-') rest else none
    else if seen.contains c then none
    else match setFlag? f on c with
      | some f => readFlags f on (c :: seen) (some c) rest
      | none => none

def groupName? (cs : List Char) : Option (String × List Char) :=
  let name := cs.takeWhile fun c =>
    Text.isAlphanumeric c || c == '_' || c == '.' || c == '[' || c == ']'
  match name, cs.drop name.length with
  | c :: _, '>' :: rest =>
    if Text.isAlphabetic c || c == '_' then some (String.ofList name, rest) else none
  | _, _ => none

def number? (cs : List Char) : Option (Nat × List Char) :=
  let cs := cs.dropWhile Text.isBlank
  let digits := cs.takeWhile Char.isDigit
  let n := Decimal.digitsValue digits
  if digits.isEmpty || 0x100000000 ≤ n then none
  else some (n, (cs.drop digits.length).dropWhile Text.isBlank)

def bounds? (f : Flags) (cs : List Char) : Option (Nat × Option Nat × List Char) :=
  match number? (skipSpaced f cs) with
  | none => none
  | some (least, rest) =>
    match skipSpaced f rest with
    | '\x7d' :: after => some (least, some least, after)
    | ',' :: rest =>
      match skipSpaced f rest with
      | '\x7d' :: after => some (least, none, after)
      | rest =>
        match number? rest with
        | some (most, rest) =>
          match skipSpaced f rest with
          | '\x7d' :: after => if least ≤ most then some (least, some most, after) else none
          | _ => none
        | none => none
    | _ => none

def dropLazy (f : Flags) (cs : List Char) : List Char :=
  match skipSpaced f cs with
  | '?' :: rest => rest
  | rest => rest

/-- A bound on the size of counted repetitions. -/
def repeatLimit : Nat := 100000

def readRepeats (f : Flags) : (steps : Nat) → Pattern → List Char → Option (Pattern × List Char)
  | 0, p, cs => some (p, cs)
  | steps + 1, p, cs =>
    match skipSpaced f cs with
    | '*' :: rest => readRepeats f steps (.repeated 0 none p) (dropLazy f rest)
    | '+' :: rest => readRepeats f steps (.repeated 1 none p) (dropLazy f rest)
    | '?' :: rest => readRepeats f steps (.repeated 0 (some 1) p) (dropLazy f rest)
    | '\x7b' :: rest =>
      match bounds? f rest with
      | some (least, most, after) =>
        if repeatLimit < most.getD least then none
        else readRepeats f steps (.repeated least most p) (dropLazy f after)
      | none => none
    | rest => some (p, rest)

def isLineEnd (f : Flags) (c : Char) : Bool := c == '\n' || (f.crlf && c == '\r')

def dot (f : Flags) : Pattern := .one fun c => f.dotAll || !isLineEnd f c

/-- Whether the place is inside a line end of two characters. -/
def insideLineEnd (f : Flags) (before after : Option Char) : Bool :=
  f.crlf && before == some '\r' && after == some '\n'

def lineStart (f : Flags) : Pattern :=
  .between fun a b => match a with
    | none => true
    | some c => f.multiline && isLineEnd f c && !insideLineEnd f a b

def lineStop (f : Flags) : Pattern :=
  .between fun a b => match b with
    | none => true
    | some c => f.multiline && isLineEnd f c && !insideLineEnd f a b

def readAtom (f : Flags) (steps : Nat) : List Char → Option (Pattern × List Char)
  | '.' :: rest => some (dot f, rest)
  | '^' :: rest => some (lineStart f, rest)
  | '$' :: rest => some (lineStop f, rest)
  | '[' :: rest => (readClass steps f rest).map fun r => (.one r.1, r.2)
  | '\\' :: rest =>
    match escape? f rest with
    | some (.char c, rest) => some (.one (literal f c), rest)
    | some (.set test, rest) => some (.one test, rest)
    | some (.place test, rest) => some (.between test, rest)
    | none => none
  | c :: rest =>
    if c == '*' || c == '+' || c == '?' || c == '\x7b' then none else some (.one (literal f c), rest)
  | [] => none

mutual

def readAlternatives (depth : Nat) (st : State) (cs : List Char) :
    Option (Pattern × State × List Char) :=
  match depth with
  | 0 => none
  | depth + 1 =>
    match readSequence depth st .empty cs with
    | some (p, st, '|' :: rest) =>
      (readAlternatives depth st rest).map fun r => (.alt p r.1, r.2)
    | r => r

def readSequence (depth : Nat) (st : State) (acc : Pattern) (cs : List Char) :
    Option (Pattern × State × List Char) :=
  match depth with
  | 0 => none
  | depth + 1 =>
    match skipSpaced st.flags cs with
    | [] => some (acc, st, [])
    | '|' :: rest => some (acc, st, '|' :: rest)
    | ')' :: rest => some (acc, st, ')' :: rest)
    | '(' :: '?' :: rest =>
      let named : Option (Option String × List Char) := match rest with
        | 'P' :: '<' :: more => (groupName? more).map fun r => (some r.1, r.2)
        | '<' :: more => (groupName? more).map fun r => (some r.1, r.2)
        | _ => some (none, rest)
      match named with
      | none => none
      | some (some name, more) =>
        if st.groups.contains name then none
        else readGroup depth { st with groups := name :: st.groups } st.flags acc more
      | some (none, _) =>
        match rest with
        | ')' :: _ => none
        | _ =>
          match readFlags st.flags true [] none rest with
          | none => none
          | some (f, ')', more) =>
            match skipSpaced f more with
            | '*' :: _ => none
            | '+' :: _ => none
            | '?' :: _ => none
            | '\x7b' :: _ => none
            | more => readSequence depth { st with flags := f } acc more
          | some (f, _, more) => readGroup depth { st with flags := f } st.flags acc more
    | '(' :: rest => readGroup depth st st.flags acc rest
    | rest =>
      match readAtom st.flags depth rest with
      | none => none
      | some (p, rest) =>
        match readRepeats st.flags depth p rest with
        | none => none
        | some (p, rest) => readSequence depth st (.seq acc p) rest

def readGroup (depth : Nat) (st : State) (outer : Flags) (acc : Pattern) (cs : List Char) :
    Option (Pattern × State × List Char) :=
  match depth with
  | 0 => none
  | depth + 1 =>
    match readAlternatives depth st cs with
    | some (p, st, ')' :: rest) =>
      match readRepeats outer depth p rest with
      | none => none
      | some (p, rest) => readSequence depth { st with flags := outer } (.seq acc p) rest
    | _ => none

end

def ofText? (text : String) : Option Pattern :=
  let cs := text.toList
  match readAlternatives (4 * cs.length + 8) {} cs with
  | some (p, _, []) => some p
  | _ => none

def read (text : String) : Option (String → Bool) := (ofText? text).map matches?

end AddressMap.Pattern
