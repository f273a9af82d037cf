import Exploration.Text.Numeral
import Exploration.Yaml.Glyph

/-!
# Tags, anchors and directives

What may stand before a node: a tag that says what it is, and an anchor that gives it a name. A
directive before a document says what the handles of its tags stand for.
-/

namespace Exploration.Yaml

/-- A tag or the beginning of one: octets, since escapes can spell any of them. -/
abbrev Octets := List UInt8

/-- A text of ASCII characters as octets. -/
def octets (s : String) : Octets := s.toList.map (·.toNat.toUInt8)

/-- A tag as it is written. Its handle stands for the beginning of the tag; the empty one stands
for nothing. -/
structure ShortTag where
  handle : String
  rest : Octets

inductive Directive where
  | version (major minor : Nat)
  /-- What a handle stands for. -/
  | handle (name : String) (start : Octets)

/-! ## Octets -/

/-- The characters that may stand in a tag by themselves. -/
def isTagChar (verbatim : Bool) (c : Char) : Bool :=
  isNameChar c || ";/?:@&=+$.!~*'()".toList.contains c ||
    (verbatim && (c = ',' || c = '[' || c = ']'))

/-- How many octets follow the first one of a character. -/
def followers? (first : Nat) : Option Nat :=
  if first < 0x80 then some 0
  else if first < 0xC0 then none
  else if first < 0xE0 then some 1
  else if first < 0xF0 then some 2
  else if first < 0xF8 then some 3
  else none

/-- How many octets the character still lacks after this one, given how many it lacks before. -/
def lacking? (lacking octet : Nat) : Option Nat :=
  if lacking = 0 then followers? octet
  else if 0x80 ≤ octet && octet < 0xC0 then some (lacking - 1)
  else none

/-- The octets of the characters and escapes that come next, and what follows them. The octets of
one character are all escaped if the first one is. -/
def readOctets (verbatim : Bool) (lacking : Nat) : List Glyph → Option (Octets × List Glyph)
  | [] => if lacking = 0 then some ([], []) else none
  | ⟨_, '%'⟩ :: a :: b :: rest => do
    let n ← Numeral.read? 16 [a.char, b.char]
    let lacking ← lacking? lacking n
    (readOctets verbatim lacking rest).map fun (os, rest) => (n.toUInt8 :: os, rest)
  | g :: rest =>
    if lacking ≠ 0 || g.char = '%' then none
    else if isTagChar verbatim g.char then
      (readOctets verbatim 0 rest).map fun (os, rest) => (g.char.toNat.toUInt8 :: os, rest)
    else some ([], g :: rest)

/-- At least one octet, of which those before a zero count. -/
def someOctets (verbatim : Bool) (gs : List Glyph) : Option (Octets × List Glyph) := do
  let (os, rest) ← readOctets verbatim 0 gs
  guard (os ≠ [])
  return (os.takeWhile (· ≠ 0), rest)

/-! ## Tags -/

/-- The letters of a name, and what follows them. -/
def readName (gs : List Glyph) : List Char × List Glyph :=
  ((gs.takeWhile (isNameChar ·.char)).map (·.char), gs.dropWhile (isNameChar ·.char))

/-- The handle between two exclamation marks, given what follows the first of them. -/
def closedHandle? (gs : List Glyph) : Option (String × List Glyph) :=
  match readName gs with
  | (name, ⟨_, '!'⟩ :: rest) => some (String.ofList ('!' :: name ++ ['!']), rest)
  | _ => none

/-- The tag after its exclamation mark: as a whole between angles, after a handle, or on its own,
when it belongs to the handle of one mark; a mark alone is a whole tag. -/
def tag? : List Glyph → Option (ShortTag × List Glyph)
  | ⟨_, '<'⟩ :: gs => do
    let (os, gs) ← someOctets true gs
    match gs with
    | ⟨_, '>'⟩ :: gs => some (⟨"", os⟩, gs)
    | _ => none
  | gs =>
    match closedHandle? gs with
    | some (handle, gs) => (someOctets false gs).map fun (os, gs) => (⟨handle, os⟩, gs)
    | none =>
      (readOctets false 0 gs).map fun (os, gs) =>
        match os.takeWhile (· ≠ 0) with
        | [] => (⟨"", octets "!"⟩, gs)
        | os => (⟨"!", os⟩, gs)

/-- Whether a tag may end here. -/
def endsTag (inBrackets : Bool) (gs : List Glyph) : Bool :=
  startsSpace gs || (inBrackets && gs.head?.any (·.char = ','))

/-! ## Anchors -/

/-- Whether the name of an anchor may end here. -/
def endsName (gs : List Glyph) : Bool :=
  startsSpace gs || gs.head?.any fun g => "?:,]\x7d%@\x60".toList.contains g.char

/-- The name of an anchor, and what follows it. -/
def anchor? (gs : List Glyph) : Option (String × List Glyph) :=
  let (name, rest) := readName gs
  if name ≠ [] && endsName rest then some (String.ofList name, rest) else none

/-! ## Directives -/

def skipBlanks (gs : List Glyph) : List Glyph := gs.dropWhile (isBlank ·.char)

/-- A number of at most nine digits. -/
def number? (gs : List Glyph) : Option (Nat × List Glyph) := do
  let ds := (gs.takeWhile (Decimal.isDigit ·.char)).map (·.char)
  guard (ds.length ≤ 9)
  let n ← Decimal.ofDigits? ds
  return (n, gs.drop ds.length)

def version? (gs : List Glyph) : Option (Directive × List Glyph) := do
  let (major, gs) ← number? gs
  match gs with
  | ⟨_, '.'⟩ :: gs => (number? gs).map fun (minor, gs) => (.version major minor, gs)
  | _ => none

/-- A handle, which may be a mark alone, and what it stands for. -/
def handle? : List Glyph → Option (Directive × List Glyph)
  | ⟨_, '!'⟩ :: gs => do
    let (name, gs) := (closedHandle? gs).getD ("!", gs)
    guard (gs.head?.any (isBlank ·.char))
    let (start, gs) ← someOctets true (skipBlanks gs)
    guard (startsSpace gs)
    return (.handle name start, gs)
  | _ => none

/-- The directive after its percent sign, which has a line of its own, and what follows the line. -/
def directive? (gs : List Glyph) : Option (Directive × List Glyph) := do
  let (name, gs) := readName gs
  guard (startsSpace gs)
  let gs := skipBlanks gs
  let (d, gs) ←
    if name = "YAML".toList then version? gs
    else if name = "TAG".toList then handle? gs
    else none
  (endLine? gs).map (d, ·)

end Exploration.Yaml
