import Exploration.Decimal.Literal
import Exploration.Text.Words
import Exploration.Text.Numeral
import Exploration.Value

/-!
# Settings from variables

How the name of a variable says which setting it sets, and how its text is read as a value. A text
that is no value as a whole is taken as it is.
-/

namespace Exploration.Variables

/-! ## Names -/

/-- With this a variable of ours begins, in letters of either case. -/
def start : List Char := "footprint_".toList

/-- Every two underscores taken as a point. -/
def dotted : List Char → List Char
  | [] => []
  | '_' :: '_' :: rest => '.' :: dotted rest
  | c :: rest => c :: dotted rest

/-- The section, the setting and so on that a variable names, if it is one of ours. -/
def path? (name : String) : Option (List (List Char)) :=
  let cs := (Text.trim name.toList).map Char.toLower
  if start.isPrefixOf cs then
    let parts := Value.pathParts (dotted (Text.trim (cs.drop start.length)))
    if parts.any (· = []) then none else some parts
  else none

/-! ## Values -/

def isBlank (c : Char) : Bool := c = ' ' || ('\t' ≤ c && c ≤ '\r' && c ≠ '\x0b')

def skipBlanks (cs : List Char) : List Char := cs.dropWhile isBlank

/-- The characters that end a bare text. -/
def isSeparator (c : Char) : Bool :=
  c = ',' || c = '\x7b' || c = '\x7d' || c = '[' || c = ']'

def isKeyChar (c : Char) : Bool := c.isAlphanum || c = '_' || c = '-'

/-- The characters up to the closing quote as they are written, and what follows it. -/
def quoted : List Char → Option (List Char × List Char)
  | [] => none
  | '"' :: rest => some ([], rest)
  | '\\' :: c :: rest => (quoted rest).map fun (cs, rest) => ('\\' :: c :: cs, rest)
  | c :: rest => (quoted rest).map fun (cs, rest) => (c :: cs, rest)

/-- What a backslash and this letter stand for. -/
def unescape? (c : Char) : Option Char :=
  ([('"', '"'), ('\\', '\\'), ('b', '\x08'), ('f', '\x0c'), ('n', '\n'), ('r', '\r'),
    ('t', '\t')] : List (Char × Char)).lookup c

/-- What characters within quotes stand for, unless there is one that may not stand there. -/
def unescape : List Char → Option (List Char)
  | [] => some []
  | '\\' :: 'u' :: a :: b :: c :: d :: rest => do
    let c ← Numeral.char? [a, b, c, d]
    (unescape rest).map (c :: ·)
  | '\\' :: 'U' :: a :: b :: c :: d :: e :: f :: g :: h :: rest => do
    let c ← Numeral.char? [a, b, c, d, e, f, g, h]
    (unescape rest).map (c :: ·)
  | '\\' :: c :: rest => do
    let c ← unescape? c
    (unescape rest).map (c :: ·)
  | c :: rest => do
    guard (c ≠ '\\' ∧ (c = '\t' ∨ ' ' ≤ c) ∧ c ≠ '\x7f')
    (unescape rest).map (c :: ·)

/-- The first characters, as far as they fit into so many octets. -/
def fitting (room : Nat) : List Char → List Char
  | [] => []
  | c :: rest =>
    if c.utf8Size ≤ room then c :: fitting (room - c.utf8Size) rest else []

/-- The text that stands in quotes. If there is a backslash, as many octets stay of what stands
before the first one as that has characters. -/
def quotedText (cs : List Char) : Option String := do
  let plain := cs.takeWhile (· ≠ '\\')
  let whole ← unescape cs
  if plain.length = cs.length then return String.ofList whole
  else return String.ofList (fitting plain.length plain ++ whole.drop plain.length)

/-- An integer of 64 bits; one without a minus may have a plus. -/
def readInt (cs : List Char) : Option Int :=
  let (negative, ds) := Decimal.splitSign cs
  (Decimal.ofDigits? ds).bind fun n =>
    let n : Int := if negative then -n else n
    if Value.isWord n then some n else none

/-- A text without quotes: a decimal if it has a point, an integer, or a text. -/
def bareValue (cs : List Char) : Value :=
  let decimal := if cs.contains '.' then Decimal.Literal.read? cs else none
  match decimal, readInt cs with
  | some l, _ => .double l.toDouble
  | none, some n => .int n
  | none, none => .text (String.ofList cs)

def key (cs : List Char) : Option (String × List Char) :=
  match skipBlanks cs with
  | '"' :: rest => do
    let (cs, rest) ← quoted rest
    (quotedText cs).map (·, rest)
  | cs =>
    let name := cs.takeWhile isKeyChar
    if name = [] then none else some (String.ofList name, cs.dropWhile isKeyChar)

mutual

/-- The value at the head of a text, and what follows it. Each step down takes one of `fuel`. -/
def value : Nat → List Char → Option (Value × List Char)
  | 0, _ => none
  | fuel + 1, cs =>
    match skipBlanks cs with
    | 't' :: 'r' :: 'u' :: 'e' :: rest => some (.flag true, skipBlanks rest)
    | 'f' :: 'a' :: 'l' :: 's' :: 'e' :: rest => some (.flag false, skipBlanks rest)
    | '\x7b' :: rest =>
      (fields fuel rest).map fun (fs, rest) => (.record fs, skipBlanks rest)
    | '[' :: rest => (items fuel rest).map fun (vs, rest) => (.list vs, skipBlanks rest)
    | '"' :: rest => do
      let (cs, rest) ← quoted rest
      (quotedText cs).map fun s => (.text s, skipBlanks rest)
    | '\'' :: c :: '\'' :: rest => some (.text (String.singleton c), skipBlanks rest)
    | '\'' :: _ => none
    | cs =>
      some (bareValue (Text.trim (cs.takeWhile (!isSeparator ·))), cs.dropWhile (!isSeparator ·))

/-- The items of a list from the next one on; a comma may come after the last. -/
def items : Nat → List Char → Option (List Value × List Char)
  | 0, _ => none
  | _, ']' :: rest => some ([], rest)
  | fuel + 1, cs => do
    let (v, rest) ← value fuel cs
    match rest with
    | ',' :: rest => (items fuel rest).map fun (vs, rest) => (v :: vs, rest)
    | ']' :: rest => some ([v], rest)
    | _ => none

/-- The fields of a record from the next one on; a comma may come after the last. -/
def fields : Nat → List Char → Option (List (String × Value) × List Char)
  | 0, _ => none
  | _, '\x7d' :: rest => some ([], rest)
  | fuel + 1, cs => do
    let (name, rest) ← key cs
    match skipBlanks rest with
    | '=' :: rest => do
      let (v, rest) ← value fuel rest
      match rest with
      | ',' :: rest => (fields fuel rest).map fun (fs, rest) => ((name, v) :: fs, rest)
      | '\x7d' :: rest => some ([(name, v)], rest)
      | _ => none
    | _ => none

end

/-- The value of a variable. A character pays for the steps down into a list or record and into an
item of it. -/
def read (s : String) : Value :=
  let cs := s.toList
  match value (2 * cs.length + 2) cs with
  | some (v, []) => v.sorted
  | _ => .text s

/-- What a variable of ours sets. -/
def setting? (name text : String) : Option Value := (path? name).map (read text).nest

end Exploration.Variables
