import Exploration.Value
import Exploration.Decimal.Literal
import Exploration.Text.Numeral

/-!
# Read JSON

`parse` reads one JSON text. A text is refused only for its grammar; a part that is well-formed and
stands for nothing is `Value.unreadable`, so that a record can ignore it in a field it does not
know.
-/

namespace Exploration.Json

def isBlank (c : Char) : Bool := c = ' ' || c = '\n' || c = '\t' || c = '\r'

def skipBlanks (cs : List Char) : List Char := cs.dropWhile isBlank

/-! ## Texts -/

/-- A piece of a text: a character, or a code unit of sixteen bits given by its number. -/
inductive Piece where
  | char (c : Char)
  | unit (n : Nat)

/-- What a backslash and this letter stand for. -/
def unescape? (c : Char) : Option Char :=
  if c = '"' || c = '\\' || c = '/' then some c
  else if c = 'b' then some '\x08'
  else if c = 'f' then some '\x0c'
  else if c = 'n' then some '\n'
  else if c = 'r' then some '\r'
  else if c = 't' then some '\t'
  else none

/-- The pieces up to the closing quote, and what follows it. -/
def pieces : List Char → Option (List Piece × List Char)
  | [] => none
  | '"' :: rest => some ([], rest)
  | '\\' :: 'u' :: a :: b :: c :: d :: rest => do
    let n ← Numeral.read? 16 [a, b, c, d]
    let (ps, rest) ← pieces rest
    some (.unit n :: ps, rest)
  | '\\' :: c :: rest => do
    let c ← unescape? c
    let (ps, rest) ← pieces rest
    some (.char c :: ps, rest)
  | c :: rest => do
    guard (0x20 ≤ c.toNat ∧ c ≠ '\\')
    let (ps, rest) ← pieces rest
    some (.char c :: ps, rest)

def isHigh (n : Nat) : Bool := 0xD800 ≤ n && n < 0xDC00

def isLow (n : Nat) : Bool := 0xDC00 ≤ n && n < 0xE000

/-- The characters of the pieces; a surrogate counts only in a pair. -/
def join : List Piece → Option (List Char)
  | [] => some []
  | .char c :: rest => (join rest).map (c :: ·)
  | .unit h :: .unit l :: rest =>
    if isHigh h then
      if isLow l then
        (join rest).map (Char.ofNat (0x10000 + (h - 0xD800) * 0x400 + (l - 0xDC00)) :: ·)
      else none
    else if isLow h then none
    else (join (.unit l :: rest)).map (Char.ofNat h :: ·)
  | .unit h :: rest =>
    if isHigh h || isLow h then none else (join rest).map (Char.ofNat h :: ·)

/-- The text up to the closing quote, and what follows it. -/
def string (cs : List Char) : Option (Option String × List Char) :=
  (pieces cs).map fun (ps, rest) => ((join ps).map String.ofList, rest)

/-! ## Numbers -/

/-- A run of digits, of at least one. -/
def digits (cs : List Char) : Option (List Char × List Char) :=
  match cs.span Decimal.isDigit with
  | ([], _) => none
  | (ds, rest) => some (ds, rest)

/-- The digits before the point: no zero comes before another digit. -/
def whole : List Char → Option (List Char × List Char)
  | '0' :: rest => some (['0'], rest)
  | cs => digits cs

def fraction : List Char → Option (Option (List Char) × List Char)
  | '.' :: rest => (digits rest).map fun (ds, rest) => (some ds, rest)
  | cs => some (none, cs)

def exponentDigits (negative : Bool) (cs : List Char) : Option (Option Int × List Char) :=
  (digits cs).map fun (ds, rest) =>
    let n : Int := Decimal.ofDigits ds
    (some (if negative then -n else n), rest)

def exponent : List Char → Option (Option Int × List Char)
  | c :: rest =>
    if c = 'e' || c = 'E' then
      match rest with
      | '+' :: rest => exponentDigits false rest
      | '-' :: rest => exponentDigits true rest
      | rest => exponentDigits false rest
    else some (none, c :: rest)
  | [] => some (none, [])

/-- The double of a literal, if there is one. -/
def doubleValue (l : Decimal.Literal) : Value :=
  let x := l.toDouble
  if Double.isFinite x then .double x else .unreadable

/-- Digits alone are an integer if they are one of the words and not a negative zero. -/
def numberValue (negative : Bool) (ds : List Char) : Option (List Char) → Option Int → Value
  | none, none =>
    let n : Int := Decimal.ofDigits ds
    let n := if negative then -n else n
    if Value.isWord n && !(negative && n = 0) then .int n
    else doubleValue (.ofParts negative ds [] 0)
  | f, e => doubleValue (.ofParts negative ds (f.getD []) (e.getD 0))

def unsignedNumber (negative : Bool) (cs : List Char) : Option (Value × List Char) := do
  let (ds, rest) ← whole cs
  let (f, rest) ← fraction rest
  let (e, rest) ← exponent rest
  some (numberValue negative ds f e, rest)

def number : List Char → Option (Value × List Char)
  | '-' :: rest => unsignedNumber true rest
  | cs => unsignedNumber false cs

/-! ## Values -/

/-- A record of which a key is unreadable is unreadable as a whole. -/
def recordValue (fields : List (Option String × Value)) : Value :=
  match fields.mapM fun (key, v) => key.map (·, v) with
  | some fields => .record fields
  | none => .unreadable

mutual

/-- The value at the head of a text, and what follows it. Each step down takes one of `fuel`. -/
def value : Nat → List Char → Option (Value × List Char)
  | 0, _ => none
  | fuel + 1, cs =>
    match cs with
    | 'n' :: 'u' :: 'l' :: 'l' :: rest => some (.null, rest)
    | 't' :: 'r' :: 'u' :: 'e' :: rest => some (.flag true, rest)
    | 'f' :: 'a' :: 'l' :: 's' :: 'e' :: rest => some (.flag false, rest)
    | '"' :: rest => (string rest).map fun (s, rest) => (s.elim .unreadable .text, rest)
    | '[' :: rest =>
      match skipBlanks rest with
      | ']' :: rest => some (.list [], rest)
      | rest => (items fuel rest).map fun (vs, rest) => (.list vs, rest)
    | '\x7b' :: rest =>
      match skipBlanks rest with
      | '\x7d' :: rest => some (.record [], rest)
      | rest => (fields fuel rest).map fun (fs, rest) => (recordValue fs, rest)
    | cs => number cs

/-- The items of a list from the next one on. -/
def items : Nat → List Char → Option (List Value × List Char)
  | 0, _ => none
  | fuel + 1, cs => do
    let (v, rest) ← value fuel (skipBlanks cs)
    match skipBlanks rest with
    | ',' :: rest => (items fuel rest).map fun (vs, rest) => (v :: vs, rest)
    | ']' :: rest => some ([v], rest)
    | _ => none

/-- The fields of a record from the next one on. -/
def fields : Nat → List Char → Option (List (Option String × Value) × List Char)
  | 0, _ => none
  | fuel + 1, cs =>
    match skipBlanks cs with
    | '"' :: rest => do
      let (key, rest) ← string rest
      match skipBlanks rest with
      | ':' :: rest => do
        let (v, rest) ← value fuel (skipBlanks rest)
        match skipBlanks rest with
        | ',' :: rest => (fields fuel rest).map fun (fs, rest) => ((key, v) :: fs, rest)
        | '\x7d' :: rest => some ([(key, v)], rest)
        | _ => none
      | _ => none
    | _ => none

end

/-- A character pays for two steps down: into a list or record, and into an item of it. -/
def parseChars (cs : List Char) : Option Value :=
  match value (2 * cs.length + 2) (skipBlanks cs) with
  | some (v, rest) => if skipBlanks rest = [] then some v else none
  | none => none

def parse (s : String) : Option Value := parseChars s.toList

end Exploration.Json
