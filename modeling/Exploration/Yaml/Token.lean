import Exploration.Yaml.Paragraph
import Exploration.Yaml.Plain
import Exploration.Yaml.Quoted
import Exploration.Yaml.Scalar
import Exploration.Yaml.Tag

/-!
# YAML tokens

A text as the pieces that it is made of, where the lists and records that stand by indentation begin
and end with pieces of their own. A key is known only by the colon after it, so the places where a
key may have begun are kept until then.
-/

namespace Exploration.Yaml

inductive Token where
  | directive (d : Directive)
  | documentStart
  | documentEnd
  /-- A list by indentation begins. -/
  | listStart
  /-- A record by indentation begins. -/
  | recordStart
  /-- A list or record by indentation ends. -/
  | blockEnd
  | listOpen
  | listClose
  | recordOpen
  | recordClose
  | comma
  | dash
  | key
  | value
  | anchor (name : String)
  | alias (name : String)
  | tag (t : ShortTag)
  | scalar (s : Scalar)

/-- A place where a key may have begun. -/
structure KeyStart where
  /-- How many tokens come before it. -/
  index : Nat
  place : Place
  /-- Whether nothing but a key can stand there. -/
  required : Bool

namespace KeyStart

/-- Whether the colon after a key may still come here: on the same line and not too far on. -/
def reaches (k : KeyStart) (g : Glyph) : Bool :=
  k.place.line = g.line && g.offset ≤ k.place.offset + 1024

/-- What is left of a place once its colon cannot come any more. -/
def drop (key : Option KeyStart) : Option (Option KeyStart) :=
  if key.any (·.required) then none else some none

end KeyStart

/-- What is known between two tokens. -/
structure Scan where
  tokens : Array Token := #[]
  /-- The columns of the lists and records that stand by indentation here, innermost first. -/
  columns : List Nat := []
  /-- Whether a key may begin here. -/
  keyAllowed : Bool := true
  /-- Where the key of the next colon may have begun. -/
  key : Option KeyStart := none
  /-- The same outside each bracket that is open here, innermost first. -/
  outer : List (Option KeyStart) := []

namespace Scan

def inBrackets (s : Scan) : Bool := !s.outer.isEmpty

/-- The least column of what belongs to the innermost list or record. -/
def least (s : Scan) : Nat := s.columns.head?.elim 0 (· + 1)

def emit (t : Token) (s : Scan) : Scan := { s with tokens := s.tokens.push t }

/-! ## Keys -/

def dropKey (s : Scan) : Option Scan := (KeyStart.drop s.key).map ({ s with key := · })

/-- Gives up all places for keys whose colon can not come here. -/
def dropFarKeys (g : Glyph) (s : Scan) : Option Scan := do
  let near (key : Option KeyStart) :=
    if key.any (·.reaches g) then some key else KeyStart.drop key
  return { s with key := ← near s.key, outer := ← s.outer.mapM near }

/-- Keeps in mind that a key may begin here. -/
def saveKey (g : Glyph) (s : Scan) : Option Scan :=
  if s.keyAllowed then
    let required := !s.inBrackets && s.columns.head? = some g.column
    s.dropKey.map ({ · with key := some ⟨s.tokens.size, g.toPlace, required⟩ })
  else some s

/-! ## Indentation -/

/-- Ends the lists and records that stand further in. -/
def close (column : Nat) (s : Scan) : Scan :=
  if s.inBrackets then s
  else
    let ended := s.columns.takeWhile (column < ·)
    { s with
      tokens := s.tokens ++ Array.replicate ended.length .blockEnd
      columns := s.columns.drop ended.length }

def closeAll (s : Scan) : Scan :=
  if s.inBrackets then s
  else
    { s with
      tokens := s.tokens ++ Array.replicate s.columns.length .blockEnd
      columns := [] }

/-- Begins a list or record by indentation at this token, unless one stands as far in already. -/
def openAt (index column : Nat) (start : Token) (s : Scan) : Scan :=
  if s.inBrackets || column < s.least then s
  else
    { s with
      tokens := s.tokens.insertIdxIfInBounds index start
      columns := column :: s.columns }

/-! ## Tokens -/

/-- A sign before an item or a field that stands by indentation. -/
def blockSign (t start : Token) (g : Glyph) (s : Scan) : Option Scan :=
  if s.inBrackets then some (s.emit t)
  else if s.keyAllowed then some ((s.openAt s.tokens.size g.column start).emit t)
  else none

def dash (g : Glyph) (s : Scan) : Option Scan := do
  let s ← (← s.blockSign .dash .listStart g).dropKey
  return { s with keyAllowed := true }

def question (g : Glyph) (s : Scan) : Option Scan := do
  let s ← (← s.blockSign .key .recordStart g).dropKey
  return { s with keyAllowed := !s.inBrackets }

/-- A colon, before which the sign of the key is put if that had none. -/
def colon (g : Glyph) (s : Scan) : Option Scan :=
  match s.key with
  | some k =>
    let s := { s with tokens := s.tokens.insertIdxIfInBounds k.index .key, key := none }
    let s := (s.openAt k.index k.place.column .recordStart).emit .value
    some { s with keyAllowed := false }
  | none =>
    (s.blockSign .value .recordStart g).map fun s => { s with keyAllowed := !s.inBrackets }

def openBracket (t : Token) (g : Glyph) (s : Scan) : Option Scan := do
  let s ← s.saveKey g
  return { s.emit t with keyAllowed := true, key := none, outer := s.key :: s.outer }

def closeBracket (t : Token) (s : Scan) : Option Scan := do
  let s ← s.dropKey
  return { s.emit t with keyAllowed := false, key := s.outer.head?.join, outer := s.outer.tail }

def comma (s : Scan) : Option Scan := do
  return { (← s.dropKey).emit .comma with keyAllowed := true }

/-- A token between documents, which ends all that stands by indentation. -/
def topLevel (t : Token) (s : Scan) : Option Scan := do
  return { (← s.closeAll.dropKey).emit t with keyAllowed := false }

/-- A token with which a key may begin. -/
def word (t : Token) (g : Glyph) (s : Scan) : Option Scan := do
  return { (← s.saveKey g).emit t with keyAllowed := false }

def paragraph (folded : Bool) (gs : List Glyph) (s : Scan) : Option (Scan × List Glyph) := do
  let s ← s.dropKey
  let (cs, rest) ← paragraph? folded s.least gs
  return ({ s.emit (.scalar (.quoted cs)) with keyAllowed := true }, rest)

def quoted (read : List Glyph → Option (List Mark × List Glyph)) (g : Glyph) (gs : List Glyph)
    (s : Scan) : Option (Scan × List Glyph) := do
  let (ms, rest) ← read gs
  (s.word (.scalar (.quoted (fold [] ms))) g).map (·, rest)

def plain (g : Glyph) (gs : List Glyph) (s : Scan) : Option (Scan × List Glyph) := do
  guard (startsPlain s.inBrackets gs)
  let (cs, broken, rest) ← plain? s.inBrackets s.least gs
  (s.word (.scalar (.plain cs)) g).map ({ · with keyAllowed := broken }, rest)

/-- The token that begins with a glyph, and what follows it. -/
def next (g : Glyph) (rest : List Glyph) (s : Scan) : Option (Scan × List Glyph) :=
  if g.column = 0 && g.char = '%' then do
    let (d, rest) ← directive? rest
    (s.topLevel (.directive d)).map (·, rest)
  else if startsMark '-' (g :: rest) then (s.topLevel .documentStart).map (·, rest.drop 2)
  else if startsMark '.' (g :: rest) then (s.topLevel .documentEnd).map (·, rest.drop 2)
  else if g.char = '-' && startsSpace rest then (s.dash g).map (·, rest)
  else if g.char = '?' && (s.inBrackets || startsSpace rest) then (s.question g).map (·, rest)
  else if g.char = ':' && (s.inBrackets || startsSpace rest) then (s.colon g).map (·, rest)
  else
    match g.char with
    | '[' => (s.openBracket .listOpen g).map (·, rest)
    | '\x7b' => (s.openBracket .recordOpen g).map (·, rest)
    | ']' => (s.closeBracket .listClose).map (·, rest)
    | '\x7d' => (s.closeBracket .recordClose).map (·, rest)
    | ',' => s.comma.map (·, rest)
    | '&' => (anchor? rest).bind fun (name, rest) => (s.word (.anchor name) g).map (·, rest)
    | '*' => (anchor? rest).bind fun (name, rest) => (s.word (.alias name) g).map (·, rest)
    | '!' => do
      let (t, rest) ← tag? rest
      guard (endsTag s.inBrackets rest)
      (s.word (.tag t) g).map (·, rest)
    | '\'' => s.quoted singleQuoted g rest
    | '"' => s.quoted doubleQuoted g rest
    | '|' => if s.inBrackets then none else s.paragraph false rest
    | '>' => if s.inBrackets then none else s.paragraph true rest
    | _ => s.plain g (g :: rest)

/-! ## Texts -/

/-- Passes over line ends, comments, blanks, and a byte order mark at the start of a line. A tab is
no blank where a key may begin by indentation; a line end outside brackets leads to such a place. -/
def skipSpace (inBrackets keyAllowed comment : Bool) : List Glyph → Bool × List Glyph
  | [] => (keyAllowed, [])
  | g :: rest =>
    if isBreak g.char then skipSpace inBrackets (keyAllowed || !inBrackets) false rest
    else if comment || g.char = '#' then skipSpace inBrackets keyAllowed true rest
    else if g.char = ' ' || (g.char = '\t' && (inBrackets || !keyAllowed)) ||
        (g.char = '\ufeff' && g.column = 0) then skipSpace inBrackets keyAllowed false rest
    else (keyAllowed, g :: rest)

/-- All tokens of a text. A glyph pays for a token. -/
def run : Nat → Scan → List Glyph → Option (Array Token)
  | 0, _, _ => none
  | fuel + 1, s, gs =>
    let (keyAllowed, gs) := skipSpace s.inBrackets s.keyAllowed false gs
    let s := { s with keyAllowed }
    match gs with
    | [] => s.dropKey.map (·.closeAll.tokens)
    | g :: rest => do
      let s ← s.dropFarKeys g
      let (s, rest) ← (s.close g.column).next g rest
      run fuel s rest

end Scan

/-- The tokens of a text, unless one of them breaks a rule. -/
def tokens? (gs : List Glyph) : Option (List Token) :=
  (Scan.run (gs.length + 1) {} gs).map (·.toList)

end Exploration.Yaml
