/-!
# YAML characters

The characters of a text with their places, and the classes by which they are told apart.
-/

namespace Exploration.Yaml

/-! ## Classes -/

def isBlank (c : Char) : Bool := c = ' ' || c = '\t'

/-- The characters that end a line. -/
def isBreak (c : Char) : Bool := c = '\n' || c = '\u2028' || c = '\u2029'

/-- The brackets and what parts their items. -/
def isBracket (c : Char) : Bool :=
  c = ',' || c = '[' || c = ']' || c = '\x7b' || c = '\x7d'

def isNameChar (c : Char) : Bool := c.isAlphanum || c = '_' || c = '-'

/-- The characters that may stand in a text. -/
def isAllowed (c : Char) : Bool :=
  c = '\t' || c = '\n' || c = '\r' || c = '\u0085' || (' ' ≤ c && c ≤ '~') ||
    ('\u00a0' ≤ c && c ≠ '\ufffe' && c ≠ '\uffff')

/-! ## Places -/

structure Place where
  line : Nat := 0
  /-- How many characters of the line come before. -/
  column : Nat := 0
  /-- How many octets of the text come before. -/
  offset : Nat := 0

/-- The place after a character. -/
def Place.after (c : Char) (p : Place) : Place :=
  if isBreak c then ⟨p.line + 1, 0, p.offset + c.utf8Size⟩
  else ⟨p.line, p.column + 1, p.offset + c.utf8Size⟩

/-- A character and where it stands. -/
structure Glyph extends Place where
  char : Char

/-- All line ends but the two separators as one character. -/
def normalizeEnds : List Char → List Char
  | [] => []
  | '\r' :: '\n' :: rest => '\n' :: normalizeEnds rest
  | c :: rest => (if c = '\r' || c = '\u0085' then '\n' else c) :: normalizeEnds rest

/-- The glyphs of a text that begins at this place. -/
def glyphsFrom (p : Place) : List Char → List Glyph
  | [] => []
  | c :: rest => ⟨p, c⟩ :: glyphsFrom (p.after c) rest

/-- The glyphs of a text, if all its characters may stand there. A byte order mark is one of them
and takes a column. -/
def glyphs? (s : String) : Option (List Glyph) :=
  if s.toList.all isAllowed then some (glyphsFrom {} (normalizeEnds s.toList)) else none

/-! ## What comes next -/

/-- Whether a text is over or goes on with a blank or a line end. -/
def startsSpace : List Glyph → Bool
  | [] => true
  | g :: _ => isBlank g.char || isBreak g.char

/-- Whether a line begins with three times this character and nothing beside it. -/
def startsMark (c : Char) : List Glyph → Bool
  | x :: y :: z :: rest =>
    x.column = 0 && x.char = c && y.char = c && z.char = c && startsSpace rest
  | _ => false

/-- Whether a document starts or ends here. -/
def startsDocumentMark (gs : List Glyph) : Bool := startsMark '-' gs || startsMark '.' gs

/-- What follows the line, if nothing is left on it but blanks and a comment. -/
def endLine? (gs : List Glyph) : Option (List Glyph) :=
  let gs := gs.dropWhile (isBlank ·.char)
  let gs := if gs.head?.any (·.char = '#') then gs.dropWhile (!isBreak ·.char) else gs
  match gs with
  | [] => some []
  | g :: rest => if isBreak g.char then some rest else none

end Exploration.Yaml
