import Exploration.Yaml.Fold

/-!
# Plain scalars

Scalars without quotes. They end at a colon before a blank, at a comment, within brackets at a
bracket, and elsewhere with the lines that are indented far enough.
-/

namespace Exploration.Yaml

/-- The characters with which no plain scalar begins, whatever follows. -/
def isIndicator (c : Char) : Bool :=
  isBracket c || c = '#' || c = '&' || c = '*' || c = '!' || c = '|' || c = '>' || c = '\'' ||
    c = '"' || c = '%' || c = '@' || c = '\x60'

/-- Whether a plain scalar can begin here. -/
def startsPlain (inBrackets : Bool) : List Glyph → Bool
  | [] => false
  | g :: rest =>
    if g.char = '-' then !startsSpace rest
    else if g.char = '?' || g.char = ':' then !inBrackets && !startsSpace rest
    else !isIndicator g.char && !startsSpace (g :: rest)

/-- A colon within brackets that neither belongs to a scalar nor ends it. -/
def isStrayColon (g : Glyph) (rest : List Glyph) : Bool :=
  g.char = ':' && rest.head?.any fun next => next.char = '?' || isBracket next.char

/-- Whether a plain scalar ends here within a word. -/
def endsPlain (inBrackets : Bool) (g : Glyph) (rest : List Glyph) : Bool :=
  (g.char = ':' && startsSpace rest) || (inBrackets && isBracket g.char)

/-- The marks of a plain scalar, whether it ends after a line end, and what follows it. `spaced`
says that a blank or a line end comes just before, and `broken` that among these is a line end. -/
def plainMarks (inBrackets : Bool) (least : Nat) (spaced broken : Bool) :
    List Glyph → Option (List Mark × Bool × List Glyph)
  | [] => some ([], broken, [])
  | g :: rest =>
    let goOn (spaced broken : Bool) :=
      (plainMarks inBrackets least spaced broken rest).map fun (ms, broken, rest) =>
        (.ofChar g.char :: ms, broken, rest)
    if isBreak g.char then goOn true true
    else if isBlank g.char then
      if broken && g.char = '\t' && g.column < least then none else goOn true broken
    else if spaced && ((!inBrackets && g.column < least) || startsDocumentMark (g :: rest) ||
        g.char = '#') then some ([], broken, g :: rest)
    else if inBrackets && isStrayColon g rest then none
    else if endsPlain inBrackets g rest then some ([], broken, g :: rest)
    else goOn false false

/-- The plain scalar at the head of a text, whose later lines are indented at least so far; whether
it ends after a line end; and what follows it. -/
def plain? (inBrackets : Bool) (least : Nat) (gs : List Glyph) :
    Option (List Char × Bool × List Glyph) :=
  (plainMarks inBrackets least false false gs).map fun (ms, broken, rest) =>
    (foldTrimmed ms, broken, rest)

end Exploration.Yaml
