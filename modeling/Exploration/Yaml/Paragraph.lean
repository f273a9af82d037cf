import Exploration.Text.Numeral
import Exploration.Yaml.Glyph

/-!
# Paragraphs

Scalars that stand on the lines after a header. The header says what becomes of the line ends at
their end, and it may give their indentation, which otherwise is that of their first line.
-/

namespace Exploration.Yaml

/-! ## Headers -/

/-- What becomes of the line ends at the end of a paragraph. -/
inductive Chomp where
  | strip
  | clip
  | keep

def readChomp : List Glyph → Option Chomp × List Glyph
  | ⟨_, '+'⟩ :: rest => (some .keep, rest)
  | ⟨_, '-'⟩ :: rest => (some .strip, rest)
  | gs => (none, gs)

/-- The indentation that a header gives, which is not zero. -/
def readIndent : List Glyph → Option (Option Nat × List Glyph)
  | [] => some (none, [])
  | g :: rest =>
    if g.char = '0' then none
    else if Decimal.isDigit g.char then some (some (Decimal.digitValue g.char), rest)
    else some (none, g :: rest)

/-- The two parts of a header, which come in either order, and what follows its line. -/
def readHeader (gs : List Glyph) : Option (Chomp × Option Nat × List Glyph) := do
  let (before, gs) := readChomp gs
  let (indent, gs) ← readIndent gs
  let (after, gs) := if before.isSome then (none, gs) else readChomp gs
  let rest ← endLine? gs
  return ((before.or after).getD .clip, indent, rest)

/-! ## Lines -/

/-- How far the first line that is not empty is indented, or an empty one before it if that is
indented further. A tab may not stand there. -/
def deepest : List Glyph → Option Nat
  | [] => some 0
  | g :: rest =>
    if g.char = ' ' then (deepest rest).map (max (g.column + 1))
    else if g.char = '\t' then none
    else if isBreak g.char then deepest rest
    else some 0

/-- The characters of the lines with this indentation, without the spaces before them, and what
follows these lines. -/
def dedent (indent : Nat) (inLine : Bool) : List Glyph → Option (List Char × List Glyph)
  | [] => some ([], [])
  | g :: rest =>
    let goOn (inLine : Bool) :=
      (dedent indent inLine rest).map fun (cs, rest) => (g.char :: cs, rest)
    if isBreak g.char then goOn false
    else if inLine || indent ≤ g.column then goOn true
    else if g.char = ' ' then dedent indent false rest
    else if g.char = '\t' then none
    else some ([], g :: rest)

/-- What stays of the line ends between two lines, of which one begins with a blank or none does. -/
def joinEnds (spaced : Bool) : List Char → List Char
  | '\n' :: ends => if spaced then '\n' :: ends else if ends = [] then [' '] else ends
  | ends => ends

/-- Lines joined into one where neither begins with a blank. `ends` are the line ends just before,
and `spaced` says how the line before them begins. -/
def joinLines (spaced : Bool) (ends : List Char) : List Char → List Char
  | [] => ends
  | c :: rest =>
    if isBreak c then joinLines spaced (ends ++ [c]) rest
    else if ends = [] then c :: joinLines spaced [] rest
    else joinEnds (spaced || isBlank c) ends ++ c :: joinLines (isBlank c) [] rest

/-- Lines joined after the empty ones at the start, which stay. -/
def foldLines (cs : List Char) : List Char :=
  let body := cs.dropWhile isBreak
  cs.takeWhile isBreak ++ joinLines (body.head?.any isBlank) [] body

def Chomp.apply (chomp : Chomp) (cs : List Char) : List Char :=
  let body := (cs.reverse.dropWhile isBreak).reverse
  match chomp with
  | .strip => body
  | .clip => if body = [] then [] else body ++ (cs.drop body.length).take 1
  | .keep => cs

/-- The text of a paragraph after the sign that begins its header, and what follows it. An
indentation that is given counts from that of the lines around, which is one less than `least`. -/
def paragraph? (folded : Bool) (least : Nat) (gs : List Glyph) :
    Option (List Char × List Glyph) := do
  let (chomp, given, gs) ← readHeader gs
  let indent ← match given with
    | some n => some (least - 1 + n)
    | none => (deepest gs).map fun n => max (max n least) 1
  let (cs, rest) ← dedent indent false gs
  return (chomp.apply (if folded then foldLines cs else cs), rest)

end Exploration.Yaml
