import Exploration.Yaml.Glyph

/-!
# Folded lines

Scalars on one line or several. Where a scalar goes on over line ends, a single line end counts as a
space, and of several all but the first stay. A line separator stays in any case.
-/

namespace Exploration.Yaml

/-- A part of a scalar that may go on over line ends. -/
inductive Mark where
  | char (c : Char)
  /-- A blank, which disappears beside a line end. -/
  | blank (c : Char)
  | lineEnd (c : Char)
  /-- A line end that is taken away with the blanks after it. -/
  | joinedEnd

def Mark.ofChar (c : Char) : Mark :=
  if isBlank c then .blank c else if isBreak c then .lineEnd c else .char c

mutual

/-- The text of a scalar, given the blanks just before the next mark. -/
def fold (blanks : List Char) : List Mark → List Char
  | [] => blanks
  | .char c :: rest => blanks ++ c :: fold [] rest
  | .blank c :: rest => fold (blanks ++ [c]) rest
  | .lineEnd c :: rest => if c = '\n' then foldEnds [' '] rest else c :: foldEnds [] rest
  | .joinedEnd :: rest => blanks ++ foldEnds [] rest

/-- The text after a line end, which stands for `alone` if no other line end follows at once. -/
def foldEnds (alone : List Char) : List Mark → List Char
  | [] => alone
  | .lineEnd c :: rest => c :: foldEnds [] rest
  | .blank _ :: rest => foldEnds alone rest
  | .char c :: rest => alone ++ c :: fold [] rest
  | .joinedEnd :: rest => alone ++ foldEnds [] rest

end

def isSpace : Mark → Bool
  | .blank _ | .lineEnd _ => true
  | _ => false

/-- The text of a scalar without the blanks and line ends after it. -/
def foldTrimmed (ms : List Mark) : List Char := fold [] (ms.reverse.dropWhile isSpace).reverse

end Exploration.Yaml
