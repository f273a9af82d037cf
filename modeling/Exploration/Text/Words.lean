/-!
# Words

The parts of a text that stand between separators. There is one part more than there are separators,
so a text without any is its own only part. The separators of words are the blanks, which are the
characters with the property White_Space.
-/

namespace Exploration.Text

/-- The parts between the separators, empty ones included. -/
def split (separates : Char → Bool) : List Char → List (List Char)
  | [] => [[]]
  | c :: rest =>
    if separates c then [] :: split separates rest
    else
      match split separates rest with
      | part :: parts => (c :: part) :: parts
      | [] => [[c]]

def isBlank (c : Char) : Bool :=
  ('\t' ≤ c && c ≤ '\r') || c = ' ' || c = '\u0085' || c = '\u00a0' || c = '\u1680' ||
    ('\u2000' ≤ c && c ≤ '\u200a') || c = '\u2028' || c = '\u2029' || c = '\u202f' ||
    c = '\u205f' || c = '\u3000'

def words (cs : List Char) : List (List Char) := (split isBlank cs).filter (· ≠ [])

/-- Whether a text holds nothing but blanks. -/
def isBlankText (s : String) : Bool := s.toList.all isBlank

/-- The text without the blanks at either end. -/
def trim (cs : List Char) : List Char :=
  ((cs.dropWhile isBlank).reverse.dropWhile isBlank).reverse

end Exploration.Text
