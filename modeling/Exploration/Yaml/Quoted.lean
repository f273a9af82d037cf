import Exploration.Text.Numeral
import Exploration.Yaml.Fold

/-!
# YAML within quotes

Scalars in single quotes, where only a quote is written in another way, and in double quotes, where
a backslash begins an escape. They go on over line ends, but not over the mark of a document.
-/

namespace Exploration.Yaml

/-- The marks up to the closing quote, which is written twice inside, and what follows it. -/
def singleQuoted : List Glyph → Option (List Mark × List Glyph)
  | [] => none
  | ⟨_, '\''⟩ :: ⟨_, '\''⟩ :: rest =>
    (singleQuoted rest).map fun (ms, rest) => (.char '\'' :: ms, rest)
  | ⟨_, '\''⟩ :: rest => some ([], rest)
  | g :: rest =>
    if startsDocumentMark (g :: rest) then none
    else (singleQuoted rest).map fun (ms, rest) => (.ofChar g.char :: ms, rest)

/-- What a backslash and this letter stand for. -/
def unescape? (c : Char) : Option Char :=
  ([('0', '\x00'), ('a', '\x07'), ('b', '\x08'), ('t', '\t'), ('\t', '\t'), ('n', '\n'),
    ('v', '\x0b'), ('f', '\x0c'), ('r', '\r'), ('e', '\x1b'), (' ', ' '), ('"', '"'), ('/', '/'),
    ('\\', '\\'), ('N', '\u0085'), ('_', '\u00a0'), ('L', '\u2028'), ('P', '\u2029')] :
    List (Char × Char)).lookup c

/-- The mark that a backslash and this glyph stand for. -/
def escaped? (g : Glyph) : Option Mark :=
  if isBreak g.char then some .joinedEnd else (unescape? g.char).map .char

/-- The mark for the character whose number has these hexadecimal digits. -/
def numbered? (digits : List Glyph) : Option Mark :=
  (Numeral.char? (digits.map (·.char))).map .char

/-- The marks up to the closing quote, and what follows it. -/
def doubleQuoted : List Glyph → Option (List Mark × List Glyph)
  | [] => none
  | ⟨_, '"'⟩ :: rest => some ([], rest)
  | ⟨_, '\\'⟩ :: ⟨_, 'x'⟩ :: a :: b :: rest => do
    let m ← numbered? [a, b]
    (doubleQuoted rest).map fun (ms, rest) => (m :: ms, rest)
  | ⟨_, '\\'⟩ :: ⟨_, 'u'⟩ :: a :: b :: c :: d :: rest => do
    let m ← numbered? [a, b, c, d]
    (doubleQuoted rest).map fun (ms, rest) => (m :: ms, rest)
  | ⟨_, '\\'⟩ :: ⟨_, 'U'⟩ :: a :: b :: c :: d :: e :: f :: g :: h :: rest => do
    let m ← numbered? [a, b, c, d, e, f, g, h]
    (doubleQuoted rest).map fun (ms, rest) => (m :: ms, rest)
  | ⟨_, '\\'⟩ :: g :: rest => do
    let m ← escaped? g
    (doubleQuoted rest).map fun (ms, rest) => (m :: ms, rest)
  | g :: rest =>
    if g.char = '\\' || startsDocumentMark (g :: rest) then none
    else (doubleQuoted rest).map fun (ms, rest) => (.ofChar g.char :: ms, rest)

end Exploration.Yaml
