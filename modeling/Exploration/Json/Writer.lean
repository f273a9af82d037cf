import Exploration.Value
import Exploration.Decimal.Layout

/-!
# Written JSON

Two forms: without any blanks, and with one item or field per line, indented by two spaces. A
double without a decimal is written `null`.
-/

namespace Exploration.Json

def hexDigit (n : Nat) : Char := (Nat.digitChar n)

/-- Only the quote, the backslash and control characters are escaped. -/
def escape (c : Char) : List Char :=
  if c = '"' then ['\\', '"']
  else if c = '\\' then ['\\', '\\']
  else if c.toNat < 0x20 then
    if c = '\n' then ['\\', 'n']
    else if c = '\t' then ['\\', 't']
    else if c = '\r' then ['\\', 'r']
    else if c.toNat = 8 then ['\\', 'b']
    else if c.toNat = 12 then ['\\', 'f']
    else ['\\', 'u', '0', '0', hexDigit (c.toNat / 16), hexDigit (c.toNat % 16)]
  else [c]

def quoted (s : String) : List Char := '"' :: (s.toList.flatMap escape ++ ['"'])

def double (x : Float) : List Char :=
  if Double.isFinite x then Decimal.Layout.exact.write x else "null".toList

mutual

def compact : Value → List Char
  | .null | .unreadable => "null".toList
  | .flag b => if b then "true".toList else "false".toList
  | .int n => Decimal.ofInt n
  | .double x => double x
  | .text s => quoted s
  | .list [] => ['[', ']']
  | .list (v :: rest) => '[' :: (compact v ++ compactItems rest)
  | .record [] => ['\x7b', '\x7d']
  | .record ((key, v) :: rest) =>
    '\x7b' :: (quoted key ++ ':' :: (compact v ++ compactFields rest))

/-- The items after the first, and the end of the list. -/
def compactItems : List Value → List Char
  | [] => [']']
  | v :: rest => ',' :: (compact v ++ compactItems rest)

/-- The fields after the first, and the end of the record. -/
def compactFields : List (String × Value) → List Char
  | [] => ['\x7d']
  | (key, v) :: rest => ',' :: (quoted key ++ ':' :: (compact v ++ compactFields rest))

end

def newLine (indent : Nat) : List Char := '\n' :: List.replicate (2 * indent) ' '

mutual

def pretty (indent : Nat) : Value → List Char
  | .list (v :: rest) =>
    '[' :: (newLine (indent + 1) ++ pretty (indent + 1) v ++ prettyItems indent rest)
  | .record ((key, v) :: rest) =>
    '\x7b' :: (newLine (indent + 1) ++ quoted key ++ ':' :: ' ' ::
      (pretty (indent + 1) v ++ prettyFields indent rest))
  | v => compact v

/-- The items after the first, and the end of the list. -/
def prettyItems (indent : Nat) : List Value → List Char
  | [] => newLine indent ++ [']']
  | v :: rest =>
    ',' :: (newLine (indent + 1) ++ pretty (indent + 1) v ++ prettyItems indent rest)

/-- The fields after the first, and the end of the record. -/
def prettyFields (indent : Nat) : List (String × Value) → List Char
  | [] => newLine indent ++ ['\x7d']
  | (key, v) :: rest =>
    ',' :: (newLine (indent + 1) ++ quoted key ++ ':' :: ' ' ::
      (pretty (indent + 1) v ++ prettyFields indent rest))

end

def compactText (v : Value) : String := String.ofList (compact v)

def prettyText (v : Value) : String := String.ofList (pretty 0 v)

end Exploration.Json
