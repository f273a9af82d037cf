import Exploration.Double
import Exploration.StringMap
import Exploration.Text.Words

/-!
# Values

Data without a schema: what a JSON text, a YAML text or an environment variable says before it is
read as a record. `Canonical` is the form in which the arguments of a tool call are kept: records
sorted by key, and nothing in them that a JSON text cannot hold.
-/

namespace Exploration

inductive Value where
  | null
  | flag (b : Bool)
  | int (n : Int)
  | double (x : Float)
  | text (s : String)
  | list (items : List Value)
  /-- Fields as they were written, repetitions included. -/
  | record (fields : List (String × Value))
  /-- Well-formed, but standing for nothing: a number beyond the doubles, a text with half a
  surrogate pair, or a record with such a key. -/
  | unreadable
  deriving Inhabited

namespace Value

mutual

/-- How many lists and records are nested. -/
def depth : Value → Nat
  | .list items => depthItems items + 1
  | .record fields => depthFields fields + 1
  | _ => 0

def depthItems : List Value → Nat
  | [] => 0
  | v :: rest => max (depth v) (depthItems rest)

def depthFields : List (String × Value) → Nat
  | [] => 0
  | (_, v) :: rest => max (depth v) (depthFields rest)

end

mutual

/-- Every record sorted by key; of a repeated key the last value stays. -/
def sorted : Value → Value
  | .list items => .list (sortedItems items)
  | .record fields => .record (sortedFields fields)
  | v => v

def sortedItems : List Value → List Value
  | [] => []
  | v :: rest => sorted v :: sortedItems rest

def sortedFields : List (String × Value) → List (String × Value)
  | [] => []
  | (key, v) :: rest => updateEntries key (·.getD (sorted v)) (sortedFields rest)

end

/-- The integers a JSON text keeps as integers; it reads any other as a double. -/
def isWord (n : Int) : Bool := -(Nat.pow 2 63 : Nat) ≤ n && n < (Nat.pow 2 64 : Nat)

mutual

def isCanonical : Value → Bool
  | .null | .flag _ | .text _ => true
  | .int n => isWord n
  | .double x => Double.isFinite x
  | .list items => areCanonical items
  | .record fields => areCanonicalFields fields
  | .unreadable => false

def areCanonical : List Value → Bool
  | [] => true
  | v :: rest => isCanonical v && areCanonical rest

def areCanonicalFields : List (String × Value) → Bool
  | [] => true
  | (key, v) :: rest => rest.all (key < ·.1) && isCanonical v && areCanonicalFields rest

end

mutual

/-- Whether every part of a value stands for something. -/
def isReadable : Value → Bool
  | .list items => areReadable items
  | .record fields => areReadableFields fields
  | .unreadable => false
  | _ => true

def areReadable : List Value → Bool
  | [] => true
  | v :: rest => isReadable v && areReadable rest

def areReadableFields : List (String × Value) → Bool
  | [] => true
  | (_, v) :: rest => isReadable v && areReadableFields rest

end

/-- The value of a field of a record. -/
def field? (key : String) : Value → Option Value
  | .record fields => fields.lookup key
  | _ => none

/-! ## Paths -/

/-- The parts of a path, which stand between its points. -/
def pathParts (path : List Char) : List (List Char) := Text.split (· = '.') path

/-- A record within a record for each part of a path up to the first empty one. -/
def nest (v : Value) : List (List Char) → Value
  | [] | [] :: _ => v
  | part :: rest => .record [(String.ofList part, nest v rest)]

end Value

/-- Values in the form in which they are kept. -/
abbrev Canonical := { v : Value // v.isCanonical = true }

/-- A value with an unreadable part has no canonical form, even if a later field of the same name
covers that part. -/
def Value.canonical? (v : Value) : Option Canonical :=
  let s := v.sorted
  if h : v.isReadable = true ∧ s.isCanonical = true then some ⟨s, h.2⟩ else none

end Exploration
