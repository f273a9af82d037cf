import Exploration.Value

/-!
# Records

How a value is read as a record of named fields. A record is either written by name, in any order
and with fields that nobody asks for, or as the list of its fields in their declared order. A field
may be left out only where the reader has a default, and null is nowhere a default.
-/

namespace Exploration

class Readable (α : Type) where
  read : Value → Option α

class Writable (α : Type) where
  write : α → Value

export Readable (read)
export Writable (write)

namespace Value

/-- The fields of these names, in this order. None may be there twice; of those written in order
the last may be missing. -/
def columns (names : List String) : Value → Option (List (Option Value))
  | .record fields =>
    if names.all fun name => (fields.filter (·.1 = name)).length ≤ 1 then
      some (names.map (fields.lookup ·))
    else none
  | .list items =>
    if items.length ≤ names.length then
      some (items.map some ++ List.replicate (names.length - items.length) none)
    else none
  | _ => none

end Value

/-- A field that has to be there. -/
def required {α : Type} [Readable α] (column : Option Value) : Option α := column.bind read

/-- A field that may be left out. -/
def orElse {α : Type} [Readable α] (default : α) (column : Option Value) : Option α :=
  column.elim (some default) read

instance : Readable String where
  read
    | .text s => some s
    | _ => none

instance : Writable String := ⟨.text⟩

instance : Readable Bool where
  read
    | .flag b => some b
    | _ => none

instance : Writable Bool := ⟨.flag⟩

/-- The natural numbers below a bound. -/
def readBelow (bound : Nat) : Value → Option Nat
  | .int n => if 0 ≤ n ∧ n < bound then some n.toNat else none
  | _ => none

instance : Readable UInt32 where
  read v := (readBelow UInt32.size v).map UInt32.ofNat

instance : Writable UInt32 := ⟨fun n => .int n.toNat⟩

instance : Readable UInt64 where
  read v := (readBelow UInt64.size v).map UInt64.ofNat

instance : Writable UInt64 := ⟨fun n => .int n.toNat⟩

/-- An integer is read as the nearest double. -/
instance : Readable Float where
  read
    | .double x => some x
    | .int n => if Value.isWord n then some (Float.ofInt n) else none
    | _ => none

instance : Writable Float := ⟨.double⟩

instance {α : Type} [Readable α] : Readable (List α) where
  read
    | .list items => items.mapM read
    | _ => none

instance {α : Type} [Writable α] : Writable (List α) := ⟨fun xs => .list (xs.map write)⟩

/-- Repetitions are merged. -/
instance : Readable StringSet where
  read v := (read v : Option (List String)).map StringSet.ofList

instance : Writable StringSet := ⟨fun s => write s.toList⟩

/-- Of a repeated key the last value stays. -/
instance {α : Type} [Readable α] : Readable (StringMap α) where
  read
    | .record fields =>
      (fields.mapM fun field => (read field.2).map (field.1, ·)).map StringMap.ofList
    | _ => none

instance {α : Type} [Writable α] : Writable (StringMap α) :=
  ⟨fun m => .record (m.entries.map fun entry => (entry.1, write entry.2))⟩

end Exploration
