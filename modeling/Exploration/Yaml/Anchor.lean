import Exploration.Yaml.Node

/-!
# Anchors and aliases

An anchor gets as its number how many names have had an anchor before it. So two anchors may share a
number where a name is used again, and an alias stands for the last node with the number that its
name had when the alias was written.
-/

namespace Exploration.Yaml.Node

/-- Each name with the number of its latest anchor. -/
abbrev Numbers := List (String × Nat)

/-- Numbers the anchor of a node, if it has one. -/
def number (known : Numbers) (p : Properties String) : Numbers × Properties Nat :=
  match p.anchor with
  | none => (known, ⟨none, p.tag⟩)
  | some name =>
    ((name, known.length) :: known.filter (·.1 ≠ name), ⟨some known.length, p.tag⟩)

mutual

/-- The node with numbers for its anchors and aliases, and the names known after it. An alias needs
an anchor before it. -/
def numbered (known : Numbers) : Node String → Option (Numbers × Node Nat)
  | .alias name => (known.lookup name).map fun n => (known, .alias n)
  | .scalar p s =>
    let (known, p) := number known p
    some (known, .scalar p s)
  | .list p items =>
    let (known, p) := number known p
    (numberedItems known items).map fun (known, items) => (known, .list p items)
  | .record p fields =>
    let (known, p) := number known p
    (numberedFields known fields).map fun (known, fields) => (known, .record p fields)

def numberedItems (known : Numbers) : List (Node String) → Option (Numbers × List (Node Nat))
  | [] => some (known, [])
  | node :: rest => do
    let (known, node) ← numbered known node
    (numberedItems known rest).map fun (known, rest) => (known, node :: rest)

def numberedFields (known : Numbers) :
    List (Node String × Node String) → Option (Numbers × List (Node Nat × Node Nat))
  | [] => some (known, [])
  | (key, v) :: rest => do
    let (known, key) ← numbered known key
    let (known, v) ← numbered known v
    (numberedFields known rest).map fun (known, rest) => (known, (key, v) :: rest)

end

mutual

/-- The anchors in a node with what they stand for, in the order in which they are written. -/
def anchors : Node Nat → List (Nat × Node Nat)
  | .alias _ => []
  | .scalar p s => p.anchor.toList.map (·, .scalar p s)
  | .list p items => p.anchor.toList.map (·, .list p items) ++ anchorsOfItems items
  | .record p fields => p.anchor.toList.map (·, .record p fields) ++ anchorsOfFields fields

def anchorsOfItems : List (Node Nat) → List (Nat × Node Nat)
  | [] => []
  | node :: rest => anchors node ++ anchorsOfItems rest

def anchorsOfFields : List (Node Nat × Node Nat) → List (Nat × Node Nat)
  | [] => []
  | (key, v) :: rest => anchors key ++ (anchors v ++ anchorsOfFields rest)

end

mutual

/-- How many steps it takes to walk through a node. -/
def steps : Node Nat → Nat
  | .alias _ | .scalar _ _ => 1
  | .list _ items => stepsOfItems items + 2
  | .record _ fields => stepsOfFields fields + 2

def stepsOfItems : List (Node Nat) → Nat
  | [] => 0
  | node :: rest => steps node + stepsOfItems rest

def stepsOfFields : List (Node Nat × Node Nat) → Nat
  | [] => 0
  | (key, v) :: rest => steps key + (steps v + stepsOfFields rest)

end

end Exploration.Yaml.Node
