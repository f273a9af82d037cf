import Exploration.Yaml.Anchor
import Exploration.Yaml.Scalar

/-!
# YAML documents

The record that a text holds. A tag of the standard makes a scalar what it says, any other one makes
it a text, and a tag with a mark puts its node into records along the path that the tag names. There
are bounds on how deep lists and records may be nested and on how often aliases may be followed.
-/

namespace Exploration.Yaml

/-! ## Tags -/

def standardTag (name : String) : Octets := octets "tag:yaml.org,2002:" ++ octets name

/-- The path in a tag after its mark, or the mark itself if it stands alone. -/
def localPath? : Octets → Option String
  | [] => none
  | first :: rest =>
    if [first] = octets "!" then
      let path := if rest = [] then [first] else rest
      String.fromUTF8? ⟨path.toArray⟩
    else none

/-- The value under a tag. -/
def label (tag : Option Octets) (v : Value) : Value :=
  match tag.bind localPath? with
  | some path => v.nest (Value.pathParts path.toList)
  | none => v

/-- A scalar as its tag wants it. -/
def Scalar.tagged? (tag : Octets) (s : Scalar) : Option Value :=
  if tag = standardTag "bool" then (readFlag s.chars).map .flag
  else if tag = standardTag "int" then (readInteger s.chars).map .int
  else if tag = standardTag "float" then (readDouble s.chars).map .double
  else if tag = standardTag "null" then if isNull s.chars then some .null else none
  else if octets "!" <+: tag then some s.value
  else some (.text s.text)

def scalarValue? (tag : Option Octets) (s : Scalar) : Option Value :=
  (tag.elim (some s.value) s.tagged?).map (label tag)

/-! ## Nodes -/

namespace Node

/-- A result that follows aliases, of which so many are left. -/
abbrev Following (α : Type) := StateT Nat Option α

/-- The node that an alias stands for; another node stands for itself. -/
def follow (anchors : List (Nat × Node Nat)) : Node Nat → Following (Node Nat)
  | .alias n => do
    match ← get with
    | 0 => failure
    | left + 1 =>
      set left
      (anchors.lookup n : Option (Node Nat))
  | node => pure node

/-- A key, which has to be a scalar. -/
def keyText (anchors : List (Nat × Node Nat)) (key : Node Nat) : Following String := do
  match ← follow anchors key with
  | .scalar _ s => pure s.text
  | _ => failure

/-- A record with this field is what the field holds. -/
def contentKey : String := "___figment_value_value"

/-- The number of a record, which says nothing about its value. -/
def numberKey : String := "___figment_value_id"

/-- Checks the number of a record: an integer of 64 bits without a path in its tag. -/
def checkNumber (anchors : List (Nat × Node Nat)) (node : Node Nat) : Following Unit := do
  match ← follow anchors node with
  | .scalar p s =>
    guard (p.tag.bind localPath?).isNone
    match scalarValue? p.tag s with
    | some (.int n) => guard (Value.isWord n)
    | _ => failure
  | _ => failure

/-- What a record with these fields is: its last content if it has one. -/
def recordValue (fields : List (String × Value)) : Value :=
  match fields.reverse.lookup contentKey with
  | some content => content
  | none => .record fields

/-- The value of a node in which so many lists and records may be nested. -/
def value (anchors : List (Nat × Node Nat)) : Nat → Node Nat → Following Value
  | 0, node => do
    match ← follow anchors node with
    | .scalar p s => (scalarValue? p.tag s : Option Value)
    | _ => failure
  | depth + 1, node => do
    match ← follow anchors node with
    | .scalar p s => (scalarValue? p.tag s : Option Value)
    | .list p items => return label p.tag (.list (← items.mapM (value anchors depth)))
    | .record p fields =>
      let fields ← fields.mapM fun (key, v) => do
        let key ← keyText anchors key
        if key = numberKey then
          checkNumber anchors v
          return none
        else return some (key, ← value anchors depth v)
      return label p.tag (recordValue (fields.filterMap id))
    | .alias _ => failure

/-- The fields that a document gives, whatever its tag. An empty one gives none. -/
def fields (anchors : List (Nat × Node Nat)) : Node Nat → Following (List (String × Value))
  | .record _ fields =>
    fields.mapM fun (key, v) => do return (← keyText anchors key, ← value anchors 127 v)
  | .scalar _ (.plain []) => pure []
  | _ => failure

end Node

/-- The fields of the record that a text holds, unless it holds anything else. On the way as many
aliases may be followed as make a hundred for each step through the text. -/
def read (s : String) : Option (List (String × Value)) := do
  let (_, root) ← (← Node.ofTokens? (← tokens? (← glyphs? s))).numbered []
  let (fields, _) ← (root.fields root.anchors.reverse).run (100 * root.steps)
  return fields

end Exploration.Yaml
