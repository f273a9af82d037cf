import Exploration.Yaml.Token

/-!
# YAML nodes

The tree of scalars, lists and records in the tokens of a text, with their tags in full. What is
left out is an empty scalar. A text holds one document, which may have marks before and after it.
-/

namespace Exploration.Yaml

/-- What stands before a node. Anchors are names of type `α`. -/
structure Properties (α : Type) where
  anchor : Option α := none
  tag : Option Octets := none

inductive Node (α : Type) where
  /-- The node that has this anchor. -/
  | alias (anchor : α)
  | scalar (p : Properties α) (s : Scalar)
  | list (p : Properties α) (items : List (Node α))
  | record (p : Properties α) (fields : List (Node α × Node α))

namespace Node

def empty {α : Type} : Node α := .scalar {} (.plain [])

/-! ## Properties -/

/-- What the handles of tags stand for. -/
abbrev Handles := List (String × Octets)

/-- What the handles stand for that no directive speaks of. -/
def standardHandles : Handles := [("!", octets "!"), ("!!", octets "tag:yaml.org,2002:")]

def fullTag (handles : Handles) (t : ShortTag) : Option Octets :=
  if t.handle = "" then some t.rest else (handles.lookup t.handle).map (· ++ t.rest)

/-- The tag and the anchor before a node, in either order. -/
def properties (handles : Handles) : List Token → Option (Properties String × List Token)
  | .anchor a :: .tag t :: rest | .tag t :: .anchor a :: rest =>
    (fullTag handles t).map fun tag => (⟨some a, some tag⟩, rest)
  | .anchor a :: rest => some (⟨some a, none⟩, rest)
  | .tag t :: rest => (fullTag handles t).map fun tag => (⟨none, some tag⟩, rest)
  | rest => some ({}, rest)

/-- Properties without a node belong to an empty one. -/
def ofProperties (p : Properties String) : Option (Node String) :=
  if p.anchor.isNone && p.tag.isNone then none else some (.scalar p (.plain []))

/-! ## Nodes -/

/-- What follows the comma that has to come before all but the first item. -/
def afterComma (first : Bool) (ts : List Token) : Option (List Token) :=
  if first then some ts
  else
    match ts with
    | .comma :: rest => some rest
    | _ => none

mutual

/-- The node at the head of the tokens, and what follows it. `byIndent` says that lists and records
by indentation may come, and `afterKey` that a list may come whose dashes stand below its key. Each
step down takes one of `fuel`. -/
def read (handles : Handles) :
    Nat → (byIndent afterKey : Bool) → List Token → Option (Node String × List Token)
  | 0, _, _, _ => none
  | _, _, _, .alias name :: rest => some (.alias name, rest)
  | fuel + 1, byIndent, afterKey, ts => do
    let (p, ts) ← properties handles ts
    match ts, byIndent, afterKey with
    | .scalar s :: rest, _, _ => some (.scalar p s, rest)
    | .listOpen :: rest, _, _ =>
      (readItems handles fuel true rest).map fun (items, rest) => (.list p items, rest)
    | .recordOpen :: rest, _, _ =>
      (readFields handles fuel true rest).map fun (fields, rest) => (.record p fields, rest)
    | .listStart :: rest, true, _ =>
      (readBlockItems handles fuel rest).map fun (items, rest) => (.list p items, rest)
    | .recordStart :: rest, true, _ =>
      (readBlockFields handles fuel rest).map fun (fields, rest) => (.record p fields, rest)
    | .dash :: rest, _, true =>
      (readDashes handles fuel (.dash :: rest)).map fun (items, rest) => (.list p items, rest)
    | rest, _, _ => (ofProperties p).map (·, rest)

/-- The items of a list by indentation up to its end. -/
def readBlockItems (handles : Handles) : Nat → List Token → Option (List (Node String) × List Token)
  | 0, _ => none
  | fuel + 1, .dash :: rest => do
    let (item, rest) ← match rest with
      | .dash :: _ | .blockEnd :: _ => some (empty, rest)
      | _ => read handles fuel true false rest
    (readBlockItems handles fuel rest).map fun (items, rest) => (item :: items, rest)
  | _, .blockEnd :: rest => some ([], rest)
  | _, _ => none

/-- The items of a list whose dashes stand below its key. It ends with the last of them. -/
def readDashes (handles : Handles) : Nat → List Token → Option (List (Node String) × List Token)
  | 0, _ => none
  | fuel + 1, .dash :: rest => do
    let (item, rest) ← match rest with
      | .dash :: _ | .key :: _ | .value :: _ | .blockEnd :: _ => some (empty, rest)
      | _ => read handles fuel true false rest
    (readDashes handles fuel rest).map fun (items, rest) => (item :: items, rest)
  | _, rest => some ([], rest)

/-- The key or the value of a field by indentation. -/
def readBlockPart (handles : Handles) : Nat → List Token → Option (Node String × List Token)
  | 0, _ => none
  | fuel + 1, ts =>
    match ts with
    | .key :: _ | .value :: _ | .blockEnd :: _ => some (empty, ts)
    | _ => read handles fuel true true ts

/-- The fields of a record by indentation up to its end. -/
def readBlockFields (handles : Handles) :
    Nat → List Token → Option (List (Node String × Node String) × List Token)
  | 0, _ => none
  | fuel + 1, .key :: rest => do
    let (key, rest) ← readBlockPart handles fuel rest
    let (v, rest) ← match rest with
      | .value :: rest => readBlockPart handles fuel rest
      | _ => some (empty, rest)
    (readBlockFields handles fuel rest).map fun (fields, rest) => ((key, v) :: fields, rest)
  | _, .blockEnd :: rest => some ([], rest)
  | _, _ => none

/-- The value of a field in brackets, which may be left out. -/
def readValue (handles : Handles) : Nat → List Token → Option (Node String × List Token)
  | 0, _ => none
  | fuel + 1, ts =>
    match ts with
    | .value :: .comma :: rest => some (empty, .comma :: rest)
    | .value :: .listClose :: rest => some (empty, .listClose :: rest)
    | .value :: .recordClose :: rest => some (empty, .recordClose :: rest)
    | .value :: rest => read handles fuel false false rest
    | _ => some (empty, ts)

/-- The items of a list in brackets up to its end; all but the first come after a comma. A field
among them is a record of its own, and where its key is left out, the next token is so too. -/
def readItems (handles : Handles) :
    Nat → (first : Bool) → List Token → Option (List (Node String) × List Token)
  | 0, _, _ => none
  | _, _, .listClose :: rest => some ([], rest)
  | fuel + 1, first, ts => do
    match ← afterComma first ts with
    | .listClose :: rest => some ([], rest)
    | .key :: rest =>
      let (key, rest) ← match rest with
        | .value :: rest | .comma :: rest | .listClose :: rest => some (empty, rest)
        | _ => read handles fuel false false rest
      let (v, rest) ← readValue handles fuel rest
      (readItems handles fuel false rest).map fun (items, rest) =>
        (.record {} [(key, v)] :: items, rest)
    | ts =>
      let (item, rest) ← read handles fuel false false ts
      (readItems handles fuel false rest).map fun (items, rest) => (item :: items, rest)

/-- The fields of a record in brackets up to its end; all but the first come after a comma. -/
def readFields (handles : Handles) :
    Nat → (first : Bool) → List Token → Option (List (Node String × Node String) × List Token)
  | 0, _, _ => none
  | _, _, .recordClose :: rest => some ([], rest)
  | fuel + 1, first, ts => do
    match ← afterComma first ts with
    | .recordClose :: rest => some ([], rest)
    | .key :: rest =>
      let (key, rest) ← match rest with
        | .value :: _ | .comma :: _ | .recordClose :: _ => some (empty, rest)
        | _ => read handles fuel false false rest
      let (v, rest) ← readValue handles fuel rest
      (readFields handles fuel false rest).map fun (fields, rest) => ((key, v) :: fields, rest)
    | ts =>
      let (key, rest) ← read handles fuel false false ts
      (readFields handles fuel false rest).map fun (fields, rest) => ((key, empty) :: fields, rest)

end

/-! ## Documents -/

/-- The handles that the directives before a document speak of, each once, and what follows them.
`versioned` says that the version has been given, which can only be one of two. -/
def readDirectives (versioned : Bool) (handles : Handles) :
    List Token → Option (Handles × List Token)
  | .directive (.version major minor) :: rest =>
    if !versioned && major = 1 && (minor = 1 || minor = 2) then readDirectives true handles rest
    else none
  | .directive (.handle name start) :: rest =>
    if (handles.lookup name).isNone then readDirectives versioned ((name, start) :: handles) rest
    else none
  | rest => some (handles ++ standardHandles, rest)

/-- The node of a document. A list or field pays for the steps down to it and within it. -/
def readRoot (handles : Handles) (ts : List Token) : Option (Node String × List Token) :=
  read handles (4 * ts.length + 4) true false ts

/-- The node of a document after its mark, where it may be left out. -/
def readMarked (handles : Handles) (ts : List Token) : Option (Node String × List Token) :=
  match ts with
  | [] | .directive _ :: _ | .documentStart :: _ | .documentEnd :: _ => some (empty, ts)
  | _ => readRoot handles ts

/-- The node of a document and what follows it. Directives need a mark after them. -/
def readDocument (ts : List Token) : Option (Node String × List Token) := do
  match ts with
  | .directive _ :: _ | .documentStart :: _ =>
    match ← readDirectives false [] ts with
    | (handles, .documentStart :: rest) => readMarked handles rest
    | _ => none
  | _ => readRoot standardHandles ts

/-- The node of the only document, an empty one if there is none. -/
def ofTokens? (ts : List Token) : Option (Node String) :=
  if ts.isEmpty then some empty
  else
    (readDocument ts).bind fun (node, rest) =>
      if rest.all (· matches .documentEnd) then some node else none

end Node

end Exploration.Yaml
