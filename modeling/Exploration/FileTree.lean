/-!
# File trees

Directories and the files in them, as a finite map from paths. A file is published at once and
only under a name that nothing has, so a file that is there stays as it is.
-/

namespace Exploration

/-- The names on the way to an entry, its own first. -/
abbrev Path := List String

inductive Entry where
  | directory
  /-- A file, with its text if its bytes are one. -/
  | file (text : Option String)
  deriving DecidableEq, Repr

/-- How the attempt to publish a file ended. -/
inductive Publication where
  | created
  /-- Something has the name already. -/
  | taken
  | failed
  deriving DecidableEq, Repr

/-- A way to publish a file with its text in a world `ω`. -/
abbrev Publish (ω : Type) := Path → String → ω → Publication × ω

structure FileTree where
  entries : List (Path × Entry)
  distinct : (entries.map (·.1)).Nodup

namespace FileTree

/-- The tree with nothing in its topmost directory. -/
def empty : FileTree := ⟨[([], .directory)], by simp⟩

def find? (t : FileTree) (path : Path) : Option Entry := t.entries.lookup path

def isDirectory (t : FileTree) (path : Path) : Bool := t.find? path = some .directory

def erase (t : FileTree) (path : Path) : FileTree :=
  ⟨t.entries.filter fun e => e.1 ≠ path, t.distinct.sublist (List.filter_sublist.map _)⟩

/-- The entry takes the place of what the path led to, if it led to anything. -/
def insert (t : FileTree) (path : Path) (e : Entry) : FileTree :=
  ⟨(path, e) :: (t.erase path).entries,
    List.nodup_cons.2 ⟨by simp [erase], (t.erase path).distinct⟩⟩

/-- The entries of a directory by name. -/
def children (t : FileTree) (path : Path) : List (String × Entry) :=
  t.entries.filterMap fun e =>
    match e.1 with
    | name :: parent => if parent = path then some (name, e.2) else none
    | [] => none

/-- A name has at most 255 bytes, and none of them is zero. -/
def nameFits (name : String) : Bool := name.utf8ByteSize ≤ 255 && !name.toList.contains '\x00'

/-- How many bytes the names of a path take up, each with the separator before it. -/
def pathSize : Path → Nat
  | [] => 0
  | name :: parent => pathSize parent + name.utf8ByteSize + 1

/-- A path has at most 4095 bytes, of which fifteen lead to the topmost directory. -/
def pathFits (path : Path) : Bool := pathSize path ≤ 4080

/-- The directory and all above it, made as far as they are missing and can be made. -/
def makeDirectories (t : FileTree) : Path → Bool × FileTree
  | [] =>
    match t.find? [] with
    | some e => (e = .directory, t)
    | none => (true, t.insert [] .directory)
  | name :: parent =>
    match t.makeDirectories parent with
    | (false, t) => (false, t)
    | (true, t) =>
      match t.find? (name :: parent) with
      | some e => (e = .directory, t)
      | none => if nameFits name then (true, t.insert (name :: parent) .directory) else (false, t)

/-- A path that the system could not even be asked for is refused before anything is made. -/
def ensureDirectory (t : FileTree) (path : Path) : Bool × FileTree :=
  if pathFits path && path.all fun name => !name.toList.contains '\x00' then
    t.makeDirectories path
  else (false, t)

def publish : Publish FileTree
  | [], _, t => (.failed, t)
  | name :: parent, text, t =>
    if t.isDirectory parent && nameFits name && pathFits (name :: parent) then
      if (t.find? (name :: parent)).isSome then (.taken, t)
      else (.created, t.insert (name :: parent) (.file (some text)))
    else (.failed, t)

/-- Writes a file, over the one that has its name. -/
def write (t : FileTree) (path : Path) (text : Option String) : Bool × FileTree :=
  match path with
  | [] => (false, t)
  | name :: parent =>
    if t.isDirectory parent && nameFits name && pathFits path && !t.isDirectory path then
      (true, t.insert path (.file text))
    else (false, t)

/-- Removes a file, or a directory with all that is in it. -/
def remove (t : FileTree) (path : Path) : Bool × FileTree :=
  if (t.find? path).isSome then
    (true, ⟨t.entries.filter fun e => !path.isSuffixOf e.1,
      t.distinct.sublist (List.filter_sublist.map _)⟩)
  else (false, t)

end FileTree

end Exploration
