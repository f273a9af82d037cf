import Exploration.Settings.Check
import Exploration.Settings.Record
import Exploration.Settings.Variables
import Exploration.Yaml.Document

/-!
# Settings in layers

Settings come from the defaults, then from two files, then from variables, and each layer covers
those before it field by field. Only what shows in the end has to be readable.
-/

namespace Exploration

namespace Value

mutual

/-- `upper` over `lower`: two records are laid over each other field by field, and anything else
is covered. -/
def cover (upper : Value) (lower : Value) : Value :=
  match upper, lower with
  | .record upper, .record lower => .record (coverFields upper lower)
  | upper, _ => upper

def coverFields : List (String × Value) → List (String × Value) → List (String × Value)
  | [], lower => lower
  | (key, v) :: rest, lower =>
    coverFields rest (updateEntries key (fun old => old.elim v fun old => cover v old) lower)

end

/-- All the layers, each laid over those before it and the first over `lowest`. -/
def coverAll (lowest : Value) (layers : List Value) : Value :=
  layers.foldl (fun lower upper => upper.cover lower) lowest

end Value

namespace Settings

/-- How many settings each section has. -/
def sectionSizes : List (String × Nat) :=
  [("archive", 1), ("cycle", 3), ("evolver", 6), ("sampling", 1), ("logging", 4)]

/-- A section that is written as a list may be longer than it has settings. -/
def cutSection (entry : String × Value) : String × Value :=
  match entry.2, sectionSizes.lookup entry.1 with
  | .list items, some n => (entry.1, .list (items.take n))
  | v, _ => (entry.1, v)

def cutSections : Value → Value
  | .record entries => .record (entries.map cutSection)
  | v => v

/-- The settings that show when these layers are laid over the defaults. -/
def ofLayers (layers : List Value) : Except SettingsError Settings :=
  match read (cutSections ((write ({} : Settings)).sorted.coverAll layers)) with
  | some s => check s
  | none => .error .unreadable

/-- The layer that a file makes; one that is not there sets nothing. -/
def fileLayer (text : Option String) : Except SettingsError Value :=
  match text.elim (some []) Yaml.read with
  | some fields => .ok (Value.record fields).sorted
  | none => .error .unreadable

def ofFile (text : Option String) : Except SettingsError Settings := do
  ofLayers [← fileLayer text]

/-- The one layer that the variables make together. -/
def variableLayer (named : List (String × String)) : Value :=
  Value.coverAll (.record []) (named.filterMap fun v => Variables.setting? v.1 v.2)

/-- The settings from the file of the project, the local file and the variables. -/
def load (project personal : Option String) (named : List (String × String)) :
    Except SettingsError Settings := do
  let project ← fileLayer project
  let personal ← fileLayer personal
  ofLayers [project, personal, variableLayer named]

end Settings

end Exploration
