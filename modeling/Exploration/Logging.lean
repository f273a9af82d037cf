import Exploration.Text.Numeral
import Exploration.Settings
import Exploration.Text.Words
import Exploration.Text.Lowercase
import Exploration.Time.Rfc3339

/-!
# Logging

Which events a log lets through and which files it writes. What is logged goes to the console, and
into a file as well if there is a directory for it. Words are read whatever their case.
-/

namespace Exploration

namespace Logging

/-- How important an event is, the most important first. -/
inductive Level where
  | error
  | warn
  | info
  | debug
  | trace
  deriving DecidableEq, Repr

/-- When a new log file is begun. -/
inductive Rotation where
  | daily
  | hourly
  | never
  deriving DecidableEq, Repr

/-- A word of the settings that is none of the words it could be. -/
inductive Refusal where
  | level (s : String)
  | format (s : String)
  | rotation (s : String)
  deriving DecidableEq, Repr

def Refusal.message : Refusal → String
  | .level s => "Invalid log level: " ++ s
  | .format s => "Invalid log format: " ++ s
  | .rotation s => "Invalid log rotation: " ++ s

namespace Level

def name : Level → String
  | .error => "ERROR"
  | .warn => "WARN"
  | .info => "INFO"
  | .debug => "DEBUG"
  | .trace => "TRACE"

/-- The number of the level, from 1 for errors. -/
def number : Level → Nat
  | .error => 1
  | .warn => 2
  | .info => 3
  | .debug => 4
  | .trace => 5

end Level

def lowercase (s : String) : String := String.ofList (Text.lowercase s.toList)

def readLevel (s : String) : Except Refusal Level :=
  match lowercase s with
  | "trace" => .ok .trace
  | "debug" => .ok .debug
  | "info" => .ok .info
  | "warn" => .ok .warn
  | "error" => .ok .error
  | _ => .error (.level s)

def checkFormat (s : String) : Except Refusal Unit :=
  match lowercase s with
  | "json" | "pretty" => .ok ()
  | _ => .error (.format s)

def readRotation (s : String) : Except Refusal Rotation :=
  match lowercase s with
  | "daily" => .ok .daily
  | "hourly" => .ok .hourly
  | "never" => .ok .never
  | _ => .error (.rotation s)

/-- A log: the greatest level number it lets through, and when its files begin, if it has files. -/
structure Log where
  threshold : Nat
  files : Option Rotation
  deriving DecidableEq, Repr

/-! ## Overrides -/

/-- The threshold of a word: a level by name or number, or none at all. -/
def threshold? (word : List Char) : Option Nat :=
  match Decimal.ofDigits? word with
  | some n => if n ≤ 5 then some n else none
  | none =>
    ([("off", 0), ("error", 1), ("warn", 2), ("info", 3), ("debug", 4),
      ("trace", 5)] : List (String × Nat)).lookup (String.ofList (word.map Char.toLower))

/-- Whether a part of an override says anything. It does unless its first sign is none of those that
a name may begin with, or there is no level after its equals sign. -/
def saysAnything (part : List Char) : Bool :=
  let level := (part.dropWhile (· ≠ '=')).drop 1
  (Text.trim part).head?.any (fun c => c.isAlphanum || '\u0080' ≤ c || "[-:_".toList.contains c) &&
    (level = [] || (threshold? level).isSome)

/-- The threshold that an override asks for, given that of the settings. Of the levels between its
commas the last one counts. The parts that name something else are about events of a kind that
there are none of, so with them alone nothing gets through. -/
def readOverride (threshold : Nat) (s : String) : Nat :=
  match (Text.split (· = ',') s.toList).filter saysAnything with
  | [] => threshold
  | parts => (parts.filterMap threshold?).getLast?.getD 0

/-- The log of these settings. The rotation counts only if there is a directory, and an override
replaces the level, which must be a level all the same. -/
def start (s : LoggingSettings) (override : Option String) : Except Refusal Log := do
  let level ← readLevel s.level
  checkFormat s.format
  let files ← match s.directory with
    | some _ => (readRotation s.rotation).map some
    | none => .ok none
  return ⟨override.elim level.number (readOverride level.number), files⟩

namespace Log

def passes (l : Log) (level : Level) : Bool := level.number ≤ l.threshold

/-- The file that is written to at this time. -/
def fileName (rotation : Rotation) (now : Time.Instant) : String :=
  let day := Time.writeDate (Time.Date.ofNumber (now.seconds / 86400))
  let hour := Decimal.padded 2 (now.secondOfDay / 3600).toNat
  let ending := match rotation with
    | .daily => '.' :: day
    | .hourly => '.' :: (day ++ '-' :: hour)
    | .never => []
  "footprint.log" ++ String.ofList ending

/-- The event with which a log begins. -/
def first : Level := .info

/-- The levels that get through of the first event and of those after it. -/
def output (l : Log) (events : List Level) : List Level := (first :: events).filter l.passes

end Log

end Logging

end Exploration
