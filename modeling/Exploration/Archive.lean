import Exploration.Evolution
import Exploration.Failure
import Exploration.FileTree
import Exploration.Ranking
import Exploration.Strategy.Record
import Exploration.Trace.Record

/-!
# Archives

The history of one subject: its traces and the versions of its strategy. Each record is a file of
its own that is published once and never changed. An archive is what has been loaded of them, and
what has been added since. A strategy file that cannot be loaded still reserves its version.
-/

namespace Exploration

/-! ## Names -/

/-- A name that leads out of its directory, or has no file of its own, is refused. -/
def usableName (name : String) : Bool :=
  !(name = "" || name = "." || name = "..") &&
    name.toList.all fun c => !(c = '/' || c = '\\' || c = '\x00')

def checkName (part : NamedPart) (name : String) : Except Failure Unit :=
  if usableName name then .ok () else .error (.unusableName part name)

def recordEnding : List Char := ".json".toList

/-- What stands between `start` and `ending` in a name that has both. -/
def between? (start ending cs : List Char) : Option (List Char) :=
  if ending.isSuffixOf cs then
    let stem := cs.take (cs.length - ending.length)
    if start.isPrefixOf stem then some (stem.drop start.length) else none
  else none

def traceStart : List Char := "trace_".toList

def strategyStart : List Char := "strategy_v".toList

def traceFile (runId : String) : String :=
  String.ofList (traceStart ++ runId.toList ++ recordEnding)

def strategyFile (version : UInt32) : String :=
  String.ofList (strategyStart ++ Decimal.digits version.toNat ++ recordEnding)

/-- The run id in the name of a trace file. -/
def runIdOfFile? (name : String) : Option String :=
  (between? traceStart recordEnding name.toList).map String.ofList

/-- A version as a file name gives it: digits with or without a plus sign and leading zeros. -/
def readVersion (cs : List Char) : Option UInt32 := do
  let ds := if cs.head? = some '+' then cs.tail else cs
  let n ← Decimal.ofDigits? ds
  if n < UInt32.size then some (.ofNat n) else none

def versionOfFile? (name : String) : Option UInt32 :=
  (between? strategyStart recordEnding name.toList).bind readVersion

/-! ## Order -/

/-- By time, with no timestamp before any, and by run id where the times are equal. -/
def Trace.chronological (a b : Trace) : Bool :=
  match a.parsedTimestamp, b.parsedTimestamp with
  | none, none => a.runId ≤ b.runId
  | none, some _ => true
  | some _, none => false
  | some x, some y => if x.le y then !y.le x || a.runId ≤ b.runId else false

/-! ## Loading -/

/-- A file of a directory: its name, and its text if it has one. -/
abbrev Listing := List (String × Option String)

/-- A trace file holds the trace that its name promises. -/
def storedTrace? (file : String × Option String) : Option Trace := do
  let runId ← runIdOfFile? file.1
  let trace ← Trace.decode (← file.2)
  if trace.runId = runId then some trace else none

/-- A strategy file holds the version that its name promises. -/
def storedStrategy? (file : String × Option String) : Option Strategy := do
  let version ← versionOfFile? file.1
  let strategy ← Strategy.decode (← file.2)
  if strategy.version = version then some strategy else none

/-- The highest version that a file name reserves, whatever is in the file. -/
def reservedVersion (files : Listing) : UInt32 :=
  (files.filterMap fun f => versionOfFile? f.1).foldl max 0

structure Archive where
  subject : String
  /-- The directory of the subject. -/
  directory : Path
  traces : List Trace
  strategies : List Strategy
  /-- The highest version with a file, loadable or not, as far as the archive knows. -/
  reserved : UInt32
  sampling : SamplingSettings

namespace Archive

def traceDirectory (directory : Path) : Path := "traces" :: directory

def strategyDirectory (directory : Path) : Path := "strategies" :: directory

/-- The archive that the files of the two directories make up, in whatever order they are listed. -/
def load (subject : String) (directory : Path) (sampling : SamplingSettings)
    (traceFiles strategyFiles : Listing) : Archive where
  subject := subject
  directory := directory
  traces := (traceFiles.filterMap storedTrace?).mergeSort Trace.chronological
  strategies :=
    (strategyFiles.filterMap storedStrategy?).mergeSort fun a b => a.version ≤ b.version
  reserved := reservedVersion strategyFiles
  sampling := sampling

def listing (t : FileTree) (directory : Path) : Listing :=
  (t.children directory).map fun e =>
    match e.2 with
    | .directory => (e.1, none)
    | .file text => (e.1, text)

/-- Makes the directories of the subject where they are missing, and loads what is in them. -/
def openAt (sampling : SamplingSettings) (root : Path) (subject : String) (t : FileTree) :
    Except Failure Archive × FileTree :=
  match checkName .subject subject with
  | .error e => (.error e, t)
  | .ok () =>
    let directory := subject :: root
    match t.ensureDirectory (traceDirectory directory) with
    | (false, t) => (.error .storage, t)
    | (true, t) =>
      match t.ensureDirectory (strategyDirectory directory) with
      | (false, t) => (.error .storage, t)
      | (true, t) =>
        (.ok (load subject directory sampling (listing t (traceDirectory directory))
          (listing t (strategyDirectory directory))), t)

/-! ## Questions -/

def runCount (a : Archive) : Nat := a.traces.length

def totalCost (a : Archive) : Float := Double.sum (a.traces.map (·.cost))

/-- The strategy with the highest version, the last of several. -/
def latestStrategy? (a : Archive) : Option Strategy :=
  a.strategies.foldl (fun latest s =>
    match latest with
    | some l => if l.version ≤ s.version then some s else some l
    | none => some s) none

/-- The highest version taken, 0 if there is none. -/
def latestVersion (a : Archive) : UInt32 := max (a.latestStrategy?.elim 0 (·.version)) a.reserved

/-- Up to `limit` traces, the newest first. -/
def recentTraces (a : Archive) (limit : Nat) : List Trace :=
  (a.traces.mergeSort fun x y => Trace.chronological y x).take limit

def sampleTraces (a : Archive) (k : Nat) (now : Time.Instant) : List Trace :=
  Ranking.select a.traces k now a.sampling.recencyPenalty

/-- The strategy that all traces of the archive teach, under the next free version it knows of. -/
def evolve (a : Archive) (s : EvolutionSettings) : Strategy :=
  s.evolve a.traces (a.latestVersion + 1)

/-! ## Additions -/

variable {ω : Type}

/-- A trace is kept unless its run id has a file already. -/
def addTrace (publish : Publish ω) (a : Archive) (t : Trace) (w : ω) :
    Except Failure Archive × ω :=
  match checkName .runId t.runId with
  | .error e => (.error e, w)
  | .ok () =>
    match publish (traceFile t.runId :: traceDirectory a.directory) t.encode w with
    | (.created, w) => (.ok { a with traces := a.traces ++ [t] }, w)
    | (.taken, w) => (.error (.duplicateTrace t.runId), w)
    | (.failed, w) => (.error .storage, w)

/-- A strategy is kept if its version is higher than any known and has no file yet. -/
def saveStrategy (publish : Publish ω) (a : Archive) (s : Strategy) (w : ω) :
    Except Failure Archive × ω :=
  if s.version ≤ a.latestVersion then (.error (.versionConflict s.version), w)
  else
    match publish (strategyFile s.version :: strategyDirectory a.directory) s.encode w with
    | (.created, w) =>
      (.ok { a with
        strategies := a.strategies ++ [s]
        reserved := max a.reserved s.version }, w)
    | (.taken, w) => (.error (.versionConflict s.version), w)
    | (.failed, w) => (.error .storage, w)

end Archive

end Exploration
