import Exploration.Decimal.Layout
import Exploration.Text.Lowercase
import Exploration.Text.PrintTable

/-!
# Failures

Why an operation on an archive or a run of a cycle failed, and the words for it. A message shows a
name in double quotes, and what cannot be printed on its own is given by its number.
-/

namespace Exploration

/-- What a name that is to be part of a path names. -/
inductive NamedPart where
  | subject
  | runId
  deriving DecidableEq, Repr

inductive Failure where
  /-- The storage failed, for reasons of its own. -/
  | storage
  | versionConflict (version : UInt32)
  | duplicateTrace (runId : String)
  /-- The run itself failed, and says why. -/
  | perceptionFailed (message : String)
  | unusableCost (cost : Float)
  | unusableScore (score : Float)
  | unusableName (part : NamedPart) (name : String)
  | zeroInterval
  deriving DecidableEq

def NamedPart.text : NamedPart → String
  | .subject => "subject"
  | .runId => "run id"

namespace Text

def quotedChar (c : Char) : List Char :=
  if c = '"' then ['\\', '"']
  else if c = '\\' then ['\\', '\\']
  else if c = '\n' then ['\\', 'n']
  else if c = '\t' then ['\\', 't']
  else if c = '\r' then ['\\', 'r']
  else if c = '\x00' then ['\\', '0']
  else if inRanges unprintedRanges c then
    '\\' :: 'u' :: '\x7b' :: (Nat.toDigits 16 c.toNat ++ ['\x7d'])
  else [c]

def quoted (s : String) : String :=
  String.ofList ('"' :: (s.toList.flatMap quotedChar ++ ['"']))

end Text

namespace Failure

/-- The words for a failure; those for a failure of the storage are not known here. -/
def message? : Failure → Option String
  | .storage => none
  | .versionConflict version =>
    some ("Strategy version " ++ toString version.toNat ++ " already exists for this subject")
  | .duplicateTrace runId => some ("Trace already archived: " ++ runId)
  | .perceptionFailed message => some ("Perception run failed: " ++ message)
  | .unusableCost cost =>
    some ("Invalid perception outcome: cost must be a non-negative number, got " ++
      Decimal.plainText cost)
  | .unusableScore score =>
    some ("Invalid perception outcome: profile score must be finite, got " ++
      Decimal.plainText score)
  | .unusableName part name =>
    some ("Validation failed: " ++ part.text ++ " is not usable as a file name: " ++
      Text.quoted name)
  | .zeroInterval => some "Validation failed: evolve_every_n must be at least 1"

end Failure

end Exploration
