import PatternPages.Error
import PatternPages.Properties

/-! The configuration of a mining run: which documents hold the patterns and the matches and, for a run on two classes,
which directories hold the two corpora. -/
namespace PatternPages

/-- The inputs of a run on one class, or on an old and a new one. -/
inductive Mode where
  | oneClass (found : Text)
  | twoClass (oldMatches newMatches oldInputs newInputs : Text)
  deriving DecidableEq

/-- File names only; the directories of the recorded paths are dropped. -/
structure Configuration where
  patterns : Text
  mode : Mode
  deriving DecidableEq

namespace Configuration

/-- The keys of the mode in the order of its parts. -/
def modeKeys (twoClass : Bool) : List Text :=
  if twoClass then ["outputMatches1", "outputMatches2", "inputFiles1", "inputFiles2"].map String.toList
  else ["outputMatches".toList]

def recordKeys : List Text := "2Class".toList :: "outputPath".toList :: (modeKeys false ++ modeKeys true)

/-- Reads entries into the record of the known keys. A known key must not come twice; other keys are passed over. -/
def readRecord (record : Properties.Entries) : List (Text × Text) → Except Text Properties.Entries
  | [] => .ok record
  | (key, value) :: rest =>
    if recordKeys.contains key then
      if record.contains key then .error key else readRecord (record.insert key value) rest
    else readRecord record rest

def value (entries : Properties.Entries) (key : Text) : Text := (entries.get? key).getD []

def required (entries : Properties.Entries) (key : Text) : Except ConfigurationProblem Text :=
  match lastName (value entries key) with
  | [] => .error (.missing key)
  | name => .ok name

def isTwoClass (entries : Properties.Entries) : Except ConfigurationProblem Bool :=
  let setting := (Text.trim (value entries "2Class".toList)).map Char.toLower
  if setting = "true".toList then .ok true
  else if setting = "false".toList || setting = [] then .ok false
  else .error (.unknownClass setting)

def readMode (entries : Properties.Entries) : Except ConfigurationProblem Mode := do
  if ← isTwoClass entries then
    let oldMatches ← required entries "outputMatches1".toList
    let newMatches ← required entries "outputMatches2".toList
    let oldInputs ← required entries "inputFiles1".toList
    let newInputs ← required entries "inputFiles2".toList
    return .twoClass oldMatches newMatches oldInputs newInputs
  else
    return .oneClass (← required entries "outputMatches".toList)

/-- The configuration that some entries describe. -/
def ofEntries (entries : Properties.Entries) : Except ConfigurationProblem Configuration := do
  let mode ← readMode entries
  return ⟨← required entries "outputPath".toList, mode⟩

def parse (source : Text) : Except ConfigurationProblem Configuration :=
  match readRecord OrderedMap.empty (Properties.parse source).toList with
  | .error key => .error (.repeated key)
  | .ok record => ofEntries record

def extensions : List Text := ["properties".toList, "conf".toList]

def isConfigurationName (name : Text) : Bool :=
  match (Path.mk name).extension with
  | some extension => extensions.contains extension
  | none => false

/-- The first name of a configuration file among `names`, in the order of names. -/
def firstName? (names : List Text) : Option Text :=
  (names.filter isConfigurationName).foldl
    (fun first name =>
      match first with
      | none => some name
      | some other => some (if name < other then name else other))
    none

end Configuration

end PatternPages
