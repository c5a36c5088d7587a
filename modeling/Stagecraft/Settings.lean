import Stagecraft.Limit
import Stagecraft.Plan
import Stagecraft.Text.Digit

/-!
Settings of the pipeline, with defaults from the environment.
-/

namespace Stagecraft

structure Settings where
  vignettesDir : String
  sourceSuffix : String
  auditCsv : String
  templateModule : String
  maxActionColumns : Int
  shakeClusterLines : Int
  dataRoot : String
  deriving DecidableEq, Repr

/-- Digits with at most one underscore between two of them. -/
def groupedDigits? : List Char → Option (List Char)
  | [] => none
  | [c] => if isDecimalDigit c then some [c] else none
  | c :: '_' :: rest => if isDecimalDigit c then (groupedDigits? rest).map (c :: ·) else none
  | c :: rest => if isDecimalDigit c then (groupedDigits? rest).map (c :: ·) else none

/-- A whole number with an optional sign, between blanks. -/
def wholeNumber? (text : String) : Option Int :=
  let (negative, unsigned) := match stripBlanks text.toList with
    | '-' :: rest => (true, rest)
    | '+' :: rest => (false, rest)
    | rest => (false, rest)
  match groupedDigits? unsigned with
  | none => none
  | some digits =>
    if digitLimit < digits.length then none
    else
      let n : Int := ofDigits digits
      some (if negative then -n else n)

namespace Settings

/-- The names of the variables that settings are taken from. -/
def variableNames : List String :=
  ["VIGNETTES_DIR", "VIGNETTE_SOURCE_SUFFIX", "VIGNETTE_AUDIT_CSV", "VIGNETTE_TEMPLATE_MODULE",
    "VIGNETTE_MAX_ACTION_COLUMNS", "VIGNETTE_SHAKE_CLUSTER_LINES", "DATA_ROOT"]

/-- A variable that holds no number counts as not set. -/
def ofEnvironment (environment : List (String × String)) : Settings :=
  let text (name default : String) := (environment.lookup name).getD default
  let number (name : String) (default : Int) :=
    ((environment.lookup name).bind wholeNumber?).getD default
  { vignettesDir := text "VIGNETTES_DIR" "frontend/src/data/vignettes"
    sourceSuffix := text "VIGNETTE_SOURCE_SUFFIX" ".ts"
    auditCsv := text "VIGNETTE_AUDIT_CSV" "docs/vignette-audit.csv"
    templateModule := text "VIGNETTE_TEMPLATE_MODULE" "movement-templates"
    maxActionColumns := max (number "VIGNETTE_MAX_ACTION_COLUMNS" 100) 1
    shakeClusterLines := max (number "VIGNETTE_SHAKE_CLUSTER_LINES" 3) 0
    dataRoot := text "DATA_ROOT" "data" }

/-- The source files of records in order; none when there is no directory for them. -/
def sourceFiles (settings : Settings) : Shell (List String) := do
  if !(← Shell.isDirectory settings.vignettesDir) then return []
  let names ← Shell.names settings.vignettesDir
  let sources := (names.filter (endsWith · settings.sourceSuffix)).map
    (Path.join settings.vignettesDir)
  return sources.mergeSort codesLe

def zoneFile (settings : Settings) (zone : String) : String :=
  Path.join settings.vignettesDir (zone ++ settings.sourceSuffix)

end Settings

/-- The zone whose records a file holds. -/
def zoneOf (path : String) : String := Path.stem (Path.name path)

end Stagecraft
