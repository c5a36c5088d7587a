import Stagecraft.Json.Merge
import Stagecraft.Json.Reader
import Stagecraft.Plan

/-!
The record of a maintenance run: a log with the time of each message, and a manifest of its steps.
Both lie in the directory of the run, and a run that goes on there adds to them.
-/

namespace Stagecraft

structure RunLog where
  directory : String
  manifest : Entries Json

namespace RunLog

def logPath (run : RunLog) : String := Path.join run.directory "run.log"

def manifestPath (directory : String) : String := Path.join directory "run_manifest.json"

/-- The directory of a run that names none. -/
def freshDirectory (dataRoot label : String) (moment : Moment) : String :=
  Path.join (Path.join dataRoot "runs") (label ++ "-" ++ moment.stamp)

/-- What an earlier run left, if it can be read; what goes beyond a limit is refused. -/
def storedManifest (directory : String) : Shell (Option Json) := do
  let path := manifestPath directory
  if (← Shell.find path).isNone then return none
  match ← tryCatch (some <$> Shell.read path) (fun _ => return none) with
  | none => return none
  | some text =>
    match Json.ofText text with
    | .ok stored => return some stored
    | .error .malformed => return none
    | .error (.beyond limit) => throw (.beyond limit)

/-- Gives a key a value unless it has one. -/
def withDefault (key : String) (value : Json) (entries : Entries Json) : Entries Json :=
  if (entries.lookup key).isSome then entries else entries.put key value

/-- Begins or takes up a run. A manifest that is empty is begun anew, one that is no object is
refused. -/
def start (directory : String) : Shell RunLog := do
  Shell.makeDirectories directory
  let stored ← storedManifest directory
  let label := Json.str (Path.name directory)
  match stored.filter Json.isPresent with
  | some (.obj members) =>
    return ⟨directory, withDefault "steps" (.obj []) (withDefault "run_id" label members)⟩
  | some _ => throw (.misuse .missingPart)
  | none =>
    let moment ← Shell.now
    return ⟨directory, [("run_id", label), ("started_at", .str moment.text), ("steps", .obj [])]⟩

def note (run : RunLog) (message : String) : Shell Unit := do
  let moment ← Shell.now
  Shell.append run.logPath ("[" ++ moment.text ++ "] " ++ message ++ "\n")

/-- Enters what a step did; what was entered for it before is kept under its other keys. What was
entered before a fault stays, but only a whole entry brings the manifest up to date. -/
def enter (run : RunLog) (step : String) (entry : Json) (moment : Moment) :
    RunLog × Except Misuse Unit :=
  match run.manifest.lookup "steps" with
  | some (.obj steps) =>
    match (steps.lookup step).getD (.obj []) with
    | .obj before =>
      let (after, entered) := Json.merge before entry
      let manifest := run.manifest.put "steps" (.obj (Entries.put step (.obj after) steps))
      match entered with
      | .ok () => ({ run with manifest := manifest.put "updated_at" (.str moment.text) }, .ok ())
      | .error cause => ({ run with manifest }, .error cause)
    | _ => (run, .error .missingPart)
  | _ => (run, .error .missingPart)

/-- Writes the manifest. -/
def save (run : RunLog) : Shell Unit :=
  Shell.write (manifestPath run.directory) (Json.write Json.indented (.obj run.manifest))

def enterStep (run : RunLog) (step : String) (entry : Entries Json) : Shell Unit := do
  let moment ← Shell.now
  let (after, entered) := run.enter step (.obj entry) moment
  Shell.ofExcept (liftFault .misuse entered)
  after.save

end RunLog

end Stagecraft
