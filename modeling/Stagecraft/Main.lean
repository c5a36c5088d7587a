import Std.Time.DateTime.Timestamp
import Stagecraft.Command

/-!
The program on the command line. A plan is carried out here on real files; all else is decided by
the commands. What comes from the world outside is taken in as texts, and texts go out as their
characters.
-/

namespace Stagecraft

namespace Plan

/-- An answer of the system, or why a path cannot be used. Other errors end the program. -/
def attempt {α : Type} (action : IO α) : IO (Except PathFault α) := do
  try
    return .ok (← action)
  catch error =>
    match error with
    | .noFileOrDirectory _ _ _ => return .error .absent
    | .alreadyExists _ _ _ => return .error .present
    | .inappropriateType _ code _ =>
      return .error (if code = 21 then .isDirectory else .notDirectory)
    | .invalidArgument _ 36 _ => return .error .tooLong
    | _ => throw error

/-- A path as a place in the file system. -/
def entryAt (path : String) : IO.FS.DirEntry := ⟨".", toCharacters path⟩

def lookUp (path : String) : IO (Option NodeKind) := do
  if path = "" then return none
  if ← (entryAt path).path.isDir then return some .directory
  if ← (entryAt path).path.pathExists then return some .file
  return none

/-- Makes the directories along the rest of a path, below what is there already. -/
def makeBelow (above : String) : List String → IO (Except PathFault Unit)
  | [] => return .ok ()
  | segment :: rest => do
    let path := Path.join above segment
    match ← lookUp path with
    | some .directory => makeBelow path rest
    | some .file => return .error (if rest.all (· == "") then .present else .notDirectory)
    | none =>
      if segment = "" then makeBelow path rest
      else
        match ← attempt (IO.FS.createDir (entryAt path).path) with
        | .ok () => makeBelow path rest
        | .error fault => return .error fault

def makeDirectories (path : String) : IO (Except PathFault Unit) :=
  if path = "" then return .error .absent
  else makeBelow (if startsWith path "/" then "/" else "") (Path.segments path)

def appendTo (path text : String) : IO Unit := do
  (← IO.FS.Handle.mk (entryAt path).path .append).putStr (toCharacters text)

def now : IO Moment := do
  return ⟨((← Std.Time.Timestamp.now).toNanosecondsSinceUnixEpoch.val / 1000).toNat⟩

def fulfil : (request : Request) → IO request.Answer
  | .find path => lookUp path
  | .read path => attempt do return ofCharacters (← IO.FS.readFile (entryAt path).path)
  | .write path text => attempt (IO.FS.writeFile (entryAt path).path (toCharacters text))
  | .append path text => attempt (appendTo path text)
  | .names path => attempt do
    return (← (entryAt path).path.readDir).toList.map fun entry => ofCharacters entry.fileName
  | .makeDirectories path => makeDirectories path
  | .print text => IO.print (toCharacters text)
  | .now => now

/-- Carries a plan out on the real world. -/
def carryOut {α : Type} : Plan α → IO α
  | done value => return value
  | ask request next => do (next (← fulfil request)).carryOut

end Plan

/-- The settings that the environment gives. -/
def environmentSettings : IO Settings := do
  let given ← Settings.variableNames.filterMapM fun name => do
    return (← IO.getEnv name).map fun value => (name, ofCharacters value)
  return Settings.ofEnvironment given

end Stagecraft

open Stagecraft

/-- The exit code tells of success, of a fault, or of a command line that cannot be read. -/
def main (arguments : List String) : IO UInt32 := do
  let settings ← environmentSettings
  let arguments := arguments.map ofCharacters
  let chooser := Chooser.at (← IO.rand 0 1000000)
  if readCommandLine arguments matches .error .misuse then IO.eprint Help.usage
  match ← (Command.execute chooser settings arguments).run.carryOut with
  | .ok code => return code.toUInt32
  | .error fault => do
    IO.eprintln (toCharacters s!"error: {fault.message}")
    return 1
