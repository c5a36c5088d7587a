import Stagecraft.Fault
import Stagecraft.Path

/-!
A tree of files and directories under a working directory. Above it and at the root of all paths
there are directories too, but what lies there is not listed.
-/

namespace Stagecraft

inductive Node where
  | file (text : String)
  | directory
  deriving DecidableEq, Repr

/-- Where a node is: the names from the working directory down. -/
abbrev Place := List String

/-- The working directory is a directory without an entry of its own. -/
structure Disk where
  nodes : List (Place × Node)

namespace Disk

/-- The most bytes of a name, and of a path. -/
def nameLimit : Nat := 255

def pathLimit : Nat := 4095

/-- The most directories that can be made at once. -/
def depthLimit : Nat := 990

def empty : Disk := ⟨[]⟩

def root : Place := ["/"]

/-- The working directory and those above it. -/
def isAbove (place : Place) : Bool := place.all (· == "..")

def node? (disk : Disk) (place : Place) : Option Node :=
  if isAbove place || place == root then some .directory else disk.nodes.lookup place

/-- Puts a node at a place, whatever was there. -/
def put (disk : Disk) (place : Place) (node : Node) : Disk :=
  ⟨(place, node) :: disk.nodes.filter (·.1 != place)⟩

/-- Where a segment leads from a directory. -/
def follow (place : Place) (segment : String) : Place :=
  if segment = "" || segment = "." then place
  else if segment = ".." then
    if isAbove place then place ++ [".."] else if place = root then root else place.dropLast
  else place ++ [segment]

/-- Where a path begins. -/
def start (path : String) : Place := if startsWith path "/" then root else []

def requireDirectory (disk : Disk) (place : Place) : Except PathFault Unit :=
  match disk.node? place with
  | some .directory => .ok ()
  | some (.file _) => .error .notDirectory
  | none => .error .absent

/-- Follows segments, each from a directory; there may be nothing at the end. -/
def walk (disk : Disk) (place : Place) : List String → Except PathFault Place
  | [] => .ok place
  | segment :: rest => do
    disk.requireDirectory place
    if nameLimit < Path.byteCount segment then throw .tooLong
    disk.walk (follow place segment) rest

/-- Why a text is no part of any path. -/
def textFault? (text : String) : Option PathFault :=
  if !(codes text.toList).all Path.hasBytes then some .holdsHalf
  else if text.toList.contains '\x00' then some .holdsNul
  else none

/-- Refuses a path that leads nowhere, whatever is there. -/
def requirePath (path : String) : Except PathFault Unit :=
  match textFault? path with
  | some fault => .error fault
  | none =>
    if path = "" then .error .absent
    else if pathLimit < Path.byteCount path then .error .tooLong
    else .ok ()

def locate (disk : Disk) (path : String) : Except PathFault Place := do
  requirePath path
  disk.walk (start path) (Path.segments path)

/-- What is at a path. -/
def find? (disk : Disk) (path : String) : Option Node :=
  match disk.locate path with
  | .ok place => disk.node? place
  | .error _ => none

def read (disk : Disk) (path : String) : Except PathFault String := do
  let place ← disk.locate path
  match disk.node? place with
  | some (.file text) => return text
  | some .directory => throw .isDirectory
  | none => throw .absent

/-- The segments in front of the last name of a path. -/
def leadingSegments (path : String) : List String :=
  ((Path.segments path).reverse.dropWhile (· == "")).tail.reverse

/-- Where a file can be put. At a path that ends with a slash there can only be a directory. -/
def placeForFile (disk : Disk) (path : String) : Except PathFault Place := do
  if endsWith path "/" then
    requirePath path
    disk.requireDirectory (← disk.walk (start path) (leadingSegments path))
    throw .isDirectory
  else
    let place ← disk.locate path
    if disk.node? place == some .directory then throw .isDirectory
    return place

def write (disk : Disk) (path text : String) : Except PathFault Disk := do
  return disk.put (← disk.placeForFile path) (.file text)

/-- Adds to the end of a file, which need not be there before. -/
def append (disk : Disk) (path text : String) : Except PathFault Disk := do
  let place ← disk.placeForFile path
  match disk.node? place with
  | some (.file before) => return disk.put place (.file (before ++ text))
  | _ => return disk.put place (.file text)

/-- The names in a directory. -/
def names (disk : Disk) (path : String) : Except PathFault (List String) := do
  let place ← disk.locate path
  disk.requireDirectory place
  return disk.nodes.filterMap fun (other, _) =>
    if other.dropLast = place then other.getLast? else none

/-- What hinders going on from a file along the rest of a path. -/
def faultBehindFile (rest : List String) : PathFault :=
  match rest.find? (· != "") with
  | none => .present
  | some segment => (textFault? segment).getD .notDirectory

/-- Why no directory can be made for a segment whose end lies `size` bytes into its path. -/
def segmentFault? (segment : String) (size : Nat) : Option PathFault :=
  match textFault? segment with
  | some fault => some fault
  | none =>
    if nameLimit < Path.byteCount segment || pathLimit < size then some .tooLong else none

/-- Makes the directories along a path that are not there; `before` counts the bytes of the path up
to here. Those made before a fault stay. -/
def makeAlong (disk : Disk) (place : Place) (before : Nat) :
    List String → Disk × Except PathFault Unit
  | [] => (disk, .ok ())
  | segment :: rest =>
    let next := follow place segment
    let size := before + Path.byteCount segment
    let whole := if rest.all (· == "") then size + rest.length else size
    match segmentFault? segment whole, disk.node? next with
    | some fault, _ => (disk, .error fault)
    | none, some .directory => disk.makeAlong next (size + 1) rest
    | none, some (.file _) => (disk, .error (faultBehindFile rest))
    | none, none => (disk.put next .directory).makeAlong next (size + 1) rest

/-- How many names stand behind the part of a path that is there. -/
def missingAlong (disk : Disk) (place : Place) : List String → Nat
  | [] => 0
  | segment :: rest =>
    let next := follow place segment
    if disk.node? place == some .directory && (disk.node? next).isSome then
      disk.missingAlong next rest
    else (segment :: rest).countP (· != "")

def makeDirectories (disk : Disk) (path : String) : Disk × Except PathFault Unit :=
  let segments := Path.segments path
  if path = "" then (disk, .error .absent)
  else if depthLimit < disk.missingAlong (start path) segments then (disk, .error .tooDeep)
  else disk.makeAlong (start path) 0 segments

/-- Puts a file on a disk, with the directories on the way to it. -/
def addFile (disk : Disk) (path text : String) : Disk × Except PathFault Unit :=
  let directory := Path.parent path
  let (made, done) := if directory = "" then (disk, .ok ()) else disk.makeDirectories directory
  match done.bind fun _ => made.write path text with
  | .ok written => (written, .ok ())
  | .error fault => (made, .error fault)

/-- The files in the working directory by path. -/
def files (disk : Disk) : List (String × String) :=
  disk.nodes.filterMap fun
    | (place, .file text) =>
      if isAbove (place.take 1) || place.take 1 == root then none
      else some (Stagecraft.join "/" place, text)
    | (_, .directory) => none

end Disk

end Stagecraft
