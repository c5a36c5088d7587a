import Stagecraft.Tally
import Stagecraft.Text.Scan

/-!
Paths as texts: segments with slashes between them, and the bytes a path takes.
-/

namespace Stagecraft.Path

/-- The last segment; empty when the path ends with a slash. -/
def name (path : String) : String :=
  String.ofList (path.toList.reverse.takeWhile (· != '/')).reverse

/-- What stands in front of the last segment, without slashes at its end unless it has nothing
else. -/
def parent (path : String) : String :=
  let head := path.toList.reverse.dropWhile (· != '/')
  match head.dropWhile (· == '/') with
  | [] => String.ofList head
  | kept => String.ofList kept.reverse

/-- A path that begins with a slash stands on its own. -/
def join (directory path : String) : String :=
  if startsWith path "/" then path
  else if directory = "" || endsWith directory "/" then directory ++ path
  else directory ++ "/" ++ path

/-- A name without its last extension. Dots in front belong to the name. -/
def stem (name : String) : String :=
  match name.toList.reverse.dropWhile (· != '.') with
  | [] => name
  | _ :: before => if before.all (· == '.') then name else String.ofList before.reverse

def segments (path : String) : List String := cut "/" path

/-- Halves of pairs that stand for single bytes beyond the first 128. -/
def isByteHalf (code : Nat) : Bool := 0xdc80 ≤ code && code ≤ 0xdcff

def codeBytes (code : Nat) : Nat :=
  if code < 0x80 || isByteHalf code then 1
  else if code < 0x800 then 2
  else if code < 0x10000 then 3
  else 4

def byteCount (text : String) : Nat := sumOf codeBytes (codes text.toList)

/-- A code that can stand for bytes. -/
def hasBytes (code : Nat) : Bool := !isSurrogate code || isByteHalf code

end Stagecraft.Path
