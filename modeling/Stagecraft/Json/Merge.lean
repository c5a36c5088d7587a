import Stagecraft.Fault
import Stagecraft.Json

/-!
Merging a value into the members of an object: the members of another object, or pairs of a key and
a value.
-/

namespace Stagecraft.Json

/-- The key that a single value becomes. -/
def key : Json → Except Misuse String
  | null => .ok "null"
  | bool truth => .ok (if truth then "true" else "false")
  | int n => .ok (toString n)
  | float x => .ok (floatStyle.text x)
  | str text => .ok text
  | arr _ | obj _ => .error .wrongKind

/-- What iterating over a value gives: items, letters or keys. -/
def parts : Json → Except Misuse (List Json)
  | arr items => .ok items
  | str text => .ok ((letters text).map str)
  | obj members => .ok (members.map fun member => str member.1)
  | _ => .error .wrongKind

def pair (value : Json) : Except Misuse (String × Json) := do
  match ← parts value with
  | [first, second] => return (← key first, second)
  | _ => throw .wrongSize

/-- The pairs in front of the first fault are merged. -/
def mergePairs (members : Entries Json) : List Json → Entries Json × Except Misuse Unit
  | [] => (members, .ok ())
  | value :: rest =>
    match pair value with
    | .ok (key, value) => mergePairs (members.put key value) rest
    | .error cause => (members, .error cause)

def merge (members : Entries Json) : Json → Entries Json × Except Misuse Unit
  | obj more => (members.putAll more, .ok ())
  | value =>
    match parts value with
    | .ok pairs => mergePairs members pairs
    | .error cause => (members, .error cause)

theorem merge_obj (members more : Entries Json) :
    merge members (obj more) = (members.putAll more, .ok ()) := rfl

end Stagecraft.Json
