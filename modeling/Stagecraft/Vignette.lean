import Stagecraft.Directive.Table
import Stagecraft.Literal.Reader
import Stagecraft.Record.Location

/-!
Vignettes as they are read from records: what describes them, and their steps with every known
directive expanded.
-/

namespace Stagecraft

/-- `unresolved` names what stands in the record and could not be turned into steps. -/
structure Vignette where
  id : String
  tier : String
  promptScore : String
  description : String
  trigger : Fields
  feedback : Fields
  steps : List Step
  unresolved : List String

/-- Steps read from one element, and the names of what could not be resolved in it. -/
structure Reading where
  steps : List Step
  unresolved : List String

namespace Reading

def nothing : Reading := ⟨[], []⟩

def followedBy (first second : Reading) : Reading :=
  ⟨first.steps ++ second.steps, first.unresolved ++ second.unresolved⟩

end Reading

namespace Value

/-- The name of a name or a call, and otherwise the kind of the value. -/
def nameOrKind : Value → String
  | name id | call id _ => id
  | value => value.kind

/-- The items of a list; a value of another kind has none and goes on record. -/
def itemsOrName (value : Option Value) : List Value × List String :=
  match value.bind present? with
  | none => ([], [])
  | some (list items) => (items, [])
  | some other => ([], [other.nameOrKind])

/-- A delay as a double; what is no number is no delay. -/
def asDelay : Option Value → Except Misuse Float
  | some (bool truth) => .ok (if truth then 1.0 else 0.0)
  | some (int n) => (floatOfInt? n).elim (.error .tooLarge) .ok
  | some (float x) => .ok x
  | _ => .ok 0.0

/-- The objects among the items, as plain data. -/
def plainObjects (items : List Value) : List Fields :=
  items.filterMap fun
    | object entries => some (plainEntries entries)
    | _ => none

/-- A step written out as an object. -/
def readObject (entries : Fields) : Except Misuse Reading := do
  let (items, unresolved) := itemsOrName (Fields.get? entries "parallel")
  let delay ← asDelay (Fields.get? entries "delayAfter")
  return ⟨[⟨plainObjects items, .float delay, none⟩], unresolved⟩

/-- A spread call of a directive. A call that the directive refuses, or whose list lacks a member,
stays unresolved. -/
def readCall (id : String) (args : List Value) : Except Misuse Reading :=
  match expand id (args.map plain) with
  | .ok (some steps) => .ok ⟨steps, []⟩
  | .ok none | .error .wrongKind | .error .outOfRange => .ok ⟨[], [id]⟩
  | .error cause => .error cause

/-- The steps an element of a steps array stands for. -/
def readElement : Value → Except Misuse Reading
  | object entries => readObject entries
  | spread (call id args) => readCall id args
  | spread (name id) => .ok ⟨[], [id]⟩
  | _ => .ok .nothing

def readElements : List Value → Except Misuse Reading
  | [] => .ok .nothing
  | element :: rest => do
    let first ← readElement element
    let others ← readElements rest
    return first.followedBy others

/-- The text of a field that is present, and otherwise nothing. -/
def fieldText (fields : Fields) (key : String) : String :=
  ((Fields.get? fields key).bind present?).elim "" (·.plain.text)

/-- The entries of an object as plain data; anything else has none. -/
def objectField (fields : Fields) (key : String) : Fields :=
  match Fields.get? fields key with
  | some (object entries) => plainEntries entries
  | _ => []

end Value

/-- The vignette an object describes. -/
def Vignette.ofFields (fields : Fields) : Except Misuse Vignette := do
  let (elements, unresolved) := Value.itemsOrName (Fields.get? fields "steps")
  let reading ← Value.readElements elements
  return {
    id := (Fields.get? fields "id").elim "" (·.plain.text)
    tier := Value.fieldText fields "tier"
    promptScore := Value.fieldText fields "promptScore"
    description := Value.fieldText fields "description"
    trigger := Value.objectField fields "trigger"
    feedback := Value.objectField fields "feedback"
    steps := reading.steps
    unresolved := unresolved ++ reading.unresolved }

def Vignette.ofValue : Value → Except Misuse Vignette
  | .object fields => ofFields fields
  | _ => .error .missingPart

/-- All actions in order. -/
def Vignette.actions (vignette : Vignette) : List Action := vignette.steps.flatMap (·.actions)

/-- The text of a record from its opening brace on. -/
def recordText (lines : String) : String :=
  String.ofList (lines.toList.dropWhile (· != '\x7b'))

/-- Reads the vignette at a location; a text that is no object describes nothing. -/
def readRecord (buffer : Buffer) (location : Location) : Except Fault Vignette := do
  liftFault .stale (buffer.require location.record)
  let value ← liftFault .ofRead (readLiteral (recordText (buffer.spanText location.record)))
  match value with
  | .object fields => liftFault .misuse (Vignette.ofFields fields)
  | _ => liftFault .misuse (Vignette.ofFields [])

end Stagecraft
