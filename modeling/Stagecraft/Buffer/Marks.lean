import Stagecraft.Entries
import Stagecraft.Fault

/-!
A buffer with spans kept by name. An edit names the spans it carries along; a refused edit changes
nothing.
-/

namespace Stagecraft

structure MarkedBuffer where
  buffer : Buffer
  marks : Entries Span

namespace MarkedBuffer

def mark (marked : MarkedBuffer) (name : String) (start stop : Nat) : MarkedBuffer :=
  { marked with marks := marked.marks.put name (marked.buffer.span start stop) }

def find (marked : MarkedBuffer) (name : String) : Except Fault Span :=
  match marked.marks.lookup name with
  | some span => .ok span
  | none => .error (.misuse .unknownKey)

/-- The span of a name, if it is still good. -/
def require (marked : MarkedBuffer) (name : String) : Except Fault Span := do
  let span ← marked.find name
  liftFault .stale (marked.buffer.require span)
  return span

def requireAll (marked : MarkedBuffer) (names : List String) : Except Fault Unit := do
  let spans ← names.mapM marked.find
  liftFault .stale (marked.buffer.requireAll spans)

/-- Moves the spans of the names, a name that is given twice by two moves. -/
def shift (marks : Entries Span) (move : Span → Span) (names : List String) : Entries Span :=
  names.foldl (fun marks name =>
    marks.map fun (other, span) => (other, if other = name then move span else span)) marks

def delete (marked : MarkedBuffer) (start stop : Nat) (names : List String) :
    Except Fault (MarkedBuffer × Nat) := do
  marked.requireAll names
  if stop ≤ start then return (marked, 0)
  let edited := marked.buffer.deleteLines start stop
  let marks := shift marked.marks (·.afterDelete start stop edited.revision) names
  return (⟨edited, marks⟩, stop - start)

def insert (marked : MarkedBuffer) (index : Nat) (lines : List String) (names : List String) :
    Except Fault (MarkedBuffer × Nat) := do
  marked.requireAll names
  if lines.isEmpty then return (marked, 0)
  let edited := marked.buffer.insertLines index lines
  let marks := shift marked.marks (·.afterInsert index lines.length edited.revision) names
  return (⟨edited, marks⟩, lines.length)

def line (marked : MarkedBuffer) (index : Nat) : Except Fault String :=
  match marked.buffer.line? index with
  | some line => .ok line
  | none => .error (.misuse .outOfRange)

def replace (marked : MarkedBuffer) (index : Nat) (line : String) : Except Fault MarkedBuffer := do
  let _ ← marked.line index
  return { marked with buffer := marked.buffer.replace index line }

end MarkedBuffer

end Stagecraft
