import Stagecraft.Text.Scan

/-!
The lines of one file while it is edited, and spans that survive the edits. Every deletion and
insertion is recorded by the line where it took place. A span is still good when everything since
its revision happened behind it, or when it was carried along by the edit.
-/

namespace Stagecraft

/-- The lines from `start` up to `stop`, as of a revision of the buffer. -/
structure Span where
  start : Nat
  stop : Nat
  revision : Nat
  deriving DecidableEq, Repr

structure Buffer where
  lines : List String
  edits : List Nat
  deriving DecidableEq, Repr

/-- A span that was outdated when it was used, and the revision the buffer had by then. -/
structure Stale where
  span : Span
  current : Nat
  deriving DecidableEq, Repr

def Stale.message (fault : Stale) : String :=
  let { start, stop, revision } := fault.span
  s!"span {start + 1}-{stop} was computed at revision {revision}, " ++
    s!"buffer is at revision {fault.current}"

namespace Buffer

def ofText (text : String) : Buffer := ⟨linesOf text, []⟩

def text (buffer : Buffer) : String := join "\n" buffer.lines

def revision (buffer : Buffer) : Nat := buffer.edits.length

def changed (buffer : Buffer) : Bool := !buffer.edits.isEmpty

def line? (buffer : Buffer) (index : Nat) : Option String := buffer.lines[index]?

def span (buffer : Buffer) (start stop : Nat) : Span := ⟨start, stop, buffer.revision⟩

def isValid (buffer : Buffer) (span : Span) : Bool :=
  (buffer.edits.drop span.revision).all (span.stop ≤ ·)

def require (buffer : Buffer) (span : Span) : Except Stale Unit :=
  if buffer.isValid span then .ok () else .error ⟨span, buffer.revision⟩

/-- Fails on the first span that is not valid. -/
def requireAll (buffer : Buffer) : List Span → Except Stale Unit
  | [] => .ok ()
  | span :: rest => do
    buffer.require span
    buffer.requireAll rest

def spanLines (buffer : Buffer) (span : Span) : List String :=
  (buffer.lines.take span.stop).drop span.start

def spanText (buffer : Buffer) (span : Span) : String := join "\n" (buffer.spanLines span)

/-- Puts a line in the place of another; nothing moves, so this is no new revision. -/
def replace (buffer : Buffer) (index : Nat) (line : String) : Buffer :=
  { buffer with lines := buffer.lines.set index line }

end Buffer

namespace Span

/-- A position once the lines from `start` up to `stop` are gone. -/
def shiftBack (start stop position : Nat) : Nat :=
  if stop ≤ position then position - (stop - start)
  else if start < position then start
  else position

def afterDelete (span : Span) (start stop revision : Nat) : Span :=
  ⟨shiftBack start stop span.start, shiftBack start stop span.stop, revision⟩

/-- Lines put in front of the first line push the span down; lines put in front of a later one
become part of it. -/
def afterInsert (span : Span) (index count revision : Nat) : Span :=
  ⟨if index ≤ span.start then span.start + count else span.start,
    if index < span.stop then span.stop + count else span.stop, revision⟩

end Span

namespace Buffer

def deleteLines (buffer : Buffer) (start stop : Nat) : Buffer :=
  ⟨buffer.lines.take start ++ buffer.lines.drop stop, buffer.edits ++ [start]⟩

def insertLines (buffer : Buffer) (index : Nat) (lines : List String) : Buffer :=
  ⟨buffer.lines.take index ++ lines ++ buffer.lines.drop index, buffer.edits ++ [index]⟩

/-- Removes the lines from `start` up to `stop` and carries the tracked spans along. -/
def delete (buffer : Buffer) (start stop : Nat) (tracked : List Span) :
    Except Stale (Buffer × List Span) := do
  buffer.requireAll tracked
  if stop ≤ start then return (buffer, tracked)
  let edited := buffer.deleteLines start stop
  return (edited, tracked.map (·.afterDelete start stop edited.revision))

/-- Puts lines in front of line `index` and carries the tracked spans along. -/
def insert (buffer : Buffer) (index : Nat) (lines : List String) (tracked : List Span) :
    Except Stale (Buffer × List Span) := do
  buffer.requireAll tracked
  if lines.isEmpty then return (buffer, tracked)
  let edited := buffer.insertLines index lines
  return (edited, tracked.map (·.afterInsert index lines.length edited.revision))

@[simp] theorem revision_deleteLines (buffer : Buffer) (start stop : Nat) :
    (buffer.deleteLines start stop).revision = buffer.revision + 1 := by
  simp [revision, deleteLines]

@[simp] theorem revision_insertLines (buffer : Buffer) (index : Nat) (lines : List String) :
    (buffer.insertLines index lines).revision = buffer.revision + 1 := by
  simp [revision, insertLines]

theorem isValid_of_current {buffer : Buffer} {span : Span}
    (current : span.revision = buffer.revision) : buffer.isValid span = true := by
  simp [isValid, current, revision]

end Buffer

end Stagecraft
