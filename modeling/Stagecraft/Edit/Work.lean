import Stagecraft.Record.Location
import Stagecraft.Tally

/-!
Edits at one record, and jobs on a whole file. Both keep what was done so far when they fail: an
edit that is refused leaves the earlier ones in the buffer, and their messages in the log.
-/

namespace Stagecraft

/-- A buffer with a record in it; the spans are carried along by every edit made here. -/
structure Site where
  buffer : Buffer
  record : Span
  steps : Span

abbrev Work := EStateM Fault Site

namespace Work

def ofExcept {α : Type} (answer : Except Fault α) : Work α := fun site =>
  match answer with
  | .ok value => .ok value site
  | .error fault => .error fault site

def requireSpan (span : Span) : Work Unit := fun site =>
  match site.buffer.require span with
  | .ok _ => .ok () site
  | .error stale => .error (.stale stale) site

/-- Both spans are still good. -/
def requireSite : Work Unit := fun site =>
  match site.buffer.requireAll [site.record, site.steps] with
  | .ok _ => .ok () site
  | .error stale => .error (.stale stale) site

def delete (start stop : Nat) : Work Unit := do
  requireSite
  if start < stop then
    modify fun site =>
      let buffer := site.buffer.deleteLines start stop
      ⟨buffer, site.record.afterDelete start stop buffer.revision,
        site.steps.afterDelete start stop buffer.revision⟩

def insert (index : Nat) (lines : List String) : Work Unit := do
  requireSite
  if !lines.isEmpty then
    modify fun site =>
      let buffer := site.buffer.insertLines index lines
      ⟨buffer, site.record.afterInsert index lines.length buffer.revision,
        site.steps.afterInsert index lines.length buffer.revision⟩

end Work

/-- A file under work, and the messages so far. -/
structure Bench where
  buffer : Buffer
  log : List String

abbrev Job := EStateM Fault Bench

namespace Job

def ofExcept {α : Type} (answer : Except Fault α) : Job α := fun bench =>
  match answer with
  | .ok value => .ok value bench
  | .error fault => .error fault bench

def note (message : String) : Job Unit :=
  modify fun bench => { bench with log := bench.log ++ [message] }

/-- Notes each message in turn. -/
def noteAll (messages : List String) : Job Unit :=
  modify fun bench => { bench with log := bench.log ++ messages }

/-- Works at a record and answers with where it is afterwards. -/
def site {α : Type} (location : Location) (work : Work α) : Job (Location × α) := fun bench =>
  match location.steps with
  | none => .error (.misuse .missingPart) bench
  | some steps =>
    match work ⟨bench.buffer, location.record, steps⟩ with
    | .ok value site =>
      .ok ({ location with record := site.record, steps := some site.steps }, value)
        { bench with buffer := site.buffer }
    | .error fault site => .error fault { bench with buffer := site.buffer }

/-- Answers with a nesting fault instead of failing by it. -/
def catchNesting {α : Type} (job : Job α) : Job (Except Nesting α) := fun bench =>
  match job bench with
  | .ok value after => .ok (.ok value) after
  | .error (.nesting fault) after => .ok (.error fault) after
  | .error fault after => .error fault after

end Job

end Stagecraft
