import Stagecraft.Buffer
import Stagecraft.Depth
import Stagecraft.Literal.Token

/-!
What can go wrong, by cause.
-/

namespace Stagecraft

/-- A region that has no end, or a record that has no beginning. -/
inductive Nesting where
  | unbalanced (marks : Brackets) (start stop : Int)
  | noOpening (id : String) (window : Nat)
  | neverCloses (id : String) (opening : Nat)
  deriving DecidableEq, Repr

def Nesting.message : Nesting → String
  | unbalanced marks start stop =>
    s!"unbalanced '{marks.opening}{marks.closing}' from line {start + 1} to line {stop}"
  | noOpening id window => s!"no object opening within {window} lines above id '{id}'"
  | neverCloses id opening => s!"record '{id}' opened at line {opening + 1} never closes"

/-- Why a value cannot be used where it stands. -/
inductive Misuse where
  | wrongKind
  | wrongSize
  | outOfRange
  | unknownKey
  | missingPart
  | zeroDivisor
  | tooLarge
  deriving DecidableEq, Repr

/-- Why a path cannot be used. -/
inductive PathFault where
  | absent
  | present
  | notDirectory
  | isDirectory
  | tooLong
  | tooDeep
  | holdsNul
  | holdsHalf
  deriving DecidableEq, Repr

def PathFault.message : PathFault → String
  | absent => "no such file or directory"
  | present => "a file is there already"
  | notDirectory => "not a directory"
  | isDirectory => "a directory and no file"
  | tooLong => "the name is too long"
  | tooDeep => "too many directories are missing"
  | holdsNul => "a path holds a null character"
  | holdsHalf => "a path holds half a surrogate pair"

structure MissingColumns where
  path : String
  columns : List String
  deriving DecidableEq, Repr

def MissingColumns.message (fault : MissingColumns) : String :=
  fault.path ++ ": missing column(s) " ++ join ", " fault.columns

inductive Fault where
  | unreadable (error : SyntaxError)
  | nesting (fault : Nesting)
  | stale (fault : Stale)
  | columns (fault : MissingColumns)
  | beyond (limit : Limit)
  | misuse (cause : Misuse)
  | path (cause : PathFault)
  /-- A cell of a sheet beyond the limit. -/
  | cellTooLong
  /-- A text that no file can hold. -/
  | unwritable
  /-- A scan that comes back to the same record for ever. -/
  | endless

def Fault.message : Fault → String
  | unreadable error => error.message
  | nesting fault => fault.message
  | stale fault => fault.message
  | columns fault => fault.message
  | beyond limit => limit.message
  | misuse _ => "a record holds a value that cannot stand there"
  | path cause => cause.message
  | cellTooLong => "a cell of the sheet is too long"
  | unwritable => "a text holds half a surrogate pair"
  | endless => "the scan does not end"

instance : Coe Misuse Fault := ⟨.misuse⟩

def Fault.ofRead : ReadFault → Fault
  | .malformed error => .unreadable error
  | .beyond limit => .beyond limit

/-- The answer, with its fault among those of the whole program. -/
def liftFault {α ε : Type} (wrap : ε → Fault) : Except ε α → Except Fault α
  | .ok value => .ok value
  | .error e => .error (wrap e)

/-- What a report says about a record or a file that was passed over. -/
inductive Issue where
  | malformed (id : String) (fault : Nesting)
  | withoutSteps (id : String)
  | notFound (id : String)
  | unreadable (id : String)
  | missingImport (module : String)
  | zoneFileNotFound (zone : String)
  deriving DecidableEq, Repr

def Issue.text : Issue → String
  | malformed id fault => s!"malformed_record:{id}:{fault.message}"
  | withoutSteps id => s!"malformed_record:{id}:no steps array"
  | notFound id => s!"record_not_found:{id}"
  | unreadable id => s!"unreadable_record:{id}"
  | missingImport module => s!"missing_import:{module}"
  | zoneFileNotFound zone => s!"zone_file_not_found:{zone}"

end Stagecraft
