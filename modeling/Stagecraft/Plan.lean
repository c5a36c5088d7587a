import Stagecraft.Disk
import Stagecraft.Moment
import Stagecraft.Text.Code

/-!
Plans: what a command asks of the world outside, step by step. A plan can be run on a world that is
a value, or carried out on a real one.
-/

namespace Stagecraft

inductive Request where
  | find (path : String)
  | read (path : String)
  | write (path text : String)
  | append (path text : String)
  | names (path : String)
  | makeDirectories (path : String)
  | print (text : String)
  | now

inductive NodeKind where
  | file
  | directory
  deriving DecidableEq, Repr

def Request.Answer : Request → Type
  | find _ => Option NodeKind
  | read _ => Except PathFault String
  | names _ => Except PathFault (List String)
  | write _ _ | append _ _ | makeDirectories _ => Except PathFault Unit
  | print _ => Unit
  | now => Moment

inductive Plan (α : Type) where
  | done (value : α)
  | ask (request : Request) (next : request.Answer → Plan α)

namespace Plan

def bind {α β : Type} : Plan α → (α → Plan β) → Plan β
  | done value, f => f value
  | ask request next, f => ask request fun answer => (next answer).bind f

instance : Monad Plan where
  pure := done
  bind := bind

def request (request : Request) : Plan request.Answer := ask request done

end Plan

def Node.kind : Node → NodeKind
  | file _ => .file
  | directory => .directory

/-- A disk, the texts printed so far, and a clock that goes on with every look at it. -/
structure World where
  disk : Disk
  printed : List String
  clock : Moment

namespace World

/-- The disk after an edit; a refused edit leaves it as it was. -/
def update (world : World) (edit : Disk → Except PathFault Disk) :
    Except PathFault Unit × World :=
  match edit world.disk with
  | .ok disk => (.ok (), { world with disk })
  | .error fault => (.error fault, world)

def answer (world : World) : (request : Request) → request.Answer × World
  | .find path => ((world.disk.find? path).map Node.kind, world)
  | .read path => (world.disk.read path, world)
  | .write path text => world.update (·.write path text)
  | .append path text => world.update (·.append path text)
  | .names path => (world.disk.names path, world)
  | .makeDirectories path =>
    let (disk, made) := world.disk.makeDirectories path
    (made, { world with disk })
  | .print text => ((), { world with printed := world.printed ++ [text] })
  | .now => (world.clock, { world with clock := ⟨world.clock.micros + 1⟩ })

end World

/-- Runs a plan on a world. -/
def Plan.run {α : Type} : Plan α → World → α × World
  | done value, world => (value, world)
  | ask request next, world =>
    let (answer, after) := world.answer request
    (next answer).run after

/-- Plans that may end with a fault. -/
abbrev Shell := ExceptT Fault Plan

namespace Shell

def ofExcept {α : Type} (answer : Except Fault α) : Shell α := ExceptT.mk (pure answer)

def ofAnswer {α : Type} (plan : Plan (Except PathFault α)) : Shell α :=
  ExceptT.mk do return (← plan).mapError .path

def find (path : String) : Shell (Option NodeKind) := Plan.request (.find path)

def isFile (path : String) : Shell Bool := do return (← find path) == some .file

def isDirectory (path : String) : Shell Bool := do return (← find path) == some .directory

def read (path : String) : Shell String := ofAnswer (Plan.request (.read path))

def names (path : String) : Shell (List String) := ofAnswer (Plan.request (.names path))

def makeDirectories (path : String) : Shell Unit :=
  ofAnswer (Plan.request (.makeDirectories path))

def print (text : String) : Shell Unit := Plan.request (.print text)

def now : Shell Moment := Plan.request .now

/-- The parts in front of the first one that holds half a surrogate pair, which no file can take,
and whether these are all. -/
def writable (parts : List String) : String × Bool :=
  let fitting := parts.takeWhile isWhole
  (Stagecraft.join "" fitting, fitting.length == parts.length)

def writeParts (path : String) (parts : List String) : Shell Unit := do
  let (text, complete) := writable parts
  ofAnswer (Plan.request (.write path text))
  if !complete then throw .unwritable

def write (path text : String) : Shell Unit := writeParts path [text]

def append (path text : String) : Shell Unit := do
  let (text, complete) := writable [text]
  ofAnswer (Plan.request (.append path text))
  if !complete then throw .unwritable

end Shell

end Stagecraft
