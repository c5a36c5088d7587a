import Stagecraft.Record.Location

/-!
Keeping imports in order: a symbol is added to the import of its module, or gets a statement of its
own behind the last import of the file.
-/

namespace Stagecraft

def templateModule : String := "movement-templates"

inductive ImportOutcome where
  | added
  | alreadyThere
  /-- The module is imported without a list of names. -/
  | withoutNames
  deriving DecidableEq, Repr

/-- A relative source stays as it is; any other is taken from the directory above. -/
def importSource (module : String) : String :=
  if startsWith module "." then module else "../" ++ module

/-- The line begins with the word `import`. -/
def startsImport (line : String) : Bool :=
  match afterWord? "import" line.toList with
  | some rest => !rest.head?.any isWord
  | none => false

/-- What follows the word `from` and at least one blank. -/
def afterFrom? (text : List Char) : Option (List Char) :=
  match afterWord? "from" text with
  | some (c :: rest) => if isBlank c then some (skipBlanks rest) else none
  | _ => none

/-- The line names a source, or imports one for its effects only. -/
def endsImport (line : String) : Bool :=
  (search (fun before text =>
    if before.any isWord then none else (afterFrom? text).bind quotedName?) none
    line.toList).isSome ||
  (match afterWord? "import" line.toList with
  | some (c :: rest) => isBlank c && (skipBlanks rest).head?.any isQuote
  | _ => false)

/-- Scans on with the last import found; `inside` tells whether one is still open. The last line
closes any import. -/
def lastImportFrom (index : Nat) (inside : Bool) (last : Option Nat) : List String → Option Nat
  | [] => last
  | line :: rest =>
    if inside || startsImport line then
      if endsImport line || rest.isEmpty then lastImportFrom (index + 1) false (some index) rest
      else lastImportFrom (index + 1) true last rest
    else lastImportFrom (index + 1) false last rest

/-- The closing line of the last import. -/
def lastImportLine (lines : List String) : Option Nat := lastImportFrom 0 false none lines

/-- Before any other quote, the text goes on with the module and a quote. -/
def endsWithModule (module : List Char) : List Char → Bool
  | [] => false
  | c :: rest =>
    (match after? module (c :: rest) with
    | some (mark :: _) => isQuote mark
    | _ => false) ||
      (!isQuote c && endsWithModule module rest)

/-- The line takes something from a source that ends with the module. -/
def namesModule (module line : String) : Bool :=
  (searchFor (fun text => do
    match ← afterFrom? text with
    | mark :: rest =>
      if isQuote mark && endsWithModule module.toList rest then some () else none
    | [] => none) line.toList).isSome

/-- The symbol stands in the text with a word boundary on either side. -/
def holdsWord (symbol : String) (text : List Char) : Bool :=
  (search (fun before rest => do
    let tail ← after? symbol.toList rest
    let first := rest.head?
    let last := if symbol = "" then before else symbol.toList.getLast?
    if isBoundary before first && isBoundary last tail.head? then some () else none)
    none text).isSome

/-- The nearest line at or above that begins with `import` after its indent, or the first line. -/
def importStart (lines : List String) : Nat → Nat
  | 0 => 0
  | line + 1 =>
    if (lines[line + 1]?).any fun text => startsWith (stripStart text) "import" then line + 1
    else importStart lines line

def addStatement (buffer : Buffer) (symbol module : String) : Buffer :=
  let statement := "import \x7b " ++ symbol ++ " \x7d from '" ++ importSource module ++ "';"
  match lastImportLine buffer.lines with
  | none => buffer.insertLines 0 [statement, ""]
  | some line => buffer.insertLines (line + 1) [statement]

/-- The text before the last closing brace of a line, and the rest from it on. -/
def lastBrace? (line : String) : Option (String × String) :=
  let tail := (line.toList.reverse.takeWhile (· != '\x7d')).reverse
  if tail.length = line.length then none
  else some (String.ofList (line.toList.take (line.length - tail.length - 1)),
    String.ofList ('\x7d' :: tail))

/-- The text ends with a comma or an opening brace. -/
def expectsName (text : String) : Bool := endsWith text "," || endsWith text "\x7b"

/-- Adds the symbol in front of a brace that closes a list of names: on a line of its own when the
brace has its own line, else on the line of the brace. -/
def addName (buffer : Buffer) (start line : Nat) (symbol head tail : String) : Buffer :=
  let before := (buffer.line? (line - 1)).getD ""
  let trimmed := stripEnd head
  if isBlankText head ∧ start < line then
    let kept := stripEnd before
    let previous := if expectsName kept then before else kept ++ ","
    (buffer.replace (line - 1) previous).insertLines line [indentOf previous ++ symbol ++ ","]
  else if expectsName trimmed then
    buffer.replace line (trimmed ++ " " ++ symbol ++ " " ++ tail)
  else buffer.replace line (trimmed ++ ", " ++ symbol ++ " " ++ tail)

/-- The last line from `start` to `line` with a closing brace takes the symbol. -/
def extendImport (buffer : Buffer) (start : Nat) (symbol : String) (line : Nat) :
    Buffer × ImportOutcome :=
  match ((buffer.line? line).getD "" |> lastBrace?), line with
  | some (head, tail), _ => (addName buffer start line symbol head tail, .added)
  | none, 0 => (buffer, .withoutNames)
  | none, above + 1 =>
    if above + 1 ≤ start then (buffer, .withoutNames) else extendImport buffer start symbol above

/-- Makes sure that a symbol is imported from a module. -/
def ensureImport (buffer : Buffer) (symbol module : String) : Buffer × ImportOutcome :=
  match firstLine (namesModule module) 0 buffer.lines with
  | none => (addStatement buffer symbol module, .added)
  | some last =>
    let start := importStart buffer.lines last
    let block := join "\n" ((buffer.lines.take (last + 1)).drop start)
    if holdsWord symbol block.toList then (buffer, .alreadyThere)
    else extendImport buffer start symbol last

end Stagecraft
