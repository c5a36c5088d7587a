import Mathlib.Logic.Relation
import Stagecraft.Proofs.Edit.ImportEnds

/-!
Patches: what becomes of the lines of a file, one by one, and the lines that are new. A patch can
be carried along while the file is edited at any place. Keeping an import in order alters one line
at most.
-/

namespace Stagecraft

/-- What becomes of a line, given by its number, or a new line. -/
inductive Change where
  | keep (number : Nat)
  | drop (number : Nat)
  | redo (number : Nat) (text : String)
  | add (text : String)
  deriving DecidableEq, Repr

abbrev Patch := List Change

namespace Change

def number? : Change → Option Nat
  | keep number | drop number | redo number _ => some number
  | add _ => none

/-- The line that stands in the file afterwards, if any. -/
def line? (old : List String) : Change → Option String
  | keep number => old[number]?
  | drop _ => none
  | redo _ text | add text => some text

def isRedo : Change → Bool
  | redo _ _ => true
  | _ => false

/-- The same with another text in the place of the line. -/
def redone (text : String) : Change → Change
  | keep number | redo number _ => redo number text
  | drop number => drop number
  | add _ => add text

end Change

namespace Patch

variable {old lines : List String} {patch : Patch}

/-- The numbers of the lines before. -/
def before (patch : Patch) : List Nat := patch.filterMap Change.number?

/-- The lines afterwards. -/
def after (old : List String) (patch : Patch) : List String := patch.filterMap (Change.line? old)

def redos (patch : Patch) : Nat := patch.countP Change.isRedo

/-- Keeps `count` lines from a line on. -/
def keeps (first count : Nat) : Patch := (List.range' first count).map Change.keep

/-- Keeps the lines with numbers that pass a test and drops the others. -/
def sieve (test : Nat → Bool) (first count : Nat) : Patch :=
  (List.range' first count).map fun number => if test number then .keep number else .drop number

theorem before_append (patch more : Patch) : before (patch ++ more) = before patch ++ before more :=
  List.filterMap_append

theorem after_append (old : List String) (patch more : Patch) :
    after old (patch ++ more) = after old patch ++ after old more := List.filterMap_append

theorem before_keeps (first count : Nat) :
    before (keeps first count) = List.range' first count := by
  rw [before, keeps, List.filterMap_map]
  exact List.filterMap_some

theorem after_keeps (old : List String) (first count : Nat) :
    after old (keeps first count) = (old.drop first).take count := by
  induction count generalizing first with
  | zero => simp [after, keeps]
  | succ count ih =>
    have rest := ih (first + 1)
    rw [keeps, List.range'_succ, List.map_cons, after, List.filterMap_cons, Change.line?]
    rw [after, keeps] at rest
    cases present : old[first]? with
    | none =>
      have short := List.getElem?_eq_none_iff.mp present
      rw [rest, List.drop_eq_nil_of_le short, List.drop_eq_nil_of_le (by omega)]
      simp
    | some line =>
      obtain ⟨low, rfl⟩ := List.getElem?_eq_some_iff.mp present
      rw [rest, List.drop_eq_getElem_cons low, List.take_succ_cons]

/-- The lines that stand in the file afterwards, from top to bottom: the number that each had, none
if it is new. -/
def origins (old : List String) (patch : Patch) : List (Option Nat) :=
  patch.filterMap fun change => (change.line? old).map fun _ => change.number?

/-- The span starts and ends on the lines that another one started and ended on. -/
structure Carries (old : List String) (patch : Patch) (before after : Span) : Prop where
  order : after.start < after.stop
  start : (patch.origins old)[after.start]? = some (some before.start)
  stop : (patch.origins old)[after.stop - 1]? = some (some (before.stop - 1))

theorem length_origins (old : List String) (patch : Patch) :
    (patch.origins old).length = (patch.after old).length := by
  induction patch with
  | nil => rfl
  | cons change rest ih =>
    rw [origins, after] at ih ⊢
    rw [List.filterMap_cons, List.filterMap_cons]
    cases change.line? old with
    | none => exact ih
    | some line => exact congrArg (· + 1) ih

theorem origins_append (old : List String) (patch more : Patch) :
    origins old (patch ++ more) = patch.origins old ++ more.origins old :=
  List.filterMap_append

theorem origins_keeps {start count : Nat} (inside : start + count ≤ old.length) :
    origins old (keeps start count) = (List.range' start count).map some := by
  rw [origins, keeps, List.filterMap_map, ← List.filterMap_eq_map]
  apply List.filterMap_congr
  intro number member
  have low : number < old.length := by
    have high := (List.mem_range'_1.mp member).2
    omega
  simp [Change.line?, Change.number?, List.getElem?_eq_getElem low]

theorem keeps_split {place count : Nat} (low : place ≤ count) :
    keeps 0 count = keeps 0 place ++ keeps place (count - place) := by
  have joined := List.range'_append_1 (s := 0) (m := place) (n := count - place)
  rw [Nat.zero_add, Nat.add_sub_cancel' low] at joined
  rw [keeps, keeps, keeps, ← List.map_append, joined]

theorem redos_keeps (first count : Nat) : redos (keeps first count) = 0 := by
  rw [redos, List.countP_eq_zero]
  intro change member
  obtain ⟨number, -, rfl⟩ := List.mem_map.mp member
  exact Bool.false_ne_true

theorem redos_append (patch more : Patch) : redos (patch ++ more) = redos patch + redos more :=
  List.countP_append

theorem before_adds (new : List String) : before (new.map Change.add) = [] := by
  rw [before, List.filterMap_map, List.filterMap_eq_nil_iff]
  intro text _
  rfl

theorem after_adds (old new : List String) : after old (new.map Change.add) = new := by
  rw [after, List.filterMap_map]
  exact List.filterMap_some

theorem redos_adds (new : List String) : redos (new.map Change.add) = 0 := by
  rw [redos, List.countP_eq_zero]
  intro change member
  obtain ⟨text, -, rfl⟩ := List.mem_map.mp member
  exact Bool.false_ne_true

theorem before_sieve (test : Nat → Bool) (first count : Nat) :
    before (sieve test first count) = List.range' first count := by
  have known : Change.number? ∘ (fun number => if test number = true then Change.keep number
      else .drop number) = some := by
    funext number
    rw [Function.comp_apply]
    split <;> rfl
  rw [before, sieve, List.filterMap_map, known, List.filterMap_some]

theorem after_sieve (old : List String) (test : Nat → Bool) (first count : Nat) :
    after old (sieve test first count) =
      ((List.range' first count).filter test).filterMap (old[·]?) := by
  rw [after, sieve, List.filterMap_map, List.filterMap_filter]
  congr 1
  funext number
  rw [Function.comp_apply]
  split <;> rfl

theorem of_mem_sieve {test : Nat → Bool} {first count : Nat} {change : Change}
    (member : change ∈ sieve test first count) :
    ∃ number, first ≤ number ∧ number < first + count ∧
      (test number = true ∧ change = .keep number ∨
        test number = false ∧ change = .drop number) := by
  obtain ⟨number, inside, rfl⟩ := List.mem_map.mp member
  obtain ⟨low, high⟩ := List.mem_range'_1.mp inside
  refine ⟨number, low, high, ?_⟩
  by_cases passes : test number = true
  · exact .inl ⟨passes, if_pos passes⟩
  · exact .inr ⟨Bool.eq_false_iff.mpr passes, if_neg passes⟩

theorem redos_sieve (test : Nat → Bool) (first count : Nat) :
    redos (sieve test first count) = 0 := by
  rw [redos, List.countP_eq_zero]
  intro change member
  obtain ⟨number, -, -, ⟨-, rfl⟩ | ⟨-, rfl⟩⟩ := of_mem_sieve member <;> exact Bool.false_ne_true

/-- A patch comes apart wherever its lines do. -/
theorem split {first second : List String} (made : after old patch = first ++ second) :
    ∃ front back, patch = front ++ back ∧ after old front = first ∧ after old back = second :=
  List.filterMap_eq_append_iff.mp made

/-- New lines may go in anywhere. -/
theorem put (made : after old patch = lines) (index : Nat) (new : List String) :
    ∃ front back, patch = front ++ back ∧
      after old (front ++ new.map Change.add ++ back) = putLines index new lines := by
  rw [← List.take_append_drop index lines] at made
  obtain ⟨front, back, rfl, above, below⟩ := split made
  refine ⟨front, back, rfl, ?_⟩
  rw [after_append, after_append, after_adds, above, below, putLines]

/-- The line at a place can be altered. -/
theorem alter {index : Nat} {line : String} (made : after old patch = lines)
    (present : lines[index]? = some line) (text : String) :
    ∃ front change back, patch = front ++ change :: back ∧ change.line? old = some line ∧
      after old (front ++ change.redone text :: back) = lines.set index text := by
  obtain ⟨low, rfl⟩ := List.getElem?_eq_some_iff.mp present
  have parts := made
  rw [← List.take_append_drop index lines] at parts
  obtain ⟨front, rest, rfl, above, below⟩ := split parts
  rw [List.drop_eq_getElem_cons low] at below
  obtain ⟨gone, change, back, rfl, none, same, later⟩ := List.filterMap_eq_cons_iff.mp below
  refine ⟨front ++ gone, change, back, by simp, same, ?_⟩
  have turned : (change.redone text).line? old = some text := by
    cases change with
    | drop number => cases same
    | keep number => rfl
    | redo number other => rfl
    | add other => rfl
  have skipped : after old gone = [] := List.filterMap_eq_nil_iff.mpr none
  rw [after_append, after_append, above, skipped, List.append_nil, after,
    List.filterMap_cons_some turned, later, List.set_eq_take_append_cons_drop, if_pos low]

end Patch

section Imports

variable {symbol module : String} {symbols : List String} {old lines : List String}
  {patch : Patch} {buffer : Buffer}

/-- A line takes a symbol into a list of names, or a comma for one on the next line. -/
inductive TakesName (symbol line : String) : String → Prop where
  | comma : TakesName symbol line (stripEnd line ++ ",")
  | first {head tail : String} (braced : lastBrace? line = some (head, tail)) :
      TakesName symbol line (stripEnd head ++ " " ++ symbol ++ " " ++ tail)
  | next {head tail : String} (braced : lastBrace? line = some (head, tail)) :
      TakesName symbol line (stripEnd head ++ ", " ++ symbol ++ " " ++ tail)

/-- Lines that an import brings in: a statement and a blank line, or a symbol among names. -/
inductive ImportLine (symbol module : String) : String → Prop where
  | statement : ImportLine symbol module (importStatement symbol module)
  | blank : ImportLine symbol module ""
  | name (line : String) : ImportLine symbol module (indentOf line ++ symbol ++ ",")

/-- The lines come from the first `top` of the old ones, where each stayed or underwent an allowed
change, with allowed new lines among them; at most `count` lines were altered. -/
def Patched (allowed : Change → Prop) (old : List String) (top count : Nat)
    (lines : List String) : Prop :=
  ∃ patch : Patch, patch.before = List.range top ∧ patch.after old = lines ∧
    patch.redos ≤ count ∧ ∀ change ∈ patch, allowed change

/-- A symbol that has no quotes and does not begin like an import. -/
def PlainSymbol (symbol : String) : Prop :=
  ∃ c rest, symbol.toList = c :: rest ∧ c ≠ 'i' ∧ symbol.toList.any isQuote = false

/-- Changes that may go on while an import is put in order. -/
structure ImportStable (symbol module : String) (old : List String) (allowed : Change → Prop) :
    Prop where
  named : PlainSymbol symbol
  line : ∀ {text : String}, ImportLine symbol module text → allowed (.add text)
  redone : ∀ {change : Change} {line text : String}, allowed change →
    change.line? old = some line → TakesName symbol line text → allowed (change.redone text)

/-- Changes of some kind, with what imports of symbols from a module make of the lines. -/
inductive WithImports (symbols : List String) (module : String) (old : List String)
    (plain : Change → Prop) : Change → Prop where
  | plain {change : Change} (allowed : plain change) : WithImports symbols module old plain change
  | line {symbol text : String} (member : symbol ∈ symbols)
      (imports : ImportLine symbol module text) : WithImports symbols module old plain (.add text)
  | redone {change : Change} {symbol line text : String}
      (earlier : WithImports symbols module old plain change) (member : symbol ∈ symbols)
      (stands : change.line? old = some line) (takes : TakesName symbol line text) :
      WithImports symbols module old plain (change.redone text)

theorem importStable (member : symbol ∈ symbols) (plain : Change → Prop)
    (named : PlainSymbol symbol) :
    ImportStable symbol module old (WithImports symbols module old plain) where
  named := named
  line imports := .line member imports
  redone earlier stands takes := .redone earlier member stands takes

namespace Patched

variable {allowed : Change → Prop} {top count index : Nat}

theorem imp {other : Change → Prop} (patched : Patched allowed old top count lines)
    (weaker : ∀ change, allowed change → other change) : Patched other old top count lines := by
  obtain ⟨patch, before, made, few, sound⟩ := patched
  exact ⟨patch, before, made, few, fun change member => weaker change (sound change member)⟩

theorem mono {more : Nat} (patched : Patched allowed old top count lines) (room : count ≤ more) :
    Patched allowed old top more lines := by
  obtain ⟨patch, before, made, few, sound⟩ := patched
  exact ⟨patch, before, made, Nat.le_trans few room, sound⟩

theorem put (patched : Patched allowed old top count lines) (index : Nat) {new : List String}
    (fresh : ∀ text ∈ new, allowed (.add text)) :
    Patched allowed old top count (putLines index new lines) := by
  obtain ⟨patch, before, made, few, sound⟩ := patched
  obtain ⟨front, back, rfl, made'⟩ := Patch.put made index new
  refine ⟨front ++ new.map Change.add ++ back, ?_, made', ?_, ?_⟩
  · rw [← before, Patch.before_append, Patch.before_append, Patch.before_adds, Patch.before_append,
      List.append_nil]
  · rw [Patch.redos_append] at few
    rw [Patch.redos_append, Patch.redos_append, Patch.redos_adds]
    exact few
  · intro change member
    rcases List.mem_append.mp member with above | below
    · rcases List.mem_append.mp above with above | new
      · exact sound change (List.mem_append_left _ above)
      · obtain ⟨text, present, rfl⟩ := List.mem_map.mp new
        exact fresh text present
    · exact sound change (List.mem_append_right _ below)

theorem alter {line text : String} (patched : Patched allowed old top count lines)
    (stable : ImportStable symbol module old allowed) (present : lines[index]? = some line)
    (takes : TakesName symbol line text) :
    Patched allowed old top (count + 1) (lines.set index text) := by
  obtain ⟨patch, before, made, few, sound⟩ := patched
  obtain ⟨front, change, back, rfl, stands, made'⟩ := Patch.alter made present text
  have known : (change.redone text).number? = change.number? := by cases change <;> rfl
  refine ⟨front ++ change.redone text :: back, ?_, made', ?_, ?_⟩
  · rw [← before, Patch.before, Patch.before, List.filterMap_append, List.filterMap_append,
      List.filterMap_cons, List.filterMap_cons, known]
  · rw [Patch.redos, List.countP_append, List.countP_cons] at few ⊢
    split <;> omega
  · intro other member
    rcases List.mem_append.mp member with above | here
    · exact sound other (List.mem_append_left _ above)
    · rcases List.mem_cons.mp here with rfl | below
      · exact stable.redone (sound change (by simp)) stands takes
      · exact sound other (by simp [below])

end Patched

theorem TakesName.gives {line text : String} (takes : TakesName symbol line text)
    (named : ∀ d ∈ symbol.toList, isQuote d = false) :
    ∃ kept gone middle back, Gives line.toList text.toList kept gone middle back := by
  cases takes with
  | comma =>
    obtain ⟨gone, gives⟩ := gives_comma line
    exact ⟨_, gone, _, _, gives⟩
  | first braced =>
    obtain ⟨gone, after, -, gives⟩ := gives_first braced named
    exact ⟨_, gone, _, _, gives⟩
  | next braced =>
    obtain ⟨gone, after, -, gives⟩ := gives_next braced named
    exact ⟨_, gone, _, _, gives⟩

theorem ImportLine.shut {text : String} (imports : ImportLine symbol module text) {c : Char}
    {rest : List Char} (named : symbol.toList = c :: rest) (other : c ≠ 'i') : Shut text := by
  cases imports with
  | statement => exact shut_statement symbol module
  | blank => exact shut_blank
  | name line => exact shut_name (isIndent_indentOf line) named other

/-- Where an import is put in order, `front` gives way to lines that come from it and no others
change. No import is open at their end that was not open before. -/
def FrontPatched (allowed : Change → Prop) (old : List String) (top count : Nat)
    (front back lines : List String) : Prop :=
  ∃ front', lines = front' ++ back ∧ Patched allowed old top count front' ∧
    (importOpen false front' = true → importOpen false front = true)

namespace FrontPatched

variable {allowed : Change → Prop} {top count index start line : Nat} {front back : List String}
  (stable : ImportStable symbol module old allowed) (parts : buffer.lines = front ++ back)
  (patched : Patched allowed old top count front)
include stable parts patched

theorem addStatement (imports : ∀ last, lastImportLine buffer.lines = some last →
    last < front.length) :
    FrontPatched allowed old top (count + 1) front back
      (addStatement buffer symbol module).lines := by
  have statement : allowed (.add (importStatement symbol module)) := stable.line .statement
  have blank : allowed (.add "") := stable.line .blank
  simp only [Stagecraft.addStatement]
  cases found : lastImportLine buffer.lines with
  | none =>
    refine ⟨putLines 0 [importStatement symbol module, ""] front, ?_, ?_, ?_⟩
    · rw [← putLines_append_left (Nat.zero_le _), ← parts]
      rfl
    · exact (patched.put 0 (by simpa using ⟨statement, blank⟩)).mono (Nat.le_succ _)
    · exact importOpen_putLines (by simpa using ⟨shut_statement symbol module, shut_blank⟩)
  | some last =>
    refine ⟨putLines (last + 1) [importStatement symbol module] front, ?_, ?_, ?_⟩
    · rw [← putLines_append_left (imports last found), ← parts]
      rfl
    · exact (patched.put (last + 1) (by simpa using statement)).mono (Nat.le_succ _)
    · exact importOpen_putLines (by simpa using shut_statement symbol module)

theorem addName {head tail : String} (low : line < front.length)
    (found : lastBrace? ((buffer.line? line).getD "") = some (head, tail)) :
    FrontPatched allowed old top (count + 1) front back
      (addName buffer start line symbol head tail).lines := by
  have here (number : Nat) (inside : number < front.length) :
      front[number]? = some ((buffer.line? number).getD "") := by
    rw [Buffer.line?, parts, List.getElem?_append_left inside, List.getElem?_eq_getElem inside,
      Option.getD_some]
  obtain ⟨c, rest, named, other, unquoted⟩ := stable.named
  have plain : ∀ d ∈ symbol.toList, isQuote d = false := by simpa using unquoted
  have closed {number : Nat} {text changed : String} (present : front[number]? = some text)
      (takes : TakesName symbol text changed)
      (opened : importOpen false (front.set number changed) = true) :
      importOpen false front = true := by
    obtain ⟨_, _, _, _, gives⟩ := takes.gives plain
    exact importOpen_set present gives.startsImport gives.endsImport opened
  have braced := here line low
  generalize (buffer.line? line).getD "" = text at braced found
  rw [Stagecraft.addName]
  split
  · next alone =>
    obtain ⟨-, later⟩ := alone
    have above := here (line - 1) (by omega)
    generalize (buffer.line? (line - 1)).getD "" = before at above
    have fresh (changed : String) :
        ∀ text ∈ [indentOf changed ++ symbol ++ ","], ImportLine symbol module text := by
      intro text member
      rw [List.mem_singleton.mp member]
      exact .name changed
    have made (changed : String) : ((buffer.replace (line - 1) changed).insertLines line
        [indentOf changed ++ symbol ++ ","]).lines =
          putLines line [indentOf changed ++ symbol ++ ","] (front.set (line - 1) changed) ++
            back := by
      rw [← putLines_append_left (by rw [List.length_set]; omega), ← List.set_append_left _ _
        (by omega : line - 1 < front.length), ← parts]
      rfl
    have allowed' (changed : String) :
        ∀ text ∈ [indentOf changed ++ symbol ++ ","], allowed (.add text) :=
      fun text member => stable.line (fresh changed text member)
    have shut (changed : String) : ∀ text ∈ [indentOf changed ++ symbol ++ ","], Shut text :=
      fun text member => (fresh changed text member).shut named other
    dsimp only
    split
    · have same : front.set (line - 1) before = front := by
        obtain ⟨inside, rfl⟩ := List.getElem?_eq_some_iff.mp above
        exact List.set_getElem_self inside
      have whole := made before
      rw [same] at whole
      exact ⟨_, whole, (patched.put line (allowed' before)).mono (Nat.le_succ _),
        importOpen_putLines (shut before)⟩
    · exact ⟨_, made _, (patched.alter stable above .comma).put line (allowed' _),
        fun opened => closed above .comma (importOpen_putLines (shut _) opened)⟩
  · have made (changed : String) :
        (buffer.replace line changed).lines = front.set line changed ++ back := by
      rw [Buffer.replace, parts, List.set_append_left _ _ low]
    split
    · exact ⟨_, made _, patched.alter stable braced (.first found), closed braced (.first found)⟩
    · exact ⟨_, made _, patched.alter stable braced (.next found), closed braced (.next found)⟩

theorem extendImport (low : line < front.length) :
    FrontPatched allowed old top (count + 1) front back
      (extendImport buffer start symbol line).1.lines := by
  rcases extendImport_eq buffer start symbol line with same | ⟨place, above, -, _, _, found, taken⟩
  · rw [same]
    exact ⟨front, parts, patched.mono (Nat.le_succ _), id⟩
  · rw [taken]
    exact addName stable parts patched (Nat.lt_of_le_of_lt above low) found

/-- Putting an import in order alters one line at most, and none below the imports. -/
theorem ensureImport (unnamed : ∀ line ∈ back, namesModule module line = false)
    (imports : ∀ last, lastImportLine buffer.lines = some last → last < front.length) :
    FrontPatched allowed old top (count + 1) front back
      (ensureImport buffer symbol module).1.lines := by
  rw [Stagecraft.ensureImport]
  cases named : firstLine (namesModule module) 0 buffer.lines with
  | none => exact addStatement stable parts patched imports
  | some last =>
    have low : last < front.length := by
      obtain ⟨-, names, -⟩ := firstLine_iff_firstAt.mp named
      by_contra high
      rw [parts, List.getElem?_append_right (by omega)] at names
      obtain ⟨line, present, names⟩ := (Option.any_eq_true _ _).mp names
      rw [unnamed line (List.mem_of_getElem? present)] at names
      cases names
    simp only
    split
    · exact ⟨front, parts, patched.mono (Nat.le_succ _), id⟩
    · exact extendImport stable parts patched low

end FrontPatched

theorem lastImportFrom_le {index found : Nat} {inside : Bool} {last : Option Nat}
    (answer : lastImportFrom index inside last lines = some found) :
    last = some found ∨ found < index + lines.length := by
  induction lines generalizing index inside last with
  | nil => exact .inl answer
  | cons line rest ih =>
    rw [List.length_cons]
    rw [lastImportFrom] at answer
    split at answer
    · split at answer
      · rcases ih answer with same | low
        · obtain rfl := Option.some.inj same
          exact .inr (by omega)
        · exact .inr (by omega)
      · exact (ih answer).imp id (by omega)
    · exact (ih answer).imp id (by omega)

/-- The same for the whole of a file. -/
theorem Patched.ensureImport {allowed : Change → Prop} {top count : Nat}
    (stable : ImportStable symbol module old allowed)
    (patched : Patched allowed old top count buffer.lines) :
    Patched allowed old top (count + 1) (ensureImport buffer symbol module).1.lines := by
  have imports : ∀ last, lastImportLine buffer.lines = some last → last < buffer.lines.length := by
    intro last found
    rcases lastImportFrom_le found with none | low
    · cases none
    · omega
  obtain ⟨front, made, patched', -⟩ := FrontPatched.ensureImport stable (List.append_nil _).symm
    patched (fun line absent => absurd absent List.not_mem_nil) imports
  rwa [made, List.append_nil]

end Imports

end Stagecraft
