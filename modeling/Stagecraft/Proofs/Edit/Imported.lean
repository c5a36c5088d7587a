import Stagecraft.Proofs.Edit.ImportOnce
import Stagecraft.Proofs.Text.Signs

/-!
What an added symbol is to the language of the file. Where a new statement goes in at a place in the
code, or the statement that is found there is an import from the module, the symbol is in the list
of names of such an import. The statement is found by its end alone, so it may as well be no import.
-/

namespace Stagecraft

open ScanMode hiding line after signs

variable {symbol module head tail : String} {buffer after : Buffer} {outcome : ImportOutcome}
  {front front' back : List Char} {above below old new lines : List String} {start last : Nat}

/-- Names, and commas between them. -/
def Sign.isListed : Sign → Bool
  | .name _ => true
  | .mark c => c == ','
  | .text _ => false

/-- The source of an import is the module, or ends with it behind a slash. -/
def IsSource (module : String) (source : List Char) : Prop :=
  source = module.toList ∨ '/' :: module.toList <:+ source

/-- An import that lists names: what stands in front of the list, the list, and the source. -/
structure ImportSigns where
  head : List Sign
  names : List Sign
  source : List Char

namespace ImportSigns

def opening (statement : ImportSigns) : List Sign :=
  .name "import".toList ::
    (statement.head ++ .mark '\x7b' :: (statement.names ++ [.mark '\x7d']))

def closing (statement : ImportSigns) : List Sign :=
  [.name "from".toList, .text statement.source]

structure Sound (statement : ImportSigns) (module : String) : Prop where
  head : ∀ sign ∈ statement.head, sign.isListed
  names : ∀ sign ∈ statement.names, sign.isListed
  source : IsSource module statement.source

end ImportSigns

/-- Among the signs of a file is an import from the module that lists the symbol. -/
def Imports (symbol module : String) (signs : List Sign) : Prop :=
  ∃ (statement : ImportSigns) (before behind : List Sign),
    signs = before ++ (statement.opening ++ statement.closing) ++ behind ∧
      statement.Sound module ∧ .name symbol.toList ∈ statement.names

section Names

/-- A text takes a symbol in front of a brace, with a comma on either side or none. -/
inductive TakesBefore (symbol : String) : List Char → List Char → Prop where
  | put {kept blanks comma gap comma' gap' : List Char} (blank : ∀ c ∈ blanks, isBlank c)
      (gaps : ∀ c ∈ gap ++ gap', isBlank c) (filled : gap ≠ []) (feeds : '\n' ∈ blanks → '\n' ∈ gap)
      (few : comma = [] ∨ comma = [',']) (few' : comma' = [] ∨ comma' = [',']) :
      TakesBefore symbol (kept ++ blanks)
        (kept ++ (comma ++ (gap ++ (symbol.toList ++ (comma' ++ gap')))))

variable {mode : ScanMode} {blanks gap comma text : List Char}

theorem over_symbol (word : ∀ c ∈ symbol.toList, isWord c) (filled : symbol ≠ "") :
    (code []).after symbol.toList = code symbol.toList ∧ (code []).signs symbol.toList = [] ∧
      (code symbol.toList).pending = [.name symbol.toList] := by
  have named : ∀ c ∈ symbol.toList, continuesName c := by
    intro c member
    rw [continuesName, word c member, Bool.true_or]
  obtain ⟨ends, none⟩ := over_letters [] named
  refine ⟨ends, none, ?_⟩
  rw [pending]
  intro empty
  exact filled (String.toList_eq_nil_iff.mp empty)

/-- A comma leaves a scan ready for the blanks behind it. -/
theorem over_comma (few : comma = [] ∨ comma = [',']) (blank : ∀ c ∈ gap, isBlank c)
    (filled : gap ≠ []) (ready : mode.ReadyFor gap) :
    mode.after (comma ++ gap) = code [] ∧ ∃ more, mode.signs (comma ++ gap) = mode.pending ++ more ∧
      ∀ sign ∈ more, sign.isListed := by
  rcases few with rfl | rfl
  · obtain ⟨ends, found⟩ := over_blanks blank filled ready
    exact ⟨ends, [], by rw [List.nil_append, found, List.append_nil], by simp⟩
  · rw [List.singleton_append, ScanMode.after, ScanMode.signs]
    rcases ready with inside | ⟨rfl, feed⟩
    · rw [over_mark inside isPlainMark_comma]
      obtain ⟨ends, none⟩ := over_blanks_code blank
      exact ⟨ends, [.mark ','], by rw [none, List.append_nil], by simp [Sign.isListed]⟩
    · -- the comma is part of the comment
      obtain ⟨ends, found⟩ := over_blanks blank filled (.inr ⟨rfl, feed⟩)
      exact ⟨ends, [], by rw [List.append_nil]; exact found, by simp⟩

/-- In front of a brace in the code the symbol becomes one of the names. -/
theorem TakesBefore.signs (takes : TakesBefore symbol front front')
    (word : ∀ c ∈ symbol.toList, isWord c) (filled : symbol ≠ "")
    (inside : ∃ letters, (code []).after front = code letters) :
    ∃ lead more, (code []).signs (front ++ ['\x7d']) = lead ++ [.mark '\x7d'] ∧
      .name symbol.toList ∈ more ∧ (∀ sign ∈ more, sign.isListed) ∧
      ∀ back, (code []).signs (front' ++ '\x7d' :: back) =
        lead ++ more ++ .mark '\x7d' :: (code []).signs back := by
  obtain ⟨letters, inside⟩ := inside
  cases takes with
  | @put kept blanks comma gap comma' gap' blank gaps some feeds few few' =>
    obtain ⟨blank', blank''⟩ := List.forall_mem_append.mp gaps
    rw [after_append] at inside
    have ready := readyFor_of_after blank inside
    have ready' : ((code []).after kept).ReadyFor gap := ready.imp_right fun ⟨comment, feed⟩ =>
      ⟨comment, feeds feed⟩
    obtain ⟨ends, more, found, listed⟩ := over_comma few blank' some ready'
    obtain ⟨ends', none, name⟩ := over_symbol word filled
    -- from the symbol on nothing but a comma comes before the brace
    obtain ⟨more', found', listed'⟩ : ∃ more', (∀ back,
        (code symbol.toList).signs (comma' ++ (gap' ++ '\x7d' :: back)) =
          .name symbol.toList :: (more' ++ .mark '\x7d' :: (code []).signs back)) ∧
        ∀ sign ∈ more', sign.isListed := by
      rcases few' with rfl | rfl
      · refine ⟨[], fun back => ?_, by simp⟩
        rw [List.nil_append, signs_closing blank'' (.inl (inCode_code _)), name]
        rfl
      · refine ⟨[.mark ','], fun back => ?_, by simp [Sign.isListed]⟩
        rw [List.singleton_append, ScanMode.signs,
          over_mark (inCode_code _) isPlainMark_comma, name,
          signs_closing blank'' (.inl (inCode_code _))]
        rfl
    refine ⟨(code []).signs kept ++ ((code []).after kept).pending,
      more ++ .name symbol.toList :: more', ?_, by simp, ?_, fun back => ?_⟩
    · rw [List.append_assoc, signs_append, signs_closing blank ready, List.append_assoc]
      rfl
    · intro sign member
      rcases List.mem_append.mp member with early | late
      · exact listed sign early
      · rcases List.mem_cons.mp late with rfl | late
        · rfl
        · exact listed' sign late
    · have whole : kept ++ (comma ++ (gap ++ (symbol.toList ++ (comma' ++ gap')))) ++
          '\x7d' :: back = kept ++ ((comma ++ gap) ++
            (symbol.toList ++ (comma' ++ (gap' ++ '\x7d' :: back)))) := by
        simp only [List.append_assoc]
      rw [whole, signs_append, signs_append, ends, found, signs_append, ends', none, found']
      simp only [List.append_assoc, List.nil_append, List.cons_append]

end Names

section Lines

/-- The text of lines that all begin with a line feed. -/
def led (lines : List String) : List Char := lines.flatMap fun text => '\n' :: text.toList

theorem toList_join_cons (text : String) (lines : List String) :
    (join "\n" (text :: lines)).toList = text.toList ++ led lines := by
  induction lines generalizing text with
  | nil => simp [join, led]
  | cons next lines ih =>
    have rest := ih next
    rw [join] at rest ⊢
    rw [String.intercalate_cons_cons, String.toList_append, String.toList_append, rest, led, led,
      List.flatMap_cons, List.append_assoc]
    rfl

theorem toList_join_around (filled : lines ≠ []) :
    (join "\n" (above ++ (lines ++ below))).toList =
      fed above ++ ((join "\n" lines).toList ++ led below) := by
  obtain ⟨first, lines, rfl⟩ := List.exists_cons_of_ne_nil filled
  rw [toList_join_append (by simp), List.cons_append, toList_join_cons, toList_join_cons, led, led,
    led, List.flatMap_append, List.append_assoc]

/-- A text takes a symbol in front of one of its braces. -/
def TakesText (symbol : String) (text text' : List Char) : Prop :=
  ∃ front front' back, text = front ++ '\x7d' :: back ∧ text' = front' ++ '\x7d' :: back ∧
    TakesBefore symbol front front'

/-- A symbol goes in on the line of the brace. -/
theorem takes_inline {text changed : String} {comma : List Char}
    (few : comma = [] ∨ comma = [',']) (braced : lastBrace? text = some (head, tail))
    (whole : '\n' ∉ text.toList) (written : changed.toList =
      dropEndBlanks head.toList ++ (comma ++ (' ' :: (symbol.toList ++ ' ' :: tail.toList)))) :
    TakesText symbol (join "\n" (above ++ text :: below)).toList
      (join "\n" (above ++ changed :: below)).toList := by
  obtain ⟨after, split, closing⟩ := lastBrace?_split braced
  obtain ⟨gone, cut, blank⟩ := dropEndBlanks_split head.toList
  have kept : '\n' ∉ gone := by
    intro feed
    apply whole
    rw [split, cut]
    simp [feed]
  have takes : TakesBefore symbol (fed above ++ dropEndBlanks head.toList ++ gone)
      (fed above ++ dropEndBlanks head.toList ++
        (comma ++ ([' '] ++ (symbol.toList ++ ([] ++ [' ']))))) :=
    .put blank (List.all_eq_true.mp rfl) (by decide) (fun feed => absurd feed kept) few (.inl rfl)
  refine ⟨_, _, after ++ led below, ?_, ?_, takes⟩
  · rw [toList_join_append (List.cons_ne_nil _ _), toList_join_cons, split]
    conv_lhs => rw [cut]
    simp only [List.append_assoc, List.cons_append]
  · rw [toList_join_append (List.cons_ne_nil _ _), toList_join_cons, written, closing]
    simp only [List.append_assoc, List.cons_append, List.nil_append]

/-- A symbol goes in on a line of its own, above that of the brace. -/
theorem takes_own {text previous brace : String}
    (kept : previous = text ∨ previous = stripEnd text ++ ",")
    (braced : lastBrace? brace = some (head, tail)) (alone : isBlankText head) :
    TakesText symbol (join "\n" (above ++ text :: brace :: below)).toList
      (join "\n" (above ++ previous :: (indentOf previous ++ symbol ++ ",") :: brace ::
        below)).toList := by
  obtain ⟨after, split, -⟩ := lastBrace?_split braced
  obtain ⟨gone, cut, blank⟩ := dropEndBlanks_split text.toList
  obtain ⟨comma, gap, written, few, gaps⟩ : ∃ comma gap,
      previous.toList = dropEndBlanks text.toList ++ (comma ++ gap) ∧
        (comma = [] ∨ comma = [',']) ∧ ∀ c ∈ gap, isBlank c := by
    rcases kept with rfl | rfl
    · exact ⟨[], gone, cut, .inl rfl, blank⟩
    · exact ⟨[','], [], by simp [stripEnd], .inr rfl, by simp⟩
  have feed : isBlank '\n' = true := by decide
  have led' {blanks : List Char} (blank : ∀ c ∈ blanks, isBlank c) :
      ∀ c ∈ '\n' :: blanks, isBlank c := List.forall_mem_cons.mpr ⟨feed, blank⟩
  have alone' := led' (List.all_eq_true.mp alone)
  have indent := led' (isIndent_indentOf previous)
  have gaps' := List.forall_mem_append.mpr ⟨List.forall_mem_append.mpr ⟨gaps, indent⟩, alone'⟩
  have takes : TakesBefore symbol
      (fed above ++ dropEndBlanks text.toList ++ (gone ++ '\n' :: head.toList))
      (fed above ++ dropEndBlanks text.toList ++ (comma ++ ((gap ++ '\n' ::
        (indentOf previous).toList) ++ (symbol.toList ++ ([','] ++ '\n' :: head.toList))))) :=
    .put (List.forall_mem_append.mpr ⟨blank, alone'⟩) gaps' (by simp) (by simp) few (.inr rfl)
  refine ⟨_, _, after ++ led below, ?_, ?_, takes⟩
  · rw [toList_join_append (List.cons_ne_nil _ _), toList_join_cons]
    conv_lhs => rw [cut]
    simp only [led, List.flatMap_cons, split, List.append_assoc, List.cons_append]
  · rw [toList_join_append (List.cons_ne_nil _ _), toList_join_cons, written]
    simp [led, split]

/-- Lines that take a symbol take it in front of a brace. -/
theorem TakesSymbol.before (takes : TakesSymbol symbol old new)
    (whole : ∀ text ∈ old, '\n' ∉ text.toList) (above below : List String) :
    TakesText symbol (join "\n" (above ++ (old ++ below))).toList
      (join "\n" (above ++ (new ++ below))).toList := by
  cases takes with
  | own kept braced alone => exact takes_own kept braced alone
  | first braced expects =>
    apply takes_inline (.inl rfl) braced (whole _ (List.mem_singleton_self _))
    simp [stripEnd]
  | next braced =>
    apply takes_inline (.inr rfl) braced (whole _ (List.mem_singleton_self _))
    simp [stripEnd]

end Lines

section Statements

variable {statement : ImportSigns} {back text text' : List Char}

/-- The text is an import, and its only closing brace is the end of the list of names. -/
structure ReadsAs (statement : ImportSigns) (front back : List Char) : Prop where
  single : '\x7d' ∉ front ∧ '\x7d' ∉ back
  inside : ∃ letters, (code []).after front = code letters
  opening : (code []).signs (front ++ ['\x7d']) = statement.opening
  closing : statement.closing <+: (code []).signs back

/-- The text is an import from the module. -/
def IsImport (module : String) (text : List Char) : Prop :=
  ∃ statement front back, text = front ++ '\x7d' :: back ∧ statement.Sound module ∧
    ReadsAs statement front back

/-- An import that takes a symbol imports it. -/
theorem IsImport.takes (reads : IsImport module text) (takes : TakesText symbol text text')
    (word : ∀ c ∈ symbol.toList, isWord c) (filled : symbol ≠ "") (more : List Char) :
    Imports symbol module ((code []).signs (text' ++ more)) := by
  obtain ⟨statement, front, back, rfl, sound, ⟨alone, alone'⟩, inside, opening, closing⟩ := reads
  obtain ⟨first, front', rest, same, rfl, takes⟩ := takes
  obtain ⟨rfl, -, rfl⟩ := (List.append_cons_inj_of_notMem alone alone').mp same
  obtain ⟨lead, extra, found, named, listed, found'⟩ := takes.signs word filled inside
  obtain ⟨others, closing⟩ := closing
  have lead' : lead = .name "import".toList ::
      (statement.head ++ .mark '\x7b' :: statement.names) := by
    rw [opening, ImportSigns.opening] at found
    refine List.append_cancel_right (found.symm.trans ?_)
    simp
  refine ⟨{ statement with names := statement.names ++ extra }, [],
    others ++ ((code []).after back).signs more, ?_, ⟨sound.head, ?_, sound.source⟩,
    List.mem_append_right _ named⟩
  · rw [List.append_assoc, List.cons_append, found', signs_append, ← closing, lead']
    simp [ImportSigns.opening, ImportSigns.closing]
  · exact List.forall_mem_append.mpr ⟨sound.names, listed⟩

theorem isSource_importSource (module : String) : IsSource module (importSource module).toList := by
  rw [importSource]
  split
  · exact .inl rfl
  · exact .inr ⟨['.', '.'], by simp⟩

/-- A new statement in the code imports its symbol. -/
theorem imports_statement (word : ∀ c ∈ symbol.toList, isWord c) (filled : symbol ≠ "")
    (verbatim : ∀ c ∈ module.toList, c ≠ '\'' ∧ c ≠ '\\')
    (open' : (code []).after (fed above) = code []) :
    Imports symbol module ((code []).signs
      (join "\n" (above ++ importStatement symbol module :: below)).toList) := by
  obtain ⟨ends, none, name⟩ := over_symbol word filled
  have source : ∀ c ∈ (importSource module).toList, c ≠ QuoteMark.single.char ∧ c ≠ '\\' := by
    rw [importSource]
    split
    · exact verbatim
    · rw [String.toList_append]
      exact List.forall_mem_append.mpr ⟨by simp [QuoteMark.char], verbatim⟩
  have lead : (code []).after "import \x7b ".toList = code [] ∧ (code []).signs
      "import \x7b ".toList = [.name "import".toList, .mark '\x7b'] := by decide
  have behind : (code []).after "\x7d from '".toList = quoted .single [] ∧ (code []).signs
      "\x7d from '".toList = [.mark '\x7d', .name "from".toList] := by decide
  have letters : (join "\n" (above ++ importStatement symbol module :: below)).toList =
      fed above ++ ("import \x7b ".toList ++ (symbol.toList ++ (' ' :: ("\x7d from '".toList ++
        ((importSource module).toList ++ QuoteMark.single.char :: (';' :: led below)))))) := by
    rw [toList_join_append (List.cons_ne_nil _ _), toList_join_cons]
    simp [importStatement, QuoteMark.char]
  refine ⟨⟨[], [.name symbol.toList], (importSource module).toList⟩, (code []).signs (fed above),
    (code []).signs (';' :: led below), ?_, ⟨by simp, by simp [Sign.isListed],
      isSource_importSource module⟩, by simp⟩
  rw [letters, signs_append, open', signs_append, lead.1, lead.2, signs_append, ends, none,
    ScanMode.signs, over_blank (inCode_code _) (by decide), name, signs_append, behind.1, behind.2,
    over_text source]
  simp [ImportSigns.opening, ImportSigns.closing]

end Statements

/-- The imports of a file stand in its code: what is found for the module is an import from it, and
without one a new statement does not go into a comment or a quotation. -/
structure ImportsInCode (module : String) (lines : List String) : Prop where
  whole : ∀ text ∈ lines, '\n' ∉ text.toList
  found : ∀ start last, ImportAt module lines start last →
    (code []).after (fed (lines.take start)) = code [] ∧
      IsImport module (join "\n" (importLines lines start last)).toList
  fresh : (∀ text ∈ lines, namesModule module text = false) →
    ∀ last, lastImportLine lines = some last →
      (code []).after (fed (lines.take (last + 1))) = code []

theorem Imports.behind {signs : List Sign} (imports : Imports symbol module signs)
    (lead : List Sign) : Imports symbol module (lead ++ signs) := by
  obtain ⟨statement, before, behind, rfl, sound, named⟩ := imports
  exact ⟨statement, lead ++ before, behind, by simp only [List.append_assoc], sound, named⟩

theorem imports_of_takesWithin (inCode : ImportsInCode module lines)
    (found : ImportAt module lines start last) (word : ∀ c ∈ symbol.toList, isWord c)
    (filled : symbol ≠ "") {lines' : List String}
    (within : TakesWithin symbol start last lines lines') :
    Imports symbol module ((code []).signs (join "\n" lines').toList) := by
  obtain ⟨above, old, new, below, rfl, rfl, takes, low, high⟩ := within
  obtain ⟨more, room⟩ := Nat.exists_eq_add_of_le high
  -- the lines above the import stay, so the scan comes to it as before
  obtain ⟨open', reads⟩ := inCode.found start last found
  rw [importLines_parts low room.symm, List.append_assoc] at reads
  rw [List.append_assoc, List.take_append_of_le_length low] at open'
  have whole : ∀ text ∈ old, '\n' ∉ text.toList := by
    intro text member
    exact inCode.whole text (List.mem_append_left _ (List.mem_append_right _ member))
  have imports := reads.takes (takes.before whole (above.drop start) (below.take more)) word filled
    (led (below.drop more))
  have filled' : above.drop start ++ (new ++ below.take more) ≠ [] := by
    cases takes <;> simp
  have parts : above ++ new ++ below = above.take start ++
      ((above.drop start ++ (new ++ below.take more)) ++ below.drop more) := by
    simp only [List.append_assoc, List.take_append_drop]
    rw [← List.append_assoc (above.take start), List.take_append_drop]
  rw [parts, toList_join_around filled', signs_append, open']
  exact imports.behind _

/-- Where the imports of a file stand in its code, a symbol that is added is imported: it is in the
list of names of an import whose source is the module or ends with it. -/
theorem ensureImport_imports (word : ∀ c ∈ symbol.toList, isWord c) (filled : symbol ≠ "")
    (verbatim : ∀ c ∈ module.toList, c ≠ '\'' ∧ c ≠ '\\')
    (inCode : ImportsInCode module buffer.lines)
    (made : ensureImport buffer symbol module = (after, .added)) :
    Imports symbol module ((code []).signs after.text.toList) := by
  cases named : firstLine (namesModule module) 0 buffer.lines with
  | none =>
    rw [ensureImport, named] at made
    obtain ⟨rfl, -⟩ := Prod.mk.inj made
    have adds := addsStatement_addStatement buffer symbol module
    rw [Buffer.text]
    generalize (addStatement buffer symbol module).lines = lines at adds ⊢
    cases adds with
    | top none => exact @imports_statement symbol module [] _ word filled verbatim rfl
    | behind last =>
      rw [putLines, List.append_assoc]
      exact imports_statement word filled verbatim
        (inCode.fresh (firstLine_eq_none_iff.mp named) _ last)
  | some last =>
    have found : ImportAt module buffer.lines (importStart buffer.lines last) last :=
      importAt_iff.mpr ⟨named, rfl⟩
    rw [ensureImport_of_importAt found] at made
    split at made
    · obtain ⟨-, other⟩ := Prod.mk.inj made
      cases other
    · rcases extendImport_cases found.order (Nat.le_refl _) found.last_lt made with
        ⟨other, -⟩ | ⟨-, within⟩
      · cases other
      · exact imports_of_takesWithin inCode found word filled within

/-- An import over several lines, with comments above it and in its list. -/
def notedImport : Buffer := ⟨["// import \x7b NOBODY \x7d", "import \x7b",
  "  NARRATOR, // the voice", "\x7d from './movement-templates';"], []⟩

theorem importsInCode_notedImport : ImportsInCode templateModule notedImport.lines where
  whole := by decide
  found := by
    intro start last found
    obtain ⟨names, begins⟩ := importAt_iff.mp found
    have last' : firstLine (namesModule templateModule) 0 notedImport.lines = some 3 := by
      decide +kernel
    obtain rfl : 3 = last := Option.some.inj (last'.symm.trans names)
    have start' : importStart notedImport.lines 3 = 1 := by decide +kernel
    obtain rfl : 1 = start := start'.symm.trans begins
    refine ⟨by decide +kernel, ⟨[], [.name "NARRATOR".toList, .mark ','],
      "./movement-templates".toList⟩, "import \x7b\n  NARRATOR, // the voice\n".toList,
      " from './movement-templates';".toList, by decide +kernel, ⟨by simp, by decide, ?_⟩, ?_⟩
    · exact .inr ⟨['.'], by decide +kernel⟩
    · exact ⟨by decide +kernel, ⟨[], by decide +kernel⟩, by decide +kernel, by decide +kernel⟩
  fresh := by
    intro none
    have names : namesModule templateModule "\x7d from './movement-templates';" = true := by
      decide +kernel
    rw [none _ (by simp [notedImport])] at names
    cases names

/-- The symbol goes in behind the name that is there. -/
theorem ensureImport_imports_noted : ∃ after : Buffer,
    ensureImport notedImport "CELEBRATION" templateModule = (after, .added) ∧
      after.lines = ["// import \x7b NOBODY \x7d", "import \x7b", "  NARRATOR, // the voice,",
        "  CELEBRATION,", "\x7d from './movement-templates';"] ∧
      Imports "CELEBRATION" templateModule ((code []).signs after.text.toList) := by
  have added : (ensureImport notedImport "CELEBRATION" templateModule).2 = .added := by
    decide +kernel
  have made : ensureImport notedImport "CELEBRATION" templateModule =
      ((ensureImport notedImport "CELEBRATION" templateModule).1, .added) := by
    rw [← added]
  have word : ∀ c ∈ "CELEBRATION".toList, isWord c = true := List.all_eq_true.mp (by decide)
  exact ⟨_, made, by decide +kernel,
    ensureImport_imports word (by decide) (by simp [templateModule]) importsInCode_notedImport made⟩

def passedOn : Buffer := ⟨["export \x7b A \x7d from '../movement-templates';"], []⟩

/-- A list of names that a file passes on takes the symbol, and no import has it. -/
theorem ensureImport_passedOn : ∃ after : Buffer,
    ensureImport passedOn "CHARACTER_SPEAK" templateModule = (after, .added) ∧
      after.lines = ["export \x7b A, CHARACTER_SPEAK \x7d from '../movement-templates';"] ∧
      ¬ Imports "CHARACTER_SPEAK" templateModule ((code []).signs after.text.toList) := by
  have added : (ensureImport passedOn "CHARACTER_SPEAK" templateModule).2 = .added := by
    decide +kernel
  have made : ensureImport passedOn "CHARACTER_SPEAK" templateModule =
      ((ensureImport passedOn "CHARACTER_SPEAK" templateModule).1, .added) := by
    rw [← added]
  refine ⟨_, made, by decide +kernel, ?_⟩
  rintro ⟨statement, before, behind, split, -⟩
  have absent : Sign.name "import".toList ∉ (code []).signs
      (ensureImport passedOn "CHARACTER_SPEAK" templateModule).1.text.toList := by decide +kernel
  apply absent
  rw [split]
  simp [ImportSigns.opening]

end Stagecraft
