import Stagecraft.Proofs.Edit.Voicing

/-!
Where an import is kept in order. When a file has its imports above a place and none below, only
lines above that place are touched, and there no id and no opening of a record comes up that was
not there before.
-/

namespace Stagecraft

variable {text front middle back : List Char} {id symbol module : String}
  {head rest lines : List String} {buffer : Buffer} {ids : List String}

/-- No key of an id begins at a word boundary. -/
def Keyless (text : List Char) : Prop :=
  ∀ front back, text = front ++ ('i' :: 'd' :: ':' :: back) → front.getLast?.any isWord = true

theorem keyless_iff : (search afterIdKey? none text).isNone ↔ Keyless text := by
  rw [Option.isNone_iff_eq_none, search_eq_none_iff]
  constructor
  · rintro absent front back rfl
    have none := absent front _ rfl
    rw [Option.or_none, afterIdKey?] at none
    by_contra boundary
    rw [if_neg boundary] at none
    cases none
  · rintro keyless front back split
    rw [Option.or_none, afterIdKey?]
    split
    · rfl
    · next boundary =>
      cases key : afterWord? "id:" back with
      | none => rfl
      | some rest =>
        rw [eq_append_of_after? key] at split
        exact absurd (keyless front rest split) boundary

theorem hasId_of_keyless {line : String} (keyless : Keyless line.toList) :
    hasId id line = false := by
  rw [hasId, Option.isSome_eq_false_iff, Option.isNone_iff_eq_none, search_eq_none_iff]
  intro front back split
  have absent := search_eq_none_iff.mp (Option.isNone_iff_eq_none.mp (keyless_iff.mpr keyless))
    front back split
  rw [absent]
  rfl

theorem keyless_of_not_mem (free : 'i' ∉ text) : Keyless text := by
  rintro front back rfl
  exact absurd (List.mem_append_right _ (List.mem_cons_self ..)) free

/-- A text in which the end of the first part gives way to other characters. -/
theorem keyless_patch {kept gone : List Char} (keyless : Keyless (kept ++ gone ++ back))
    (free : 'i' ∉ middle) (starts : ∃ c tail, middle = c :: tail ∧ c ≠ 'd' ∧ c ≠ ':')
    (ends : back.head? ≠ some 'i') : Keyless (kept ++ middle ++ back) := by
  obtain ⟨c, tail, rfl, noD, noColon⟩ := starts
  intro front after split
  rw [List.append_assoc] at split
  rcases List.append_eq_append_iff.mp split with ⟨gap, rfl, later⟩ | ⟨gap, rfl, later⟩
  · rcases List.append_eq_append_iff.mp later with ⟨more, rfl, last⟩ | ⟨more, inner, last⟩
    · cases more with
      | nil =>
        rw [List.nil_append] at last
        rw [last] at ends
        exact absurd rfl ends
      | cons d more =>
        have old := keyless (kept ++ gone ++ d :: more) after (by simp [last])
        rw [List.getLast?_append] at old ⊢
        rw [List.getLast?_append]
        simpa [List.getLast?_cons] using old
    · cases more with
      | nil =>
        rw [List.nil_append] at last
        rw [← last] at ends
        exact absurd rfl ends
      | cons d more =>
        obtain ⟨rfl, -⟩ := List.cons.inj last
        exact absurd (by rw [inner]; simp) free
  · rcases gap with _ | ⟨i, _ | ⟨d, _ | ⟨colon, gap⟩⟩⟩
    · obtain ⟨rfl, -⟩ := List.cons.inj later
      exact absurd (List.mem_cons_self ..) free
    · obtain ⟨-, next⟩ := List.cons.inj later
      exact absurd (List.cons.inj next).1.symm noD
    · obtain ⟨-, next⟩ := List.cons.inj later
      exact absurd (List.cons.inj (List.cons.inj next).2).1.symm noColon
    · simp only [List.cons_append, List.cons.injEq] at later
      obtain ⟨rfl, rfl, rfl, -⟩ := later
      exact keyless front (gap ++ gone ++ back) (by simp)

/-- Whether a brace opens a record depends on what stands behind the last closing brace. -/
theorem opensRecord_append_brace (front tail : List Char) :
    opensRecord (String.ofList (front ++ '\x7d' :: tail)) =
      opensRecord (String.ofList ('\x7d' :: tail)) := by
  have lead (front : List Char) : ∃ kept,
      (stripBlanks (front ++ '\x7d' :: tail)).reverse =
        (tail.reverse ++ ['\x7d']).dropWhile isBlank ++ kept := by
    have skipped : ∃ kept, skipBlanks (front ++ '\x7d' :: tail) = kept ++ '\x7d' :: tail := by
      by_cases white : ∀ c ∈ front, isBlank c
      · refine ⟨[], ?_⟩
        rw [skipBlanks_append white]
        rfl
      · refine ⟨skipBlanks front, ?_⟩
        have some' : (front.dropWhile isBlank).isEmpty = false := by
          rw [List.isEmpty_eq_false_iff, ne_eq, List.dropWhile_eq_nil_iff]
          exact white
        rw [skipBlanks, List.dropWhile_append, some']
        rfl
    obtain ⟨kept, skipped⟩ := skipped
    refine ⟨kept.reverse, ?_⟩
    have ink : ((tail.reverse ++ ['\x7d']).dropWhile isBlank).isEmpty = false := by
      rw [List.isEmpty_eq_false_iff, ne_eq, List.dropWhile_eq_nil_iff]
      intro white
      exact absurd (white '\x7d' (by simp)) (by decide)
    rw [stripBlanks, dropEndBlanks, List.reverse_reverse, skipped, List.reverse_append,
      List.reverse_cons, List.dropWhile_append, ink]
    rfl
  obtain ⟨kept, first⟩ := lead front
  obtain ⟨kept', second⟩ := lead []
  have brace : ∃ lead', (tail.reverse ++ ['\x7d']).dropWhile isBlank = lead' ++ ['\x7d'] := by
    rw [List.dropWhile_append]
    split
    · exact ⟨[], rfl⟩
    · exact ⟨_, rfl⟩
  obtain ⟨lead', shape⟩ := brace
  rw [List.nil_append] at second
  rw [opensRecord, opensRecord, String.toList_ofList, String.toList_ofList, first, second, shape]
  cases lead' with
  | nil => rfl
  | cons c lead' =>
    have ink : (List.dropWhile isBlank (lead' ++ ['\x7d'])).isEmpty = false := by
      rw [List.isEmpty_eq_false_iff, ne_eq, List.dropWhile_eq_nil_iff]
      intro white
      exact absurd (white '\x7d' (by simp)) (by decide)
    have same (kept : List Char) :
        ((lead' ++ ['\x7d'] ++ kept).dropWhile isBlank).head? =
          ((lead' ++ ['\x7d']).dropWhile isBlank).head? := by
      rw [List.dropWhile_append, ink]
      simp only [Bool.false_eq_true, if_false]
      cases split : List.dropWhile isBlank (lead' ++ ['\x7d']) with
      | nil => simp [split] at ink
      | cons d more => rfl
    have full (kept : List Char) : (lead' ++ ['\x7d'] ++ kept).isEmpty = false := by
      simp
    by_cases brace : c = '\x7b'
    · subst brace
      change ((lead' ++ ['\x7d'] ++ kept).isEmpty ||
          ((lead' ++ ['\x7d'] ++ kept).dropWhile isBlank).head? == some '=') =
        ((lead' ++ ['\x7d'] ++ kept').isEmpty ||
          ((lead' ++ ['\x7d'] ++ kept').dropWhile isBlank).head? == some '=')
      rw [full, full, same, same]
    · rw [List.cons_append, List.cons_append, List.cons_append]
      split
      · next starts => exact absurd (List.cons.inj starts).1 brace
      · split
        · next starts => exact absurd (List.cons.inj starts).1 brace
        · rfl

/-- An import begun on these lines, or before them, is not ended on them. -/
def importOpen (inside : Bool) : List String → Bool
  | [] => inside
  | line :: rest => importOpen ((inside || startsImport line) && !endsImport line) rest

theorem lastImportFrom_free {index : Nat} {last : Option Nat}
    (free : ∀ line ∈ rest, startsImport line = false) :
    lastImportFrom index false last rest = last := by
  induction rest generalizing index with
  | nil => rfl
  | cons line rest ih =>
    rw [lastImportFrom, free line (by simp)]
    exact ih fun other member => free other (by simp [member])

theorem lastImportFrom_lt {index found : Nat} {inside : Bool} {last : Option Nat}
    (closed : importOpen inside head = false) (free : ∀ line ∈ rest, startsImport line = false)
    (answer : lastImportFrom index inside last (head ++ rest) = some found) :
    last = some found ∨ found < index + head.length := by
  induction head generalizing index inside last with
  | nil =>
    rw [importOpen] at closed
    subst closed
    rw [List.nil_append, lastImportFrom_free free] at answer
    exact .inl answer
  | cons line head ih =>
    rw [importOpen] at closed
    rw [List.cons_append, lastImportFrom] at answer
    rw [List.length_cons]
    by_cases begun : inside || startsImport line
    · rw [if_pos begun] at answer
      rw [begun, Bool.true_and] at closed
      by_cases ended : endsImport line
      · rw [ended] at closed
        rw [ended, Bool.true_or, if_pos rfl] at answer
        rcases ih closed answer with same | low
        · obtain rfl := Option.some.inj same
          exact .inr (by omega)
        · exact .inr (by omega)
      · rw [Bool.not_eq_true] at ended
        rw [ended] at closed
        by_cases empty : (head ++ rest).isEmpty
        · rw [ended, empty, Bool.false_or, if_pos rfl, List.isEmpty_iff.mp empty,
            lastImportFrom] at answer
          obtain rfl := Option.some.inj answer
          exact .inr (by omega)
        · rw [Bool.not_eq_true] at empty
          rw [ended, empty, Bool.false_or, if_neg Bool.false_ne_true] at answer
          rcases ih closed answer with same | low
          · exact .inl same
          · exact .inr (by omega)
    · rw [if_neg begun] at answer
      rw [Bool.not_eq_true] at begun
      rw [begun, Bool.false_and] at closed
      rcases ih closed answer with same | low
      · exact .inl same
      · exact .inr (by omega)

/-- The line holds no key of an id and opens no record. -/
def Clear (line : String) : Prop :=
  (search afterIdKey? none line.toList).isNone ∧ opensRecord line = false

/-- No search for a record with one of the ids stops at the line. -/
def Passed (ids : List String) (line : String) : Prop :=
  opensRecord line = false ∧ ∀ id ∈ ids, hasId id line = false

theorem Clear.passed {line : String} (clear : Clear line) : Passed ids line :=
  ⟨clear.2, fun _ _ => hasId_of_keyless (keyless_iff.mp clear.1)⟩

theorem clear_default (clear : ∀ line ∈ lines, Clear line) (index : Nat) :
    Clear (lines[index]?.getD "") := by
  cases present : lines[index]? with
  | some line => exact clear line (List.mem_of_getElem? present)
  | none => exact ⟨rfl, rfl⟩

theorem lastBrace?_split {line first tail : String} (found : lastBrace? line = some (first, tail)) :
    ∃ after, line.toList = first.toList ++ '\x7d' :: after ∧ tail.toList = '\x7d' :: after := by
  simp only [lastBrace?] at found
  have whole := List.takeWhile_append_dropWhile (p := (· != '\x7d')) (l := line.toList.reverse)
  have stops := List.head?_dropWhile_not (· != '\x7d') line.toList.reverse
  generalize line.toList.reverse.takeWhile (· != '\x7d') = behind at found whole
  generalize line.toList.reverse.dropWhile (· != '\x7d') = ahead at stops whole
  have text : line.toList = ahead.reverse ++ behind.reverse := by
    rw [← List.reverse_append, whole, List.reverse_reverse]
  have size : line.length = ahead.length + behind.length := by
    rw [← String.length_toList, text]
    simp
  split at found
  · cases found
  · next longer =>
    obtain ⟨rfl, rfl⟩ := Prod.mk.inj (Option.some.inj found)
    cases ahead with
    | nil =>
      rw [size] at longer
      simp at longer
    | cons c ahead =>
      have brace : c = '\x7d' := by simpa using stops
      subst brace
      refine ⟨behind.reverse, ?_, String.toList_ofList⟩
      have count : line.length - behind.reverse.length - 1 = ahead.length := by
        rw [size, List.length_reverse, List.length_cons]
        omega
      rw [String.toList_ofList, count, text, List.reverse_cons, List.append_assoc,
        List.take_left' (List.length_reverse ..)]
      simp

theorem opensRecord_of_comma (line : String) : opensRecord (line ++ ",") = false := by
  apply opensRecord_of_getLast? (c := ',') _ (by decide) (by decide)
  rw [String.toList_append, List.getLast?_append]
  rfl

/-- A name put in front of the last brace of a clear line. -/
theorem passed_braced {line first tail : String} {kept gone : List Char}
    (clear : Clear line) (found : lastBrace? line = some (first, tail))
    (split : first.toList = kept ++ gone) (free : 'i' ∉ middle)
    (starts : ∃ c more, middle = c :: more ∧ c ≠ 'd' ∧ c ≠ ':') :
    Passed ids (String.ofList (kept ++ middle ++ tail.toList)) := by
  obtain ⟨after, whole, closing⟩ := lastBrace?_split found
  rw [closing]
  constructor
  · rw [opensRecord_append_brace, ← opensRecord_append_brace first.toList, ← whole,
      String.ofList_toList]
    exact clear.2
  · intro id _
    apply hasId_of_keyless
    rw [String.toList_ofList]
    have old : Keyless (kept ++ gone ++ '\x7d' :: after) := by
      rw [← split, ← whole]
      exact keyless_iff.mp clear.1
    exact keyless_patch old free starts (by simp)

theorem passed_of_mem_set {index : Nat} {line new : String} (clear : ∀ line ∈ head, Clear line)
    (passed : Passed ids new) (member : line ∈ head.set index new) : Passed ids line := by
  rcases List.mem_or_eq_of_mem_set member with old | rfl
  · exact (clear line old).passed
  · exact passed

theorem addName_above {start line : Nat} {first tail : String}
    (parts : buffer.lines = head ++ rest) (low : line < head.length)
    (clear : ∀ line ∈ head, Clear line)
    (found : lastBrace? ((buffer.line? line).getD "") = some (first, tail))
    (free : 'i' ∉ symbol.toList) :
    ∃ head', (addName buffer start line symbol first tail).lines = head' ++ rest ∧
      ∀ line ∈ head', Passed ids line := by
  have whole : Clear ((buffer.line? line).getD "") := by
    rw [Buffer.line?, parts, List.getElem?_append_left low]
    exact clear_default clear line
  obtain ⟨gone, trimmed, -⟩ := dropEndBlanks_split first.toList
  have replaced {new : String} (passed : Passed ids new) : ∃ head',
      (buffer.replace line new).lines = head' ++ rest ∧ ∀ line ∈ head', Passed ids line := by
    refine ⟨head.set line new, ?_, fun other member => passed_of_mem_set clear passed member⟩
    rw [Buffer.replace, parts, List.set_append_left _ _ low]
  rw [addName]
  split
  · next alone =>
    obtain ⟨-, later⟩ := alone
    have before : Clear ((buffer.line? (line - 1)).getD "") := by
      rw [Buffer.line?, parts, List.getElem?_append_left (by omega)]
      exact clear_default clear (line - 1)
    generalize (buffer.line? (line - 1)).getD "" = text at before
    have previous : Passed ids (if expectsName (stripEnd text) then text else
        stripEnd text ++ ",") := by
      split
      · exact before.passed
      · refine ⟨opensRecord_of_comma _, fun id _ => hasId_of_keyless ?_⟩
        obtain ⟨lost, cut, -⟩ := dropEndBlanks_split text.toList
        have old : Keyless (dropEndBlanks text.toList ++ lost ++ []) := by
          simpa [← cut] using keyless_iff.mp before.1
        have comma : 'i' ∉ [','] := by decide
        have patched := keyless_patch old comma ⟨',', [], rfl, by decide, by decide⟩ (by simp)
        simpa [stripEnd] using patched
    dsimp only
    generalize (if expectsName (stripEnd text) then text else stripEnd text ++ ",") = changed
      at previous ⊢
    refine ⟨putLines line [indentOf changed ++ symbol ++ ","] (head.set (line - 1) changed), ?_, ?_⟩
    · rw [← putLines_append_left (by rw [List.length_set]; omega), ← List.set_append_left _ _
        (by omega : line - 1 < head.length), ← parts]
      rfl
    · intro other member
      rcases mem_putLines.mp member with new | old
      · rw [List.mem_singleton.mp new]
        refine ⟨opensRecord_of_comma _, fun id _ => ?_⟩
        rw [String.append_assoc, hasId_indent (isIndent_indentOf _)]
        apply hasId_of_keyless
        apply keyless_of_not_mem
        simpa using free
      · exact passed_of_mem_set clear previous old
  · split
    · apply replaced
      have foreign : 'i' ∉ ' ' :: (symbol.toList ++ [' ']) := by simpa using free
      have same : stripEnd first ++ " " ++ symbol ++ " " ++ tail = String.ofList
          (dropEndBlanks first.toList ++ ' ' :: (symbol.toList ++ [' ']) ++ tail.toList) := by
        apply String.toList_injective
        simp [stripEnd]
      rw [same]
      exact passed_braced whole found trimmed foreign ⟨' ', _, rfl, by decide, by decide⟩
    · apply replaced
      have foreign : 'i' ∉ ',' :: ' ' :: (symbol.toList ++ [' ']) := by simpa using free
      have same : stripEnd first ++ ", " ++ symbol ++ " " ++ tail = String.ofList
          (dropEndBlanks first.toList ++ ',' :: ' ' :: (symbol.toList ++ [' ']) ++
            tail.toList) := by
        apply String.toList_injective
        simp [stripEnd]
      rw [same]
      exact passed_braced whole found trimmed foreign ⟨',', _, rfl, by decide, by decide⟩

/-- A name goes into the list that closes on the nearest line above, or nowhere. -/
theorem extendImport_eq (buffer : Buffer) (start : Nat) (symbol : String) (line : Nat) :
    extendImport buffer start symbol line = (buffer, .withoutNames) ∨
      ∃ place ≤ line, (start ≤ line → start ≤ place) ∧ ∃ head tail,
        lastBrace? ((buffer.line? place).getD "") = some (head, tail) ∧
          extendImport buffer start symbol line =
            (addName buffer start place symbol head tail, .added) := by
  induction line with
  | zero =>
    rw [extendImport.eq_def]
    cases found : lastBrace? ((buffer.line? 0).getD "") with
    | none => exact .inl rfl
    | some cut => exact .inr ⟨0, Nat.le_refl 0, id, cut.1, cut.2, found, rfl⟩
  | succ line ih =>
    rw [extendImport.eq_def]
    cases found : lastBrace? ((buffer.line? (line + 1)).getD "") with
    | none =>
      by_cases top : line + 1 ≤ start
      · exact .inl (if_pos top)
      · simp only [if_neg top]
        rcases ih with same | ⟨place, above, below, taken⟩
        · exact .inl same
        · exact .inr ⟨place, Nat.le_succ_of_le above, fun _ => below (by omega), taken⟩
    | some cut => exact .inr ⟨line + 1, Nat.le_refl _, id, cut.1, cut.2, found, rfl⟩

theorem extendImport_above {start line : Nat} (parts : buffer.lines = head ++ rest)
    (low : line < head.length) (clear : ∀ line ∈ head, Clear line) (free : 'i' ∉ symbol.toList) :
    ∃ head', (extendImport buffer start symbol line).1.lines = head' ++ rest ∧
      ∀ line ∈ head', Passed ids line := by
  rcases extendImport_eq buffer start symbol line with same | ⟨place, above, -, _, _, found, taken⟩
  · rw [same]
    exact ⟨head, parts, fun line member => (clear line member).passed⟩
  · rw [taken]
    exact addName_above parts (Nat.lt_of_le_of_lt above low) clear found free

/-- The statement that imports a symbol on its own. -/
def importStatement (symbol module : String) : String :=
  "import \x7b " ++ symbol ++ " \x7d from '" ++ importSource module ++ "';"

theorem addStatement_above (parts : buffer.lines = head ++ rest)
    (clear : ∀ line ∈ head, Clear line) (closed : importOpen false head = false)
    (below : ∀ line ∈ rest, startsImport line = false)
    (statement : ∀ id ∈ ids, hasId id (importStatement symbol module) = false) :
    ∃ head', (addStatement buffer symbol module).lines = head' ++ rest ∧
      ∀ line ∈ head', Passed ids line := by
  have passed : Passed ids (importStatement symbol module) := by
    refine ⟨opensRecord_of_getLast? (c := ';') ?_ (by decide) (by decide), statement⟩
    rw [importStatement, String.toList_append, List.getLast?_append]
    rfl
  have blank : Passed ids "" := ⟨rfl, fun _ _ => rfl⟩
  simp only [addStatement]
  cases answer : lastImportLine buffer.lines with
  | none =>
    refine ⟨[importStatement symbol module, ""] ++ head, ?_, ?_⟩
    · rw [List.append_assoc, ← parts]
      simp [Buffer.insertLines, importStatement]
    · intro line member
      simp only [List.cons_append, List.nil_append, List.mem_cons] at member
      rcases member with rfl | rfl | old
      · exact passed
      · exact blank
      · exact (clear line old).passed
  | some last =>
    have low : last < head.length := by
      rw [lastImportLine, parts] at answer
      rcases lastImportFrom_lt closed below answer with none | low
      · cases none
      · omega
    refine ⟨putLines (last + 1) [importStatement symbol module] head, ?_, ?_⟩
    · rw [← putLines_append_left low, ← parts]
      rfl
    · intro line member
      rcases mem_putLines.mp member with new | old
      · rw [List.mem_singleton.mp new]
        exact passed
      · exact (clear line old).passed

/-- Keeping an import in order touches the lines above only. -/
theorem ensureImport_above (parts : buffer.lines = head ++ rest)
    (clear : ∀ line ∈ head, Clear line) (closed : importOpen false head = false)
    (below : ∀ line ∈ rest, startsImport line = false ∧ namesModule module line = false)
    (statement : ∀ id ∈ ids, hasId id (importStatement symbol module) = false)
    (free : 'i' ∉ symbol.toList) :
    ∃ head', (ensureImport buffer symbol module).1.lines = head' ++ rest ∧
      ∀ line ∈ head', Passed ids line := by
  rw [ensureImport]
  cases answer : firstLine (namesModule module) 0 buffer.lines with
  | none =>
    exact addStatement_above parts clear closed (fun line member => (below line member).1)
      statement
  | some last =>
    have low : last < head.length := by
      obtain ⟨-, names, -⟩ := firstLine_iff_firstAt.mp answer
      by_contra high
      rw [parts, List.getElem?_append_right (by omega)] at names
      cases present : rest[last - head.length]? with
      | none =>
        rw [present] at names
        cases names
      | some line =>
        rw [present, Option.any_some, (below line (List.mem_of_getElem? present)).2] at names
        cases names
    simp only
    split
    · exact ⟨head, parts, fun line member => (clear line member).passed⟩
    · exact extendImport_above parts low clear free

/-- The imports stand above some line, with no id and no record among them. -/
def ImportsAbove (module : String) (lines : List String) : Prop :=
  ∃ top, (∀ line ∈ lines.take top, Clear line) ∧ importOpen false (lines.take top) = false ∧
    ∀ line ∈ lines.drop top, startsImport line = false ∧ namesModule module line = false

theorem ImportsAbove.split (imports : ImportsAbove module lines) :
    ∃ head, (∀ line ∈ head, Clear line) ∧ importOpen false head = false ∧
      lines.take head.length = head ∧
      ∀ line ∈ lines.drop head.length,
        startsImport line = false ∧ namesModule module line = false := by
  obtain ⟨top, clear, closed, below⟩ := imports
  refine ⟨lines.take top, clear, closed, ?_, ?_⟩
  · apply List.take_eq_take_iff.mpr
    rw [List.length_take]
    omega
  · rcases Nat.le_total top lines.length with low | high
    · rwa [List.length_take, Nat.min_eq_left low]
    · intro line member
      rw [List.length_take, Nat.min_eq_right high, List.drop_length] at member
      cases member

section Behind

variable {extent : Extent}

theorem stands_behind (passed : ∀ line ∈ head, Passed [id] line)
    (stands : extent.Stands (head ++ rest) id) :
    ∃ other : Extent, extent = other.push 0 head.length ∧ other.Stands rest id := by
  have whole : putLines 0 head rest = head ++ rest := by simp [putLines]
  rw [← whole] at stands
  exact Extent.stands_of_putLines (Nat.zero_le _)
    (fun line member => (passed line member).2 id (by simp))
    (fun line member => (passed line member).1) (.inl rfl) stands

theorem stands_below (passed : ∀ line ∈ head, Passed [id] line) (stands : extent.Stands rest id) :
    (extent.push 0 head.length).Stands (head ++ rest) id := by
  have whole : putLines 0 head rest = head ++ rest := by simp [putLines]
  rw [← whole]
  exact stands.putLines_top (Nat.zero_le _)
    (fun line member => (passed line member).2 id (by simp))
    (fun line member => (passed line member).1) rfl

theorem length_le_first (clear : ∀ line ∈ head, Clear line)
    (above : lines.take head.length = head) (stands : extent.Stands lines id) :
    head.length ≤ extent.first := by
  rw [← List.take_append_drop head.length lines, above] at stands
  obtain ⟨other, rfl, -⟩ := stands_behind (fun line there => (clear line there).passed) stands
  exact Nat.le_add_left ..

end Behind

end Stagecraft
