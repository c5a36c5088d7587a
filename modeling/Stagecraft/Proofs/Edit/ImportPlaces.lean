import Stagecraft.Proofs.Edit.Patch

/-!
Where the import of a module stands: it ends on the first line that names the module, and begins on
the nearest line above that begins with `import`. It stays where it is when a name is taken into it.
-/

namespace Stagecraft

variable {text front back kept gone middle old new lead rest name : List Char} {mark : Char}
  {line changed symbol module : String} {lines : List String} {start last index : Nat}

section Names

/-- The text ends with the word `from`, blanks and an opening quote. -/
def OpensSource (text : List Char) : Prop :=
  ∃ front c blanks mark, text = front ++ ("from".toList ++ c :: (blanks ++ [mark])) ∧ isBlank c ∧
    (∀ d ∈ blanks, isBlank d) ∧ isQuote mark

/-- The text goes on, up to the next quote, with the module at the end. -/
def ClosesSource (name text : List Char) : Prop :=
  ∃ lead mark rest, text = lead ++ (name ++ mark :: rest) ∧ (∀ c ∈ lead, isQuote c = false) ∧
    isQuote mark

theorem endsWithModule_iff : endsWithModule name text = true ↔ ClosesSource name text := by
  induction text with
  | nil =>
    constructor
    · intro none
      cases none
    · rintro ⟨lead, mark, rest, split, -⟩
      simp at split
  | cons c text ih =>
    rw [endsWithModule, Bool.or_eq_true, Bool.and_eq_true, Bool.not_eq_true', ih]
    constructor
    · rintro (here | ⟨plain, lead, mark, rest, rfl, plain', quote⟩)
      · split at here
        · next mark rest after =>
          have whole : c :: text = name ++ mark :: rest := eq_append_of_after? after
          exact ⟨[], mark, rest, whole, by simp, here⟩
        · cases here
      · exact ⟨c :: lead, mark, rest, rfl, by simpa using ⟨plain, plain'⟩, quote⟩
    · rintro ⟨lead, mark, rest, split, plain, quote⟩
      cases lead with
      | nil =>
        left
        rw [List.nil_append] at split
        rw [split, after?_append]
        exact quote
      | cons d lead =>
        obtain ⟨rfl, rfl⟩ := List.cons.inj split
        right
        exact ⟨plain c (List.mem_cons_self ..), lead, mark, rest, rfl,
          fun d member => plain d (List.mem_cons_of_mem _ member), quote⟩

theorem namesModule_iff : namesModule module line = true ↔
    ∃ front back, line.toList = front ++ back ∧ OpensSource front ∧
      ClosesSource module.toList back := by
  rw [namesModule, searchFor, search_isSome_iff]
  constructor
  · rintro ⟨front, back, split, read⟩
    obtain ⟨_, read⟩ := Option.isSome_iff_exists.mp read
    obtain ⟨quoted, word, read⟩ := Option.bind_eq_some_iff.mp read
    split at read
    · next mark rest =>
      split at read
      · next both =>
        obtain ⟨quote, ends⟩ := Bool.and_eq_true_iff.mp both
        obtain ⟨c, blanks, rfl, blank, blanks'⟩ := (afterFrom?_iff quote).mp word
        exact ⟨front ++ ("from".toList ++ c :: (blanks ++ [mark])), rest, by simp [split],
          ⟨front, c, blanks, mark, rfl, blank, blanks', quote⟩, endsWithModule_iff.mp ends⟩
      · cases read
    · cases read
  · rintro ⟨_, rest, split, ⟨front, c, blanks, mark, rfl, blank, blanks', quote⟩, closes⟩
    refine ⟨front, "from".toList ++ c :: (blanks ++ mark :: rest), by simp [split], ?_⟩
    have word : afterFrom? ("from".toList ++ c :: (blanks ++ mark :: rest)) = some (mark :: rest) :=
      (afterFrom?_iff quote).mpr ⟨c, blanks, rfl, blank, blanks'⟩
    rw [word, Option.bind_eq_bind, Option.bind_some]
    simp [quote, endsWithModule_iff.mpr closes]

theorem OpensSource.append (opens : OpensSource text) (front : List Char) :
    OpensSource (front ++ text) := by
  obtain ⟨before, c, blanks, mark, rfl, parts⟩ := opens
  exact ⟨front ++ before, c, blanks, mark, by simp, parts⟩

/-- A source is not opened across a brace. -/
theorem OpensSource.behind (opens : OpensSource (front ++ '\x7d' :: rest)) : OpensSource rest := by
  obtain ⟨before, c, blanks, mark, split, blank, blanks', quote⟩ := opens
  have free : '\x7d' ∉ "from".toList ++ c :: (blanks ++ [mark]) :=
    not_mem_opening (by decide) blank blanks' quote
  rcases List.append_eq_append_iff.mp split with ⟨gap, -, inside⟩ | ⟨gap, -, inside⟩
  · cases gap with
    | nil =>
      rw [List.nil_append] at inside
      rw [← inside] at free
      exact absurd (List.mem_cons_self ..) free
    | cons d gap =>
      obtain ⟨rfl, rfl⟩ := List.cons.inj inside
      exact ⟨gap, c, blanks, mark, rfl, blank, blanks', quote⟩
  · rw [inside] at free
    exact absurd (List.mem_append_right _ (List.mem_cons_self ..)) free

/-- A quote stands in front of where the text gives way, or behind the brace. -/
theorem quote_place (plain : ∀ c ∈ middle, isQuote c = false)
    (behind : back = [] ∨ ∃ rest, back = '\x7d' :: rest) (quote : isQuote mark)
    (split : kept ++ middle ++ back = front ++ mark :: rest) :
    (∃ gap, kept = front ++ mark :: gap ∧ rest = gap ++ (middle ++ back)) ∨
      ∃ gap, front = kept ++ middle ++ '\x7d' :: gap ∧ back = '\x7d' :: gap ++ mark :: rest := by
  have brace {rest : List Char} (same : back = mark :: rest) : False := by
    rcases behind with none | ⟨more, brace⟩
    · rw [none] at same
      cases same
    · rw [brace] at same
      exact (not_blank_of_isQuote quote).2 (List.cons.inj same).1.symm
  rcases List.append_eq_append_iff.mp split with ⟨gap, rfl, inside⟩ | ⟨gap, inside, last⟩
  · cases gap with
    | nil => exact (brace inside).elim
    | cons d gap =>
      rcases behind with none | ⟨more, shape⟩
      · rw [none] at inside
        cases inside
      · obtain rfl : d = '\x7d' := by
          rw [shape] at inside
          exact (List.cons.inj inside).1.symm
        exact .inr ⟨gap, rfl, inside⟩
  · cases gap with
    | nil => exact (brace last.symm).elim
    | cons d gap =>
      obtain ⟨rfl, rfl⟩ := List.cons.inj last
      have absent : mark ∉ middle := by
        intro member
        rw [plain mark member] at quote
        cases quote
      obtain ⟨more, rfl, rfl⟩ := split_behind inside absent
      exact .inl ⟨more, rfl, List.append_assoc ..⟩

theorem ClosesSource.swap (free : '\x7d' ∉ name) (old : ∀ c ∈ gone, isQuote c = false)
    (plain : ∀ c ∈ middle, isQuote c = false) (behind : back = [] ∨ ∃ rest, back = '\x7d' :: rest)
    (closes : ClosesSource name (kept ++ gone ++ back)) :
    ClosesSource name (kept ++ middle ++ back) := by
  obtain ⟨lead, mark, rest, split, inside, quote⟩ := closes
  rw [← List.append_assoc lead] at split
  rcases quote_place old behind quote split with ⟨gap, rfl, -⟩ | ⟨gap, above, rfl⟩
  · exact ⟨lead, mark, gap ++ (middle ++ back), by simp, inside, quote⟩
  · -- the brace is in front of the module
    obtain ⟨more, rfl, rfl⟩ := split_behind above free
    refine ⟨kept ++ middle ++ '\x7d' :: more, mark, rest, by simp, ?_, quote⟩
    simp only [List.mem_append, List.mem_cons, or_imp, forall_and] at inside ⊢
    exact ⟨⟨inside.1.1, plain⟩, inside.2⟩

/-- What a line takes from a source does not change in front of a closing brace or at the end, as
long as no quotes come or go. -/
theorem namesModule_swap (free : '\x7d' ∉ module.toList) (old : ∀ c ∈ gone, isQuote c = false)
    (plain : ∀ c ∈ middle, isQuote c = false) (behind : back = [] ∨ ∃ rest, back = '\x7d' :: rest)
    (before : line.toList = kept ++ gone ++ back) (after : changed.toList = kept ++ middle ++ back)
    (names : namesModule module line = true) : namesModule module changed = true := by
  obtain ⟨_, tail, split, opens, closes⟩ := namesModule_iff.mp names
  apply namesModule_iff.mpr
  obtain ⟨front, c, blanks, mark, rfl, blank, blanks', quote⟩ := opens
  have ends : front ++ ("from".toList ++ c :: (blanks ++ [mark])) =
      front ++ ("from".toList ++ c :: blanks) ++ [mark] := by simp
  have opens : OpensSource (front ++ ("from".toList ++ c :: blanks) ++ [mark]) :=
    ⟨front, c, blanks, mark, ends.symm, blank, blanks', quote⟩
  generalize front ++ ("from".toList ++ c :: blanks) = lead at ends opens
  rw [ends, before, List.append_assoc lead, List.singleton_append] at split
  rcases quote_place old behind quote split with ⟨gap, rfl, rfl⟩ | ⟨gap, rfl, rfl⟩
  · rw [← List.append_assoc] at closes
    exact ⟨lead ++ [mark], gap ++ middle ++ back, by simp [after], opens,
      closes.swap free old plain behind⟩
  · -- the source is opened behind the brace
    rw [List.append_assoc, List.cons_append] at opens
    exact ⟨kept ++ middle ++ ['\x7d'] ++ (gap ++ [mark]), tail, by simp [after],
      opens.behind.append _, closes⟩

theorem Gives.namesModule_eq (gives : Gives line.toList changed.toList kept gone middle back)
    (free : '\x7d' ∉ module.toList) : namesModule module changed = namesModule module line := by
  have blank : ∀ c ∈ gone, isQuote c = false := by
    intro c member
    by_contra quote
    rw [Bool.not_eq_false] at quote
    have white := gives.blank c member
    rw [(not_blank_of_isQuote quote).1] at white
    cases white
  rw [Bool.eq_iff_iff]
  constructor
  · exact namesModule_swap free gives.plain blank gives.behind gives.after gives.before
  · exact namesModule_swap free blank gives.plain gives.behind gives.before gives.after

/-- Without quotes there is no source. -/
theorem namesModule_of_plain (plain : ∀ c ∈ line.toList, isQuote c = false) :
    namesModule module line = false := by
  rw [← Bool.not_eq_true]
  intro names
  obtain ⟨_, back, split, ⟨front, c, blanks, mark, rfl, -, -, quote⟩, -⟩ :=
    namesModule_iff.mp names
  rw [plain mark (by simp [split])] at quote
  cases quote

end Names

section Begins

/-- The line begins with `import` after its indent. -/
def beginsImport (line : String) : Bool := startsWith (stripStart line) "import"

theorem beginsImport_iff : beginsImport line = true ↔
    ∃ blanks rest, line.toList = blanks ++ ("import".toList ++ rest) ∧ ∀ c ∈ blanks, isBlank c := by
  have stripped : (stripStart line).toList = skipBlanks line.toList := String.toList_ofList
  rw [beginsImport, startsWith, List.isPrefixOf_iff_prefix, stripped]
  constructor
  · intro begins
    obtain ⟨rest, same⟩ := begins
    refine ⟨line.toList.takeWhile isBlank, rest, ?_, fun c member => List.mem_takeWhile_imp member⟩
    rw [same, takeWhile_append_skipBlanks]
  · intro parts
    obtain ⟨blanks, rest, split, blank⟩ := parts
    rw [split, skipBlanks_append blank]
    exact ⟨rest, rfl⟩

theorem Gives.beginsImport_eq (gives : Gives line.toList changed.toList kept gone middle back)
    (solid : ∀ c ∈ middle.head?, isBlank c → ∃ d ∈ kept, isBlank d = false) :
    beginsImport changed = beginsImport line := by
  rw [Bool.eq_iff_iff, beginsImport_iff, beginsImport_iff]
  constructor
  · intro begins
    obtain ⟨blanks, rest, split, blank⟩ := begins
    obtain ⟨c, more, shape, other⟩ := gives.starts
    have absent : c ∉ "import".toList := by
      intro member
      have letters : ∀ d ∈ "import".toList, isWord d = true := List.all_eq_true.mp (by decide)
      rw [letters c member] at other
      cases other
    rw [gives.after, List.append_assoc, ← List.append_assoc blanks] at split
    rcases List.append_eq_append_iff.mp split with ⟨gap, inside, behind⟩ | ⟨gap, rfl, behind⟩
    · cases gap with
      | nil =>
        rw [List.append_nil] at inside
        exact ⟨blanks, gone ++ back, by simp [gives.before, ← inside], blank⟩
      | cons d gap =>
        -- the word would begin behind what is kept, with nothing but blanks before it
        rw [shape] at behind
        obtain ⟨rfl, -⟩ := List.cons.inj behind
        obtain ⟨between, rfl, -⟩ := split_behind inside absent
        obtain ⟨d, member, ink⟩ := solid c (by simp [shape]) (blank c (by simp))
        rw [blank d (by simp [member])] at ink
        cases ink
    · exact ⟨blanks, gap ++ (gone ++ back), by simp [gives.before], blank⟩
  · intro begins
    obtain ⟨blanks, rest, split, blank⟩ := begins
    have word : "import".toList = "impor".toList ++ ['t'] := by decide
    rw [word, List.append_assoc, ← List.append_assoc blanks] at split
    have free : '\x7d' ∉ blanks ++ "impor".toList ++ ['t'] := by
      have brace : isBlank '\x7d' = false := by decide
      intro member
      rw [List.append_assoc, List.mem_append] at member
      rcases member with white | letter
      · rw [blank _ white] at brace
        cases brace
      · exact absurd letter (by decide)
    obtain ⟨behind, same⟩ := gives.lead split (by decide) free
    exact ⟨blanks, behind, by rw [same, word]; simp, blank⟩

end Begins

section Places

/-- The import of a module, from its first line to its last one. -/
structure ImportAt (module : String) (lines : List String) (start last : Nat) : Prop where
  names : FirstAt (namesModule module) lines 0 last
  order : start ≤ last
  begins : start = 0 ∨ (lines[start]?).any beginsImport
  nearest : ∀ between, start < between → between ≤ last → ¬ (lines[between]?).any beginsImport

theorem importStart_spec : importStart lines last ≤ last ∧
    (importStart lines last = 0 ∨ (lines[importStart lines last]?).any beginsImport) ∧
    ∀ between, importStart lines last < between → between ≤ last →
      ¬ (lines[between]?).any beginsImport := by
  induction last with
  | zero =>
    refine ⟨Nat.le_refl _, .inl rfl, ?_⟩
    intro between low high
    exact absurd (Nat.lt_of_lt_of_le low high) (Nat.lt_irrefl _)
  | succ last ih =>
    rw [importStart]
    split
    · next begins =>
      refine ⟨Nat.le_refl _, .inr begins, ?_⟩
      intro between low high
      exact absurd (Nat.lt_of_lt_of_le low high) (Nat.lt_irrefl _)
    · next other =>
      obtain ⟨order, begins, nearest⟩ := ih
      refine ⟨Nat.le_succ_of_le order, begins, ?_⟩
      intro between low high
      rcases Nat.le_or_eq_of_le_succ high with high | rfl
      · exact nearest between low high
      · exact other

theorem importAt_iff : ImportAt module lines start last ↔
    firstLine (namesModule module) 0 lines = some last ∧ importStart lines last = start := by
  obtain ⟨order, begins, nearest⟩ := @importStart_spec lines last
  rw [firstLine_iff_firstAt]
  constructor
  · intro found
    refine ⟨found.names, ?_⟩
    rcases Nat.lt_trichotomy (importStart lines last) start with low | same | high
    · rcases found.begins with rfl | there
      · exact absurd low (Nat.not_lt_zero _)
      · exact absurd there (nearest start low found.order)
    · exact same
    · rcases begins with top | there
      · rw [top] at high
        exact absurd high (Nat.not_lt_zero _)
      · exact absurd there (found.nearest _ high order)
  · intro parts
    obtain ⟨names, rfl⟩ := parts
    exact ⟨names, order, begins, nearest⟩

namespace ImportAt

variable (found : ImportAt module lines start last)

include found

theorem last_lt : last < lines.length := by
  obtain ⟨line, present, -⟩ := (Option.any_eq_true _ _).mp found.names.2.1
  exact (List.getElem?_eq_some_iff.mp present).1

/-- A line of the file changes, but goes on naming the module, and beginning an import, or not. -/
theorem set (present : lines[index]? = some line)
    (names : namesModule module changed = namesModule module line)
    (begins : beginsImport changed = beginsImport line) :
    ImportAt module (lines.set index changed) start last := by
  have same {test : String → Bool} (alike : test changed = test line) (place : Nat) :
      ((lines.set index changed)[place]?).any test = (lines[place]?).any test := by
    rw [List.getElem?_set]
    split
    · next here =>
      subst here
      rw [if_pos (List.getElem?_eq_some_iff.mp present).1, present, Option.any_some,
        Option.any_some, alike]
    · rfl
  obtain ⟨low, there, before⟩ := found.names
  constructor
  · refine ⟨low, by rwa [same names], ?_⟩
    intro between first less
    rw [same names]
    exact before between first less
  · exact found.order
  · rw [same begins]
    exact found.begins
  · intro between low high
    rw [same begins]
    exact found.nearest between low high

/-- A line that neither names the module nor begins an import goes in behind the first line. -/
theorem put (low : start < index) (high : index ≤ last)
    (names : namesModule module changed = false) (begins : beginsImport changed = false) :
    ImportAt module (putLines index [changed] lines) start (last + 1) := by
  have inside : index ≤ lines.length := Nat.le_trans high (Nat.le_of_lt found.last_lt)
  have above : pushDown index [changed].length 0 = 0 := pushDown_of_lt (Nat.zero_lt_of_lt low)
  have below : last + 1 = pushDown index [changed].length last := by
    rw [pushDown, if_pos high, List.length_singleton]
  have first : pushDown index [changed].length start = start := pushDown_of_lt low
  constructor
  · rw [← above]
    apply (firstAt_putLines inside (.inr ?_)).mpr
    · exact ⟨last, below, found.names⟩
    · exact List.forall_mem_singleton.mpr names
  · exact Nat.le_succ_of_le found.order
  · refine found.begins.imp_right fun there => ?_
    rw [← first, getElem?_putLines_old inside]
    exact there
  · intro between after high' holds
    obtain ⟨old, rfl, there⟩ := exists_old_of_test inside
      (List.forall_mem_singleton.mpr begins) holds
    rw [← first, pushDown_lt_iff] at after
    rw [below, pushDown_le_iff] at high'
    exact found.nearest old after high' there

end ImportAt

theorem ImportAt.replace {above below : List String}
    (found : ImportAt module (above ++ [line] ++ below) start last)
    (names : namesModule module changed = namesModule module line)
    (begins : beginsImport changed = beginsImport line) :
    ImportAt module (above ++ [changed] ++ below) start last := by
  have present : (above ++ [line] ++ below)[above.length]? = some line := by simp
  have made := found.set present names begins
  have same : (above ++ [line] ++ below).set above.length changed =
      above ++ [changed] ++ below := by simp
  rwa [same] at made

theorem ImportAt.insert {above below : List String}
    (found : ImportAt module (above ++ below) start last) (low : start < above.length)
    (high : above.length ≤ last) (names : namesModule module changed = false)
    (begins : beginsImport changed = false) :
    ImportAt module (above ++ [changed] ++ below) start (last + 1) := by
  have made := found.put low high names begins
  rwa [putLines, List.take_left, List.drop_left] at made

end Places

end Stagecraft
