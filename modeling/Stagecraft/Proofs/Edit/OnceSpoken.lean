import Stagecraft.Proofs.Edit.Settling
import Stagecraft.Proofs.Edit.Turns

/-!
What a row puts into its record. Each character without a line of its own gets one, its first; the
lines stand together under one comment. The line that opens the scene may come on top of that, below
the first entrance, and does not break up the others.
-/

namespace Stagecraft

variable {buffer : Buffer} {record : Span} {site : Site} {fixes : SpeechFixes}
  {speeches missing : List Speech} {added : List String} {spoken : String → Bool}
  {lines more : List String} {indent : String} {index line opening closing point entrance : Nat}

section Missing

/-- The character is heard neither in the record nor in the speeches so far. -/
def unheard (spoken : String → Bool) (added : List String) (who : String) : Bool :=
  !(added.contains who || spoken who)

theorem unheard_cons (who other : String) :
    unheard spoken (other :: added) who = (!who == other && unheard spoken added who) := by
  simp only [unheard, List.contains_cons, Bool.not_or, Bool.and_assoc]

variable (asked : ∀ who, hasDialogue buffer record who = .ok (spoken who))

include asked

theorem missingSpeeches_cons {first : Speech}
    (ran : missingSpeeches buffer record added (first :: speeches) = .ok missing) :
    unheard spoken added first.character = false ∧
        missingSpeeches buffer record added speeches = .ok missing ∨
      unheard spoken added first.character = true ∧ ∃ others, missing = first :: others ∧
        missingSpeeches buffer record (first.character :: added) speeches = .ok others := by
  rw [missingSpeeches] at ran
  split at ran
  · next known =>
    exact .inl ⟨by rw [unheard, known, Bool.true_or, Bool.not_true], ran⟩
  · next new =>
    rw [Bool.not_eq_true] at new
    obtain ⟨heard, told, ran⟩ := Except.bind_ran.mp ran
    obtain rfl : spoken first.character = heard := Except.ok.inj ((asked _).symm.trans told)
    split at ran
    · next loud =>
      exact .inl ⟨by rw [unheard, loud, Bool.or_true, Bool.not_true], ran⟩
    · next silent =>
      rw [Bool.not_eq_true] at silent
      obtain ⟨others, found, ran⟩ := Except.bind_ran.mp ran
      refine .inr ⟨?_, others, (Except.ok.inj ran).symm, found⟩
      rw [unheard, new, silent, Bool.or_self, Bool.not_false]

/-- One speech goes in for each character that is not heard, in the order in which the characters
come first. -/
theorem missingSpeeches_characters
    (ran : missingSpeeches buffer record added speeches = .ok missing) :
    missing.map (·.character) =
      ((speeches.map (·.character)).filter (unheard spoken added)).eraseDups := by
  induction speeches generalizing added missing with
  | nil =>
    obtain rfl : [] = missing := Except.ok.inj ran
    rfl
  | cons first rest ih =>
    rw [List.map_cons]
    rcases missingSpeeches_cons asked ran with ⟨heard, found⟩ | ⟨silent, others, rfl, found⟩
    · rw [List.filter_cons_of_neg (Bool.not_eq_true _ ▸ heard)]
      exact ih found
    · have same : unheard spoken (first.character :: added) =
          fun who => !who == first.character && unheard spoken added who :=
        funext fun who => unheard_cons who first.character
      rw [List.filter_cons_of_pos silent, List.eraseDups_cons, List.map_cons, ih found,
        List.filter_filter, same]

/-- It is the first one for its character. -/
theorem missingSpeeches_first (ran : missingSpeeches buffer record added speeches = .ok missing) :
    ∀ speech ∈ missing, speeches.find? (·.character == speech.character) = some speech := by
  induction speeches generalizing added missing with
  | nil =>
    obtain rfl : [] = missing := Except.ok.inj ran
    intro speech member
    cases member
  | cons first rest ih =>
    have later {added : List String} {missing : List Speech}
        (ran : missingSpeeches buffer record added rest = .ok missing)
        (heard : unheard spoken added first.character = false) :
        ∀ speech ∈ missing,
          (first :: rest).find? (·.character == speech.character) = some speech := by
      intro speech member
      have there : speech.character ∈ missing.map (·.character) :=
        List.mem_map.mpr ⟨speech, member, rfl⟩
      rw [missingSpeeches_characters asked ran, List.mem_eraseDups, List.mem_filter] at there
      have apart : (first.character == speech.character) = false := by
        apply beq_false_of_ne
        intro same
        rw [← same, heard] at there
        exact Bool.false_ne_true there.2
      rw [List.find?_cons, apart]
      exact ih ran speech member
    rcases missingSpeeches_cons asked ran with ⟨heard, found⟩ | ⟨silent, others, rfl, found⟩
    · exact later found heard
    · intro speech member
      rcases List.mem_cons.mp member with rfl | member
      · rw [List.find?_cons, beq_self_eq_true]
      · refine later found ?_ speech member
        rw [unheard_cons, beq_self_eq_true, Bool.not_true, Bool.false_and]

end Missing

/-- The lines that a row puts in for the speeches that are missing. -/
def spokenLines (missing : List Speech) (indent : String) : List String :=
  if missing = [] then [] else dialogueBlock missing indent

theorem entersOn_spokenLines (blank : IsIndent indent) :
    ∀ line ∈ spokenLines missing indent, entersOn line = false := by
  intro line member
  rw [spokenLines] at member
  split at member
  · cases member
  · rw [dialogueBlock, List.mem_cons, List.mem_map] at member
    rcases member with rfl | ⟨speech, -, rfl⟩
    · rw [entersOn, spreadDirective?_comment blank]
      rfl
    · rw [entersOn, spreadDirective?_speakLine blank]
      decide

section Entrances

variable (inside : index ≤ lines.length)

include inside

theorem levelAt_putLines_above (above : line < index) :
    LevelAt (putLines index more lines) (pushDown index more.length opening)
        (pushDown index more.length closing) line ↔ LevelAt lines opening closing line := by
  have front : (putLines index more lines).take line = lines.take line := by
    rw [putLines, List.append_assoc, List.take_append_of_le_length (by simp; omega),
      List.take_take, Nat.min_eq_left (Nat.le_of_lt above)]
  have starts : pushDown index more.length opening < line ↔ opening < line := by
    simp only [pushDown]
    split <;> omega
  have ends : line < pushDown index more.length closing ↔ line < closing := by
    simp only [pushDown]
    split <;> omega
  rw [LevelAt, LevelAt, starts, ends]
  apply and_congr_right
  intro low
  rw [pushDown_of_lt (Nat.lt_trans low above), depthAt, front, depthAt]

/-- The first entrance above the new lines is still the first one. -/
theorem entranceAt_putLines_above (above : entrance < index)
    (first : EntranceAt lines opening closing entrance) :
    EntranceAt (putLines index more lines) (pushDown index more.length opening)
      (pushDown index more.length closing) entrance := by
  have same {early : Nat} (low : early < index) :
      (putLines index more lines)[early]? = lines[early]? := by
    have old : (putLines index more lines)[pushDown index more.length early]? = lines[early]? :=
      getElem?_putLines_old inside early
    rwa [pushDown_of_lt low] at old
  obtain ⟨level, enters, before⟩ := first
  refine ⟨(levelAt_putLines_above inside above).mpr level, by rwa [same above], ?_⟩
  intro early there low
  have far : early < index := Nat.lt_trans low above
  rw [same far]
  exact before early ((levelAt_putLines_above inside far).mp there) low

end Entrances

section Rows

/-- The site when the speeches that are missing have gone in. -/
def Site.told (site : Site) (point : Nat) (missing : List Speech) (indent : String) : Site :=
  if missing = [] then site else site.put point (dialogueBlock missing indent)

theorem Site.lines_told : (site.told point missing indent).buffer.lines =
    putLines point (spokenLines missing indent) site.buffer.lines := by
  rw [Site.told, spokenLines]
  split
  · rw [putLines_nil]
  · rfl

theorem Site.steps_told (order : site.steps.start < site.steps.stop) :
    (site.told point missing indent).steps.start =
        pushDown point (spokenLines missing indent).length site.steps.start ∧
      (site.told point missing indent).steps.stop - 1 =
        pushDown point (spokenLines missing indent).length (site.steps.stop - 1) := by
  rw [Site.told, spokenLines]
  split
  · simp [pushDown]
  · refine ⟨rfl, ?_⟩
    simp only [Site.put, Span.afterInsert, pushDown]
    split <;> split <;> omega

/-- Where the opening's line goes in when the other lines are there: right below the first entrance,
and not among them. It is the first entrance of the record as it was, unless brackets in the speech
above it change the depth of the steps. -/
structure OpensBelow (site : Site) (point : Nat) (block : List String) (entrance : Nat) : Prop where
  first : EntranceAt (putLines point block site.buffer.lines)
    (pushDown point block.length site.steps.start)
    (pushDown point block.length (site.steps.stop - 1)) entrance
  outside : entrance < point ∨ point + block.length ≤ entrance
  same : ∀ before, EntranceAt site.buffer.lines site.steps.start (site.steps.stop - 1) before →
    before < point ∨ (∀ line ∈ block, lineDelta .square line = 0) →
      entrance = pushDown point block.length before

theorem opensBelow_of_entranceAt {block : List String} (within : point ≤ site.buffer.lines.length)
    (silent : ∀ line ∈ block, entersOn line = false)
    (first : EntranceAt (putLines point block site.buffer.lines)
      (pushDown point block.length site.steps.start)
      (pushDown point block.length (site.steps.stop - 1)) entrance) :
    OpensBelow site point block entrance where
  first := first
  outside := by
    obtain ⟨old, rfl, -⟩ := exists_old_of_test within silent first.2.1
    rw [pushDown]
    split <;> omega
  same := by
    intro before entered steady
    apply first.unique
    rcases steady with above | flat
    · rw [pushDown_of_lt above]
      exact entranceAt_putLines_above within above entered
    · have passed : ∀ line ∈ block, lineDelta .square line = 0 ∧ entersOn line = false :=
        fun line member => ⟨flat line member, silent line member⟩
      exact (entranceAt_putLines within (.inr passed)).mpr ⟨before, rfl, entered⟩

theorem insertionPoint_le (spanned : site.Spanned)
    (pointed : insertionPoint site.buffer site.steps = .ok point) :
    point ≤ site.buffer.lines.length := by
  obtain ⟨order, inside⟩ := spanned
  rcases insertionPoint_ok pointed with rfl | ⟨level, -⟩
  · omega
  · have high := level.2.1
    omega

/-- Lines that go in at either side of a block leave it whole. -/
theorem infix_putLines {block : List String} (within : point ≤ lines.length)
    (outside : index ≤ point ∨ point + block.length ≤ index) :
    block <:+: putLines index more (putLines point block lines) := by
  have front : (lines.take point).length = point := List.length_take_of_le within
  have whole : putLines point block lines =
      lines.take point ++ (block ++ lines.drop point) := List.append_assoc ..
  rcases outside with above | below
  · refine ⟨putLines index more (lines.take point), lines.drop point, ?_⟩
    rw [whole, putLines_append_left (by omega), List.append_assoc]
  · refine ⟨lines.take point, putLines (index - point - block.length) more (lines.drop point), ?_⟩
    rw [whole, putLines_append_right (by omega), front, putLines_append_right (by omega),
      List.append_assoc]

/-- The opening goes in below the first entrance, or not at all. -/
theorem insertOpening_told {opening : Speech} {more : Nat} {after : Site}
    (order : site.steps.start < site.steps.stop) (within : point ≤ site.buffer.lines.length)
    (blank : IsIndent indent)
    (ran : insertOpening opening (site.told point missing indent) = .ok more after) :
    more = 0 ∧ after.buffer.lines =
        putLines point (spokenLines missing indent) site.buffer.lines ∨
      more = 1 ∧ ∃ entrance margin,
        OpensBelow site point (spokenLines missing indent) entrance ∧ IsIndent margin ∧
        after.buffer.lines = putLines (entrance + 1) [speakLine opening margin]
          (putLines point (spokenLines missing indent) site.buffer.lines) := by
  obtain ⟨answer, entered, ⟨none, rfl, -⟩ | ⟨one, below, margin, rfl, blank', -, rfl⟩⟩ :=
    insertOpening_ran ran
  · exact .inl ⟨none, Site.lines_told⟩
  · obtain ⟨entrance, rfl, there⟩ := (entranceLine_ok entered below).mp rfl
    obtain ⟨start, stop⟩ := @Site.steps_told site missing indent point order
    rw [Site.lines_told, start, stop] at there
    have placed := opensBelow_of_entranceAt within (entersOn_spokenLines blank) there
    refine .inr ⟨one, entrance, margin, placed, blank', ?_⟩
    exact congrArg (putLines (entrance + 1) [speakLine opening margin]) Site.lines_told

/-- A row puts in, at its insertion point, a comment and one line for each character of its dialogue
and its closing that the record did not speak for: its first one, in their order. They stay
together. Nothing goes in there when there is no such character. One more line may go in, the
opening's right below the first entrance. -/
theorem applyRow_speaks_once (framed : site.Framed) :
    ∃ (spoken : String → Bool) (point : Nat) (indent : String) (missing : List Speech)
      (count : Nat) (after : Site),
      (∀ who, hasDialogue site.buffer site.record who = .ok (spoken who)) ∧
      insertionPoint site.buffer site.steps = .ok point ∧
      stepIndent site.buffer site.steps point = .ok indent ∧
      missing.map (·.character) = (((fixes.dialogue ++ fixes.closing.toList).map
        (·.character)).filter (!spoken ·)).eraseDups ∧
      (∀ speech ∈ missing, (fixes.dialogue ++ fixes.closing.toList).find?
        (·.character == speech.character) = some speech) ∧
      applyRow fixes site = .ok count after ∧
      spokenLines missing indent <:+: after.buffer.lines ∧
      (count = missing.length ∧
          after.buffer.lines = putLines point (spokenLines missing indent) site.buffer.lines ∨
        count = missing.length + 1 ∧ ∃ opening ∈ fixes.opening, ∃ entrance margin,
          OpensBelow site point (spokenLines missing indent) entrance ∧ IsIndent margin ∧
          after.buffer.lines = putLines (entrance + 1) [speakLine opening margin]
            (putLines point (spokenLines missing indent) site.buffer.lines)) := by
  have spanned : site.Spanned := ⟨framed.order, Nat.le_trans framed.below framed.inside⟩
  have low : site.steps.start < site.buffer.lines.length :=
    Nat.lt_of_lt_of_le spanned.order spanned.inside
  have high : site.steps.stop - 1 ≤ site.buffer.lines.length :=
    Nat.le_trans (Nat.sub_le ..) spanned.inside
  have asked := hasDialogue_valid framed.valid.1
  obtain ⟨point, pointed⟩ := insertionPoint_defined framed.valid.2 low high
  obtain ⟨indent, indented⟩ := stepIndent_defined low high point
  obtain ⟨missing, sought⟩ : ∃ missing, missingSpeeches site.buffer site.record []
      (fixes.dialogue ++ fixes.closing.toList) = .ok missing :=
    missingSpeeches_defined framed.valid.1
  obtain ⟨count, after, ran⟩ := @applyRow_defined fixes site framed.valid spanned
  have within := insertionPoint_le spanned pointed
  refine ⟨_, point, indent, missing, count, after, asked, pointed, indented,
    missingSpeeches_characters asked sought, missingSpeeches_first asked sought, ran, ?_⟩
  obtain ⟨dialogue, middle, first, rest⟩ := applyRow_ran ran
  have told : insertDialogue fixes site = .ok missing.length (site.told point missing indent) :=
    insertDialogue_eq framed.valid pointed indented sought
  rw [told] at first
  obtain ⟨rfl, rfl⟩ : missing.length = dialogue ∧ site.told point missing indent = middle := by
    cases first
    exact ⟨rfl, rfl⟩
  have plain : spokenLines missing indent <:+:
      putLines point (spokenLines missing indent) site.buffer.lines := ⟨_, _, rfl⟩
  rcases rest with ⟨-, rfl, rfl⟩ | ⟨opening, more, opens, second, rfl⟩
  · rw [Site.lines_told]
    exact ⟨plain, .inl ⟨rfl, rfl⟩⟩
  · rcases insertOpening_told framed.order within (stepIndent_isIndent indented) second with
      ⟨rfl, lines⟩ | ⟨rfl, entrance, margin, placed, blank, lines⟩
    · rw [lines]
      exact ⟨plain, .inl ⟨rfl, rfl⟩⟩
    · rw [lines]
      refine ⟨infix_putLines within ?_, .inr ⟨rfl, opening, opens, entrance, margin, placed,
        blank, rfl⟩⟩
      exact placed.outside.imp Nat.succ_le_of_lt Nat.le_succ_of_le

def feastSite : Site :=
  ⟨⟨["const A = \x7b", "  id: 'a',", "  steps: [", "    ...ENTER_FROM_LEFT('king'),",
    "    ...CHARACTER_SPEAK('king', 'calm', 'So.'),", "    ...CELEBRATION(['king']),", "  ],",
    "\x7d;"], []⟩, ⟨0, 8, 0⟩, ⟨2, 7, 0⟩⟩

def feastFixes : SpeechFixes :=
  ⟨[⟨"queen", "happy", "One."⟩, ⟨"king", "sad", "Two."⟩, ⟨"queen", "sad", "Three."⟩],
    some ⟨"king", "calm", "So."⟩, some ⟨"jester", "happy", "Four."⟩⟩

/-- The queen speaks once, the king has spoken already, and the jester closes. -/
theorem applyRow_speaks_once_feast :
    feastSite.Framed ∧ ∃ count after, applyRow feastFixes feastSite = .ok count after ∧
      ["    // Dialogue fix: give silent characters a voice",
        "    ...CHARACTER_SPEAK('queen', 'happy', 'One.'),",
        "    ...CHARACTER_SPEAK('jester', 'happy', 'Four.'),"] <:+: after.buffer.lines := by
  have framed : feastSite.Framed :=
    ⟨⟨Buffer.isValid_of_current rfl, Buffer.isValid_of_current rfl⟩, by decide, by decide,
      by decide, by decide⟩
  obtain ⟨spoken, point, indent, missing, count, after, asked, pointed, indented, names, firsts,
    ran, whole, -⟩ := @applyRow_speaks_once feastSite feastFixes framed
  refine ⟨framed, count, after, ran, ?_⟩
  have queen : spoken "queen" = false := Except.ok.inj ((asked "queen").symm.trans rfl)
  have king : spoken "king" = true := Except.ok.inj ((asked "king").symm.trans rfl)
  have jester : spoken "jester" = false := Except.ok.inj ((asked "jester").symm.trans rfl)
  obtain rfl : 5 = point := Except.ok.inj (Eq.trans (by rfl) pointed)
  obtain rfl : "    " = indent := Except.ok.inj (Eq.trans (by rfl) indented)
  have called : missing.map (·.character) = ["queen", "jester"] := by
    rw [names]
    simp [feastFixes, queen, king, jester, List.eraseDups_cons]
  obtain ⟨first, others, rfl, named, called⟩ := List.map_eq_cons_iff.mp called
  obtain ⟨second, others, rfl, named', called⟩ := List.map_eq_cons_iff.mp called
  obtain rfl := List.map_eq_nil_iff.mp called
  have one := firsts first (List.mem_cons_self ..)
  have two := firsts second (List.mem_cons_of_mem _ (List.mem_cons_self ..))
  rw [named] at one
  rw [named'] at two
  obtain rfl : (⟨"queen", "happy", "One."⟩ : Speech) = first :=
    Option.some.inj (Eq.trans (by decide) one)
  obtain rfl : (⟨"jester", "happy", "Four."⟩ : Speech) = second :=
    Option.some.inj (Eq.trans (by decide) two)
  have lines : spokenLines [⟨"queen", "happy", "One."⟩, ⟨"jester", "happy", "Four."⟩] "    " =
      ["    // Dialogue fix: give silent characters a voice",
        "    ...CHARACTER_SPEAK('queen', 'happy', 'One.'),",
        "    ...CHARACTER_SPEAK('jester', 'happy', 'Four.'),"] := by
    decide +kernel
  rwa [lines] at whole

end Rows

end Stagecraft
