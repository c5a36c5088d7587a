import Stagecraft.Proofs.Edit.InsideSteps
import Stagecraft.Proofs.Edit.Verbatim
import Stagecraft.Proofs.Literal.Mentioned

/-!
What the text of a block says about its step. A pass looks for the keys of actions and animations in
the text alone. Where each mention of such a key goes on with its text, the pass finds what the
actions of the step hold, and a block it takes for idle is a step that only idles.
-/

namespace Stagecraft

variable {text rest : List Char} {name key : String} {block : Block} {behind more all : List Lexeme}
  {paragraph : List String} {element : Value}

section Texts

/-- The text that a mention of a key goes on with. -/
def said? (rest : List Char) : Option String :=
  (afterWord? ":" rest).bind fun more => (plainText? (skipBlanks more)).filter (· ≠ "")

theorem said?_split (said : said? rest = some name) :
    ∃ more, rest = ':' :: more ∧ plainText? (skipBlanks more) = some name ∧ name ≠ "" := by
  obtain ⟨more, colon, plain⟩ := Option.bind_eq_some_iff.mp said
  obtain ⟨plain, filled⟩ := Option.filter_eq_some_iff.mp plain
  exact ⟨more, eq_append_of_after? colon, plain, of_decide_eq_true filled⟩

theorem nextPiece?_colon : nextPiece? (':' :: text) = some (.token (.punct ':'), text) := by
  rw [nextPiece?.eq_5 _ _ (by simp) (by simp) (by simp), if_neg (by decide),
    Numeral.read?_of_head (by decide) (by decide) (by decide)]
  rfl

/-- The reader takes a key for what it says. -/
theorem lexes_of_said {more : List Char} (said : said? rest = some name)
    (lexed : Lexes (rest ++ more) behind) :
    ∃ others, behind = .punct ':' :: .str name :: others := by
  obtain ⟨text, rfl, plain, -⟩ := said?_split said
  rw [List.cons_append, Lexes.token_iff nextPiece?_colon] at lexed
  obtain ⟨inside, rfl, lexed⟩ := lexed
  obtain ⟨others, rfl⟩ := lexes_of_plainText plain lexed
  exact ⟨others, rfl⟩

/-- The search for a key takes it for what it says. -/
theorem quotedName?_of_plainText (plain : plainText? text = some name) (filled : name ≠ "") :
    ∃ found more, quotedName? text = some (found, more) ∧ String.ofList found.name = name := by
  obtain ⟨mark, more, quote, rfl, verbatim⟩ := plainText?_split plain
  have unquoted : ∀ c ∈ name.toList, (!isQuote c) = true := by
    intro c member
    rw [(isVerbatim_iff.mp (verbatim c member)).1]
    rfl
  obtain ⟨c, letters, spelled⟩ :=
    List.exists_cons_of_ne_nil (mt String.toList_eq_nil_iff.mp filled)
  have stop : (!isQuote mark) = false := by rw [quote]; rfl
  refine ⟨⟨mark, name.toList, mark⟩, more, ?_, String.ofList_toList⟩
  rw [quotedName?, takeWhile_stop unquoted stop, List.dropWhile_append_of_pos unquoted,
    List.dropWhile_cons_of_neg (by simp [stop]), quote, spelled]

/-- A block that is not busy has none of the busy kinds. -/
theorem not_busy (idle : block.isBusy = false)
    (mention : rest ∈ mentions "action".toList block.text.toList) (said : said? rest = some name) :
    name ∉ busyKinds := by
  intro busy
  obtain ⟨front, split, -⟩ := mem_mentions.mp mention
  obtain ⟨more, rfl, plain, filled⟩ := said?_split said
  obtain ⟨found, after, read, rfl⟩ := quotedName?_of_plainText plain filled
  have here : afterWord? "action:" ("action".toList ++ ':' :: more) = some more := rfl
  have busy' : block.isBusy = true := by
    rw [Block.isBusy, searchFor_isSome_iff]
    refine ⟨front, _, split, ?_⟩
    simp only [here, read, Option.bind_eq_bind, Option.bind_some]
    rw [if_pos (List.contains_iff_mem.mpr busy)]
    rfl
  rw [idle] at busy'
  cases busy'

theorem animAt?_of_said (said : said? rest = some name) :
    ∃ found more, animAt? ("anim".toList ++ rest) = some (found, more) ∧
      String.ofList found.name = name := by
  obtain ⟨more, rfl, plain, filled⟩ := said?_split said
  obtain ⟨found, after, read, same⟩ := quotedName?_of_plainText plain filled
  have here : afterWord? "anim:" ("anim".toList ++ ':' :: more) = some more := rfl
  exact ⟨found, after, by rw [animAt?, here, Option.bind_some, read], same⟩

theorem quotedName?_split {found : QuotedName} {after : List Char}
    (read : quotedName? text = some (found, after)) : isQuote found.opening = true ∧
      isQuote found.closing = true ∧
      text = found.opening :: (found.name ++ found.closing :: after) := by
  rw [quotedName?.eq_def] at read
  split at read
  · cases read
  · next opening text =>
    split at read
    · next c name closing more quote taken left =>
      cases read
      have parts := List.takeWhile_append_dropWhile (p := (!isQuote ·)) (l := text)
      rw [taken, left] at parts
      have ends := List.head?_dropWhile_not (!isQuote ·) text
      rw [left] at ends
      exact ⟨quote, by simpa using ends, by rw [parts]⟩
    · cases read

theorem mentions_skip {first : Char} {word front : List Char} (other : ∀ c ∈ front, c ≠ first) :
    mentions (first :: word) (front ++ text) = mentions (first :: word) text := by
  induction front with
  | nil => rfl
  | cons c front ih =>
    obtain ⟨here, behind⟩ := List.forall_mem_cons.mp other
    have none : mention? (first :: word) (c :: (front ++ text)) = none := by
      rw [mention?, after?_head_ne (Ne.symm here), Option.filter_none]
    rw [List.cons_append, mentions_cons, none, Option.toList_none, List.nil_append, ih behind]

/-- No key of an animation stands within one that says the character idles. -/
theorem mentions_animAt {found : QuotedName} {after : List Char}
    (read : animAt? text = some (found, after)) (idle : String.ofList found.name = idleAnim) :
    ∃ rest, text = "anim".toList ++ rest ∧
      mentions "anim".toList text = rest :: mentions "anim".toList after := by
  obtain ⟨more, lead, quoted⟩ := Option.bind_eq_some_iff.mp read
  obtain rfl := eq_append_of_after? lead
  obtain ⟨opening, closing, split⟩ := quotedName?_split quoted
  have letters : found.name = idleAnim.toList := by rw [← idle, String.toList_ofList]
  have whole : more =
      (more.takeWhile isBlank ++ found.opening :: (found.name ++ [found.closing])) ++
      after := by
    have parts := takeWhile_append_skipBlanks more
    rw [split] at parts
    rw [List.append_assoc, List.cons_append, List.append_assoc, List.singleton_append, parts]
  have mark {c : Char} (quote : isQuote c = true) : c ≠ 'a' := by
    rintro rfl
    exact absurd quote (by decide)
  have other : ∀ c ∈ "nim:".toList ++ (more.takeWhile isBlank ++
      found.opening :: (found.name ++ [found.closing])), c ≠ 'a' := by
    intro c member
    simp only [List.mem_append, List.mem_cons, List.not_mem_nil, or_false] at member
    rcases member with word | blank | rfl | name | rfl
    · exact ne_of_mem_of_not_mem word (by decide)
    · exact ne_of_isBlank (List.mem_takeWhile_imp blank) (by decide)
    · exact mark opening
    · rw [letters] at name
      exact ne_of_mem_of_not_mem name (by decide)
    · exact mark closing
  refine ⟨':' :: more, rfl, ?_⟩
  have text : "anim:".toList ++ more = 'a' :: (("nim:".toList ++ (more.takeWhile isBlank ++
      found.opening :: (found.name ++ [found.closing]))) ++ after) := by
    rw [List.append_assoc, ← whole]
    rfl
  have here : mention? "anim".toList ("anim:".toList ++ more) = some (':' :: more) :=
    mention?_eq_some_iff.mpr ⟨rfl, show continuesName ':' = false by decide⟩
  rw [text] at here ⊢
  rw [mentions_cons, here, Option.toList_some, List.singleton_append]
  exact congrArg (_ :: ·) (mentions_skip other)

theorem animsIn_found {found : QuotedName} {after : List Char}
    (read : animAt? text = some (found, after)) :
    animsIn text = String.ofList found.name :: animsIn after := by
  cases text with
  | nil => cases read
  | cons c text =>
    rw [animsIn]
    split
    · next found' after' read' =>
      rw [read] at read'
      cases read'
      rfl
    · next none =>
      rw [read] at none
      cases none

theorem animsIn_other {c : Char} (none : animAt? (c :: text) = none) :
    animsIn (c :: text) = animsIn text := by
  rw [animsIn]
  split
  · next read =>
    rw [none] at read
    cases read
  · rfl

/-- Where the search finds nothing but idling, each key that says something says just that. -/
theorem said_idle (idle : ∀ anim ∈ animsIn text, anim = idleAnim)
    (mention : rest ∈ mentions "anim".toList text) (said : said? rest = some name) :
    name = idleAnim := by
  induction text using animsIn.induct with
  | case1 =>
    rw [mentions_nil (by decide)] at mention
    cases mention
  | case2 c tail found after read ih =>
    rw [animsIn_found read] at idle
    obtain ⟨first, idle⟩ := List.forall_mem_cons.mp idle
    obtain ⟨here, split, all⟩ := mentions_animAt read first
    rw [all] at mention
    rcases List.mem_cons.mp mention with rfl | behind
    · obtain ⟨found', _, read', same⟩ := animAt?_of_said said
      rw [← split, read] at read'
      cases read'
      rw [← same, first]
    · exact ih idle behind
  | case3 c tail none ih =>
    rw [animsIn_other none] at idle
    rw [mentions_cons] at mention
    rcases List.mem_append.mp mention with here | behind
    · obtain ⟨split, -⟩ := mention?_eq_some_iff.mp (Option.mem_toList.mp here)
      obtain ⟨found, more, read, -⟩ := animAt?_of_said said
      rw [← split, none] at read
      cases read
    · exact ih idle behind

theorem exists_mention (finds : animsIn text ≠ []) : mentions "anim".toList text ≠ [] := by
  induction text using animsIn.induct with
  | case1 => exact absurd (by rw [animsIn]) finds
  | case2 c tail found after read ih =>
    obtain ⟨more, lead, -⟩ := Option.bind_eq_some_iff.mp read
    have here : mention? "anim".toList (c :: tail) = some (':' :: more) :=
      mention?_eq_some_iff.mpr ⟨(eq_append_of_after? lead).trans rfl,
        show continuesName ':' = false by decide⟩
    rw [mentions_cons, here]
    exact List.cons_ne_nil _ _
  | case3 c tail none ih =>
    rw [animsIn_other none] at finds
    rw [mentions_cons]
    exact List.append_ne_nil_of_right_ne_nil _ (ih finds)

end Texts

section Steps

/-- No key but a name stands in front of a colon. -/
def bareKeys : List Lexeme → Bool
  | [] => true
  | .name _ :: more => bareKeys more
  | _ :: more => !headIs ':' more && bareKeys more

/-- The keys on these lines are written without marks. -/
def keysAreBare (lines : List String) : Bool :=
  match tokensUpTo 0 (fed lines) with
  | .ok tokens => bareKeys (lexemesOf tokens)
  | .error _ => false

theorem name_of_bareKeys {front more : List Lexeme} {lexeme : Lexeme}
    (bare : bareKeys (front ++ lexeme :: .punct ':' :: more) = true) :
    ∃ id, lexeme = .name id := by
  induction front with
  | nil =>
    cases lexeme with
    | name id => exact ⟨id, rfl⟩
    | _ => simp [bareKeys, headIs, Lexeme.isPunct] at bare
  | cons first front ih =>
    apply ih
    cases first with
    | name id => exact bare
    | _ => exact (Bool.and_eq_true_iff.mp bare).2

theorem bareKeys_closed (all : List Lexeme) :
    bareKeys (all ++ [.punct ']']) = bareKeys all := by
  induction all with
  | nil => rfl
  | cons lexeme all ih =>
    have head : headIs ':' (all ++ [.punct ']']) = headIs ':' all := by
      cases all with
      | nil => rfl
      | cons next all => rfl
    cases lexeme with
    | name id => exact ih
    | _ => simp only [List.cons_append, bareKeys, head, ih]

theorem mem_namings {id : String} (behind : .name id :: more <:+ all) : more ∈ namings id all := by
  have here : namings id (.name id :: more) = more :: namings id more := by
    rw [namings, if_pos rfl]
  apply (namings_sublist behind).subset
  rw [here]
  exact List.mem_cons_self

theorem lexes_bracket : Lexes [']'] [.punct ']'] := .token nextPiece?_bracket .nil

theorem not_lexes_of_bracket (behind : rest <:+ [']']) :
    ¬ Lexes rest (.punct ':' :: all) := by
  intro lexed
  rcases List.suffix_cons_iff.mp behind with rfl | none
  · rw [Lexes.token_iff nextPiece?_bracket] at lexed
    obtain ⟨_, same, -⟩ := lexed
    cases same
  · rw [List.suffix_nil.mp none] at lexed
    cases lexed with
    | gap piece => cases piece
    | token piece => cases piece

/-- What an element of a paragraph spells is said at a mention of its key. -/
theorem said_of_spells {values : List Value} {said : String}
    (plain : key.toList ≠ [] ∧ '\n' ∉ key.toList) (bare : keysAreBare paragraph = true)
    (elements : lastElements? paragraph = some values) (there : element ∈ values)
    (spells : Spells key said element) :
    ∃ rest ∈ mentions key.toList (join "\n" paragraph).toList,
      ∀ name, said? rest = some name → name = said := by
  obtain ⟨lexemes, lexed, reads⟩ := reads_lastElements elements
  have read := reads []
  obtain ⟨lexeme, more, named, front, whole⟩ := read.spelled element there spells
  obtain ⟨tokens, cut, rfl⟩ := lexed.tokens 0
  rw [keysAreBare, cut] at bare
  change bareKeys (lexemesOf tokens) = true at bare
  rw [← bareKeys_closed, ← whole] at bare
  obtain ⟨id, rfl⟩ := name_of_bareKeys bare
  obtain rfl := Option.some.inj named
  have all : Lexes (fed paragraph ++ [']']) (lexemesOf tokens ++ [.punct ']']) :=
    (lexes_fed_append lexed).mpr ⟨_, rfl, lexes_bracket⟩
  have placed : List.SublistForall₂ (fun behind rest => Lexes rest behind) (namings id _)
      (mentions id.toList _) := all.mentions
  obtain ⟨kept, pairs, part⟩ := List.sublistForall₂_iff.mp placed
  obtain ⟨rest, kept', behind⟩ := exists_of_mem_left pairs (mem_namings ⟨front, whole⟩)
  have mention := part.subset kept'
  have inside : ¬ rest <:+ [']'] := fun short => not_lexes_of_bracket short behind
  have closing : rest ∉ mentions id.toList [']'] := by
    intro here
    obtain ⟨before, split, -⟩ := mem_mentions.mp here
    exact inside ⟨before ++ id.toList, by rw [split, List.append_assoc]⟩
  by_cases filled : paragraph = []
  · rw [filled] at mention
    exact absurd mention closing
  · rw [← toList_join_feed filled, List.append_assoc, List.singleton_append,
      mentions_feed plain.1 plain.2] at mention
    rcases List.mem_append.mp mention with here | here
    · obtain ⟨short, there, rfl⟩ := List.mem_map.mp here
      refine ⟨short, there, fun name read => ?_⟩
      obtain ⟨_, same⟩ := lexes_of_said read behind
      cases same
      rfl
    · exact absurd here closing

/-- The text of a field that holds one. -/
def textAt? (key : String) (fields : Fields) : Option String :=
  match Fields.get? fields key with
  | some (.str text) => some text
  | _ => none

theorem get?_of_textAt? {fields : Fields} (holds : textAt? key fields = some name) :
    Fields.get? fields key = some (.str name) := by
  rw [textAt?] at holds
  split at holds
  · next text found =>
    cases holds
    exact found
  · cases holds

/-- The objects among the actions of a step. -/
def writtenActions : Value → List Fields
  | .object fields => (Value.itemsOrName (Fields.get? fields "parallel")).1.filterMap fun
    | .object action => some action
    | _ => none
  | _ => []

/-- A step with actions, all of which let a character idle. -/
structure IsIdle (element : Value) : Prop where
  acts : writtenActions element ≠ []
  idles : ∀ action ∈ writtenActions element,
    textAt? "action" action = some "animate" ∧ textAt? "anim" action = some idleAnim

instance : DecidablePred IsIdle := fun element =>
  decidable_of_iff (writtenActions element ≠ [] ∧ ∀ action ∈ writtenActions element,
      textAt? "action" action = some "animate" ∧ textAt? "anim" action = some idleAnim)
    ⟨fun ⟨acts, idles⟩ => ⟨acts, idles⟩, fun ⟨acts, idles⟩ => ⟨acts, idles⟩⟩

/-- The step is written out on these lines: its keys are bare, each mention of the two words says
something, each action has one of the kinds that a pass knows, and each animation its name. -/
structure WrittenOut (paragraph : List String) (element : Value) : Prop where
  keys : keysAreBare paragraph = true
  said : ∀ word ∈ ["action", "anim"],
    ∀ rest ∈ mentions word.toList (join "\n" paragraph).toList, (said? rest).isSome
  kinds : ∀ action ∈ writtenActions element,
    ∃ kind ∈ "animate" :: busyKinds, textAt? "action" action = some kind
  anims : ∀ action ∈ writtenActions element, textAt? "action" action = some "animate" →
    (textAt? "anim" action).isSome
  idle : writtenActions element = [] → mentions "anim".toList (join "\n" paragraph).toList = []

instance : DecidablePred (WrittenOut paragraph) := fun element =>
  decidable_of_iff (keysAreBare paragraph = true ∧
      (∀ word ∈ ["action", "anim"],
        ∀ rest ∈ mentions word.toList (join "\n" paragraph).toList, (said? rest).isSome) ∧
      (∀ action ∈ writtenActions element,
        ∃ kind ∈ "animate" :: busyKinds, textAt? "action" action = some kind) ∧
      (∀ action ∈ writtenActions element, textAt? "action" action = some "animate" →
        (textAt? "anim" action).isSome) ∧
      (writtenActions element = [] → mentions "anim".toList (join "\n" paragraph).toList = []))
    ⟨fun ⟨keys, said, kinds, anims, idle⟩ => ⟨keys, said, kinds, anims, idle⟩,
      fun ⟨keys, said, kinds, anims, idle⟩ => ⟨keys, said, kinds, anims, idle⟩⟩

theorem mem_writtenActions {action : Fields} (acts : action ∈ writtenActions element) :
    ∃ fields items, element = .object fields ∧
      ("parallel", .list items) ∈ fields ∧ .object action ∈ items := by
  cases element with
  | object fields =>
    obtain ⟨value, there, same⟩ := List.mem_filterMap.mp acts
    split at same
    · next action' =>
      cases same
      rw [Value.itemsOrName.eq_def] at there
      split at there
      · cases there
      · next items found =>
        obtain ⟨value, known, present⟩ := Option.bind_eq_some_iff.mp found
        obtain ⟨-, same⟩ := Option.ite_none_right_eq_some.mp present
        cases same
        exact ⟨fields, items, rfl, Entries.mem_of_lookup known, there⟩
      · cases there
    · cases same
  | _ => cases acts

theorem spells_of_action {action : Fields} {said : String} (acts : action ∈ writtenActions element)
    (holds : textAt? key action = some said) : Spells key said element := by
  obtain ⟨fields, items, rfl, list, there⟩ := mem_writtenActions acts
  exact .field list (.item there (.here (Entries.mem_of_lookup (get?_of_textAt? holds))))

/-- A block that a pass takes for idle is a step that only idles, where it is written out. -/
theorem isIdle_of_block (text : block.text = join "\n" paragraph)
    (elements : lastElements? paragraph = some [element]) (written : WrittenOut paragraph element)
    (shows : block.showsOnly idleAnim = true) (idle : block.isBusy = false) : IsIdle element := by
  rw [Block.showsOnly, Bool.and_eq_true, Bool.not_eq_true', List.isEmpty_eq_false_iff,
    List.all_eq_true] at shows
  obtain ⟨finds, idles⟩ := shows
  have said {key said : String} {action : Fields} (known : key ∈ ["action", "anim"])
      (acts : action ∈ writtenActions element)
      (holds : textAt? key action = some said) :
      ∃ rest ∈ mentions key.toList block.text.toList, said? rest = some said := by
    have plain : key.toList ≠ [] ∧ '\n' ∉ key.toList := by
      simp only [List.mem_cons, List.not_mem_nil, or_false] at known
      rcases known with rfl | rfl <;> decide
    obtain ⟨rest, there, same⟩ := said_of_spells plain written.keys elements
      (List.mem_singleton.mpr rfl) (spells_of_action acts holds)
    obtain ⟨name, read⟩ := Option.isSome_iff_exists.mp (written.said key known rest there)
    exact ⟨rest, text ▸ there, by rw [read, same name read]⟩
  constructor
  · intro none
    apply exists_mention finds
    rw [text]
    exact written.idle none
  · intro action acts
    obtain ⟨kind, vocabulary, holds⟩ := written.kinds action acts
    obtain ⟨rest, there, read⟩ := said (by simp) acts holds
    obtain rfl : kind = "animate" := by
      rcases List.mem_cons.mp vocabulary with rfl | busy
      · rfl
      · exact absurd busy (not_busy idle there read)
    obtain ⟨anim, holds'⟩ := Option.isSome_iff_exists.mp (written.anims action acts holds)
    obtain ⟨rest', there', read'⟩ := said (by simp) acts holds'
    have only : anim = idleAnim :=
      said_idle (fun anim found => beq_iff_eq.mp (idles anim found)) there' read'
    exact ⟨holds, only ▸ holds'⟩

end Steps

end Stagecraft
