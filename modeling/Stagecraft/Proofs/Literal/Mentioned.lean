import Stagecraft.Proofs.Literal.Notation
import Stagecraft.Proofs.Text.Mentions

/-!
Where the names that are read stand in the text. A name among the lexemes is a mention of it, and
the calls that are spread in a list are named one after the other among the lexemes of the list; a
mention may also stand in a comment or a quotation, where nothing is read from it.
-/

namespace Stagecraft

variable {id key : String} {text rest : List Char} {lexemes all more after : List Lexeme}
  {room : Nat} {closer : Char} {value : Value} {args items : List Value}

/-- What follows each occurrence of a name among the lexemes. -/
def namings (id : String) : List Lexeme → List (List Lexeme)
  | [] => []
  | .name other :: more => if other = id then more :: namings id more else namings id more
  | _ :: more => namings id more

theorem namings_sublist (behind : more <:+ all) :
    (namings id more).Sublist (namings id all) := by
  obtain ⟨front, rfl⟩ := behind
  induction front with
  | nil => exact .refl _
  | cons lexeme front ih =>
    rw [List.cons_append]
    cases lexeme with
    | name other =>
      rw [namings]
      split
      · exact ih.cons _
      · exact ih
    | _ => exact ih

section Lexemes

theorem nextPiece?_name (read : nextPiece? text = some (.token (.name id), rest)) :
    id.toList ≠ [] ∧ text = id.toList ++ rest ∧ rest.head?.any continuesName = false := by
  simp only [nextPiece?] at read
  split at read
  · cases read
  · cases read
  · obtain ⟨_, -, same⟩ := Option.map_eq_some_iff.mp read
    cases same
  · cases read
  · next c tail _ _ _ =>
    split at read
    · cases read
    · split at read
      · next numeral _ _ =>
        have number : Piece.ofNumeral numeral = .token (.name id) :=
          (Prod.mk.inj (Option.some.inj read)).1
        rw [Piece.ofNumeral] at number
        split at number
        · cases number
        · rw [Numeral.lexeme] at number
          split at number <;> cases number
      · split at read
        · obtain ⟨_, -, same⟩ := Option.map_eq_some_iff.mp read
          cases same
        · split at read
          · cases read
            rw [String.toList_ofList]
            refine ⟨List.cons_ne_nil _ _, ?_, ?_⟩
            · rw [List.cons_append, List.takeWhile_append_dropWhile]
            · cases left : (tail.dropWhile continuesName).head? with
              | none => rfl
              | some d =>
                have stops := List.head?_dropWhile_not continuesName tail
                rw [left] at stops
                simpa using stops
          · split at read <;> cases read

/-- Each name among the lexemes of a text is a mention, in the same order. -/
theorem Lexes.mentions (lexed : Lexes text lexemes) :
    List.SublistForall₂ (fun behind rest => Lexes rest behind) (namings id lexemes)
      (mentions id.toList text) := by
  induction lexed with
  | nil => exact .nil
  | gap piece _ ih => exact sublistForall₂_mono ih (mentions_sublist (nextPiece?_suffix piece))
  | @token text rest lexeme lexemes piece others ih =>
    have passed := sublistForall₂_mono ih (mentions_sublist (nextPiece?_suffix piece))
    cases lexeme with
    | name other =>
      rw [namings]
      split
      · next same =>
        subst same
        obtain ⟨filled, rfl, ends⟩ := nextPiece?_name piece
        obtain ⟨c, letters, spelled⟩ := List.exists_cons_of_ne_nil filled
        have here : mention? other.toList (c :: (letters ++ rest)) = some rest :=
          mention?_eq_some_iff.mpr ⟨by rw [spelled, List.cons_append], ends⟩
        rw [spelled, List.cons_append, ← spelled, mentions_cons, here]
        exact .cons others (sublistForall₂_mono ih (mentions_sublist (List.suffix_append _ _)))
      · exact passed
    | _ => exact passed

end Lexemes

section Calls

/-- What a spread call of a name is given. -/
def spreadArgs? (id : String) : Value → Option (List Value)
  | .spread (.call other args) => if other = id then some args else none
  | _ => none

/-- The arguments of each call of a name that is spread among the items. -/
def spreadArgs (id : String) (items : List Value) : List (List Value) :=
  items.filterMap (spreadArgs? id)

theorem spreadArgs?_eq_some_iff :
    spreadArgs? id value = some args ↔ value = .spread (.call id args) := by
  constructor
  · intro called
    rw [spreadArgs?.eq_def] at called
    split at called
    · obtain ⟨rfl, same⟩ := Option.ite_none_right_eq_some.mp called
      rw [Option.some.inj same]
    · cases called
  · rintro rfl
    rw [spreadArgs?, if_pos rfl]

theorem mem_spreadArgs : args ∈ spreadArgs id items ↔ .spread (.call id args) ∈ items := by
  rw [spreadArgs, List.mem_filterMap]
  constructor
  · rintro ⟨value, there, called⟩
    rwa [← spreadArgs?_eq_some_iff.mp called]
  · exact fun there => ⟨_, there, spreadArgs?_eq_some_iff.mpr rfl⟩

theorem spreadArgs_cons : spreadArgs id (value :: items) =
    (spreadArgs? id value).toList ++ spreadArgs id items := by
  rw [spreadArgs, List.filterMap_cons, spreadArgs]
  cases spreadArgs? id value <;> rfl

theorem Reads.suffix {goal : Goal} {answer : goal.Answer} (read : Reads goal all answer more) :
    more <:+ all := by
  obtain ⟨used, -, rfl, -⟩ := read.exchange
  exact List.suffix_append _ _

theorem wordValue?_plain (word : wordValue? id = some value) :
    value = .null ∨ ∃ truth, value = .bool truth := by
  rw [wordValue?.eq_def] at word
  split at word <;> cases word
  · exact .inr ⟨true, rfl⟩
  · exact .inr ⟨false, rfl⟩
  · exact .inl rfl
  · exact .inl rfl

theorem Reads.spread_call (read : Reads (.item room) all value after)
    (called : value = .spread (.call id args)) : ∃ inside more,
      all = .ellipsis :: .name id :: .punct '(' :: more ∧
        Reads (.items inside ')') more args after := by
  cases read with
  | spreadItem inner =>
    rw [Value.spread.injEq] at called
    cases inner with
    | call plain fits inner =>
      cases called
      exact ⟨_, _, rfl, inner⟩
    | word word => rcases wordValue?_plain word with rfl | ⟨truth, rfl⟩ <;> cases called
    | object fits inner =>
      rw [objectOf] at called
      cases called
    | _ => cases called
  | plainItem inner =>
    cases inner with
    | word word => rcases wordValue?_plain word with rfl | ⟨truth, rfl⟩ <;> cases called
    | object fits inner =>
      rw [objectOf] at called
      cases called
    | _ => cases called

theorem Reads.str_starts {text : String} (read : Reads (.value room) all value after)
    (same : value = .str text) : ∃ more, all = .str text :: more := by
  cases read with
  | str text' =>
    cases same
    exact ⟨_, rfl⟩
  | word word => rcases wordValue?_plain word with rfl | ⟨truth, rfl⟩ <;> cases same
  | object fits inner =>
    rw [objectOf] at same
    cases same
  | _ => cases same

/-- The first item is the text that is written there. -/
theorem Reads.items_str {text : String}
    (read : Reads (.items room closer) (.str text :: more) items after) :
    ∃ others, items = .str text :: others := by
  have first {value : Value} {behind : List Lexeme}
      (item : Reads (.item room) (.str text :: more) value behind) : value = .str text := by
    cases item with
    | plainItem inner =>
      cases inner
      rfl
  cases read with
  | nextItem _ item others => exact ⟨_, by rw [first item]⟩
  | lastItem _ _ item => exact ⟨[], by rw [first item]⟩

/-- Behind the name stand the arguments of the call. -/
def GivenBehind (args : List Value) (behind : List Lexeme) : Prop :=
  ∃ room more after, behind = .punct '(' :: more ∧ Reads (.items room ')') more args after

theorem Reads.item_namings {others : List (List Value)}
    (read : Reads (.item room) all value after)
    (later : List.SublistForall₂ GivenBehind others (namings id after)) :
    List.SublistForall₂ GivenBehind ((spreadArgs? id value).toList ++ others) (namings id all) := by
  cases found : spreadArgs? id value with
  | none => exact sublistForall₂_mono later (namings_sublist read.suffix)
  | some args =>
    obtain ⟨inside, more, rfl, given⟩ := read.spread_call (spreadArgs?_eq_some_iff.mp found)
    have behind : after <:+ .punct '(' :: more := given.suffix.trans (List.suffix_cons _ _)
    have named : namings id (.name id :: .punct '(' :: more) =
        (.punct '(' :: more) :: namings id (.punct '(' :: more) := by rw [namings, if_pos rfl]
    change List.SublistForall₂ GivenBehind (args :: others)
      (namings id (.name id :: .punct '(' :: more))
    rw [named]
    exact .cons ⟨inside, more, after, rfl, given⟩
      (sublistForall₂_mono later (namings_sublist behind))

/-- The calls spread in a list are named in the order in which they stand. -/
theorem Reads.items_namings : {all after : List Lexeme} → {items : List Value} →
    Reads (.items room closer) all items after →
    List.SublistForall₂ GivenBehind (spreadArgs id items) (namings id all)
  | _, _, _, .noItem => .nil
  | _, _, _, .nextItem _ first others => by
    rw [spreadArgs_cons]
    exact first.item_namings (sublistForall₂_mono others.items_namings
      (namings_sublist (List.suffix_cons _ _)))
  | _, _, _, .lastItem _ _ first => by
    rw [spreadArgs_cons, spreadArgs, List.filterMap_nil]
    exact first.item_namings .nil

end Calls

section Lists

/-- The list is read from somewhere among the lexemes. -/
def Stems (all : List Lexeme) (items : List Value) : Prop :=
  ∃ room more after, more <:+ all ∧ Reads (.items room ']') more items after

theorem Stems.mono (stems : Stems more items) (part : more <:+ all) : Stems all items := by
  obtain ⟨room, inner, after, behind, read⟩ := stems
  exact ⟨room, inner, after, behind.trans part, read⟩

/-- The lists an answer has in its fields, or is itself, are read from among the lexemes. -/
def Goal.Lists : (goal : Goal) → List Lexeme → goal.Answer → Prop
  | .value _, all, answer =>
    (∀ items, answer = .list items → Stems all items) ∧
      ∀ fields, answer = .object fields → ∀ key items, (key, .list items) ∈ fields → Stems all items
  | .item _, _, _ | .items _ _, _, _ => True
  | .member _, all, answer => ∀ key items, (key, .list items) ∈ answer.pairs → Stems all items
  | .members _, all, answer =>
    ∀ key items, (key, .list items) ∈ answer.flatMap Member.pairs → Stems all items

theorem Reads.lists {goal : Goal} {answer : goal.Answer} (read : Reads goal all answer more) :
    goal.Lists all answer := by
  induction read with
  | word word =>
    rcases wordValue?_plain word with rfl | ⟨truth, rfl⟩ <;> constructor <;> rintro _ ⟨⟩
  | int | float | str | name | call => constructor <;> rintro _ ⟨⟩
  | @object _ _ more _ members fits inner ih =>
    rw [objectOf_eq]
    refine ⟨by rintro _ ⟨⟩, ?_⟩
    rintro _ ⟨⟩ key items there
    exact (ih key items (Entries.mem_of_mem_putAll there)).mono (List.suffix_cons _ _)
  | array fits inner =>
    refine ⟨?_, by rintro _ ⟨⟩⟩
    rintro _ ⟨⟩
    exact ⟨_, _, _, List.suffix_cons _ _, inner⟩
  | spreadItem | plainItem | noItem | nextItem | lastItem => trivial
  | @spreadMember _ _ _ value inner ih =>
    intro key items there
    cases value with
    | object fields => exact (ih.2 fields rfl key items there).mono (List.suffix_cons _ _)
    | _ => cases there
  | entry named inner ih =>
    intro key items there
    cases List.mem_singleton.mp there
    exact (ih.1 items rfl).mono ((List.suffix_cons _ _).trans (List.suffix_cons _ _))
  | keyAlone named alone =>
    intro key items there
    cases List.mem_singleton.mp there
  | noMember =>
    intro key items there
    cases there
  | nextMember inside first others ih ih' =>
    intro key items there
    rw [List.flatMap_cons] at there
    rcases List.mem_append.mp there with here | behind
    · exact ih key items here
    · exact (ih' key items behind).mono ((List.suffix_cons _ _).trans first.suffix)
  | lastMember inside first ih =>
    intro key items there
    rw [List.flatMap_singleton] at there
    exact ih key items there

end Lists

section Spelling

variable {text : String}

/-- An object within the value gives this text for the key. -/
inductive Spells (key text : String) : Value → Prop where
  | here {fields : Fields} (there : (key, .str text) ∈ fields) : Spells key text (.object fields)
  | field {fields : Fields} {other : String} {value : Value} (there : (other, value) ∈ fields)
      (inner : Spells key text value) : Spells key text (.object fields)
  | item {items : List Value} {value : Value} (there : value ∈ items)
      (inner : Spells key text value) : Spells key text (.list items)

/-- Among the lexemes stand the key, a colon and the text. -/
def Written (key text : String) (all : List Lexeme) : Prop :=
  ∃ lexeme more, lexeme.key? = some key ∧ lexeme :: .punct ':' :: .str text :: more <:+ all

theorem Written.mono (written : Written key text more) (part : more <:+ all) :
    Written key text all := by
  obtain ⟨lexeme, rest, named, behind⟩ := written
  exact ⟨lexeme, rest, named, behind.trans part⟩

/-- What an answer spells is written among the lexemes it is read from. -/
def Goal.Spelled (key text : String) : (goal : Goal) → List Lexeme → goal.Answer → Prop
  | .value _, all, answer | .item _, all, answer => Spells key text answer → Written key text all
  | .items _ _, all, answer => ∀ value ∈ answer, Spells key text value → Written key text all
  | .member _, all, answer => ∀ entry ∈ answer.pairs,
    entry = (key, .str text) ∨ Spells key text entry.2 → Written key text all
  | .members _, all, answer => ∀ entry ∈ answer.flatMap Member.pairs,
    entry = (key, .str text) ∨ Spells key text entry.2 → Written key text all

theorem Reads.spelled {goal : Goal} {answer : goal.Answer} (read : Reads goal all answer more) :
    goal.Spelled key text all answer := by
  induction read with
  | word word => rcases wordValue?_plain word with rfl | ⟨truth, rfl⟩ <;> rintro ⟨⟩
  | int | float | str | name | call => rintro ⟨⟩
  | @object _ _ more _ members fits inner ih =>
    rw [objectOf_eq]
    intro spells
    have part := List.suffix_cons (.punct '\x7b') more
    cases spells with
    | here there => exact (ih _ (Entries.mem_of_mem_putAll there) (.inl rfl)).mono part
    | field there inner => exact (ih _ (Entries.mem_of_mem_putAll there) (.inr inner)).mono part
  | array fits inner ih =>
    intro spells
    cases spells with
    | item there inside => exact (ih _ there inside).mono (List.suffix_cons _ _)
  | spreadItem inner ih => rintro ⟨⟩
  | plainItem inner ih => exact ih
  | noItem =>
    intro value there
    cases there
  | nextItem inside first others ih ih' =>
    intro value there spells
    rcases List.mem_cons.mp there with rfl | behind
    · exact ih spells
    · exact (ih' value behind spells).mono ((List.suffix_cons _ _).trans first.suffix)
  | lastItem inside other first ih =>
    intro value there spells
    obtain rfl := List.mem_singleton.mp there
    exact ih spells
  | @spreadMember _ more _ value inner ih =>
    intro entry there spelled
    cases value with
    | object fields =>
      have spells : Spells key text (.object fields) := by
        rcases spelled with rfl | inside
        · exact .here there
        · exact .field there inside
      exact (ih spells).mono (List.suffix_cons _ _)
    | _ => cases there
  | @entry _ lexeme _ _ other value named inner ih =>
    intro entry there spelled
    cases List.mem_singleton.mp there
    rcases spelled with same | inside
    · obtain ⟨rfl, rfl⟩ := Prod.mk.inj same
      obtain ⟨after, rfl⟩ := inner.str_starts rfl
      exact ⟨lexeme, _, named, List.suffix_rfl⟩
    · exact (ih inside).mono ((List.suffix_cons _ _).trans (List.suffix_cons _ _))
  | keyAlone named alone =>
    intro entry there spelled
    cases List.mem_singleton.mp there
    rcases spelled with same | inside
    · cases same
    · cases inside
  | noMember =>
    intro entry there
    cases there
  | nextMember inside first others ih ih' =>
    intro entry there spelled
    rw [List.flatMap_cons] at there
    rcases List.mem_append.mp there with here | behind
    · exact ih entry here spelled
    · exact (ih' entry behind spelled).mono ((List.suffix_cons _ _).trans first.suffix)
  | lastMember inside first ih =>
    intro entry there spelled
    rw [List.flatMap_singleton] at there
    exact ih entry there spelled

end Spelling

end Stagecraft
