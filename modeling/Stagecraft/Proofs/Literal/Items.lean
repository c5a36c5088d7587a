import Stagecraft.Proofs.Literal.Grammar

/-!
Runs of items, each with its comma. A run is read in front of whatever else the list holds, so a
list may lose a run and is read as before but for the items of that run. The object that holds the
list as a member is read as before but for that member.
-/

namespace Stagecraft

variable {room inside : Nat} {tokens : List Token} {more rest : List Lexeme}
  {value : Value} {values others : List Value}

/-- The items of a text in which each has its comma. -/
def wholeItems? (room : Nat) : List Token → Option (List Value)
  | [] => some []
  | token :: tail =>
    match readItem 0 room (token :: tail) with
    | .ok (value, ⟨comma :: next, shorter⟩) =>
      have : next.length < tail.length + 1 := Nat.lt_of_succ_lt shorter
      if comma.lexeme.isPunct ',' then (wholeItems? room next).map (value :: ·) else none
    | _ => none
termination_by tokens => tokens.length
decreasing_by exact this

/-- The same, but the last item may lack its comma. -/
def lastItems? (room : Nat) (tokens : List Token) : Option (List Value) :=
  match wholeItems? room tokens with
  | some values => some values
  | none => wholeItems? room (tokens ++ [⟨.punct ',', 0⟩])

theorem wholeItems?_cons {token : Token} {tail : List Token}
    (whole : wholeItems? room (token :: tail) = some values) :
    ∃ value next others, Reads (.item room) (lexemesOf (token :: tail)) value
        (.punct ',' :: lexemesOf next) ∧ next.length ≤ tail.length ∧
      wholeItems? room next = some others ∧ values = value :: others := by
  rw [wholeItems?] at whole
  split at whole
  · next value comma next shorter read =>
    split at whole
    · next mark =>
      obtain ⟨others, found, rfl⟩ := Option.map_eq_some_iff.mp whole
      obtain ⟨lexeme, offset⟩ := comma
      obtain rfl : lexeme = .punct ',' := isPunct_iff.mp mark
      refine ⟨value, next, others, reads_item read, ?_, found, rfl⟩
      simp only [List.length_cons] at shorter
      omega
    · cases whole
  · cases whole

/-- No item begins with what closes a list or a call. -/
theorem Reads.item_opens {closer : Char} (closes : closer = ']' ∨ closer = ')')
    (item : Reads (.item room) more value rest) : headIs closer more = false := by
  cases item with
  | spreadItem inner => rfl
  | plainItem inner =>
    cases inner with
    | int n => rfl
    | float x => rfl
    | str text => rfl
    | word word => rfl
    | name plain alone => rfl
    | call plain fits inner => rfl
    | object fits inner => rcases closes with rfl | rfl <;> rfl
    | array fits inner => rcases closes with rfl | rfl <;> rfl

/-- An item and its comma start a whole run where one follows. -/
theorem wholeItems?_of_reads
    (item : Reads (.item room) (lexemesOf tokens) value (.punct ',' :: more)) :
    ∃ next, lexemesOf next = more ∧
      wholeItems? room tokens = (wholeItems? room next).map (value :: ·) := by
  obtain ⟨⟨out, shorter⟩, read, same⟩ := item.read 0 tokens rfl
  obtain ⟨offset, next, rfl, behind⟩ := lexemesOf_eq_cons.mp same
  cases tokens with
  | nil => exact absurd shorter (Nat.not_lt_zero _)
  | cons token tail =>
    refine ⟨next, behind, ?_⟩
    rw [Goal.read] at read
    rw [wholeItems?, read]
    simp only [isPunct_iff, if_true]

/-- A whole run is read first. -/
theorem reads_wholeItems (whole : wholeItems? room tokens = some values)
    (behind : Reads (.items room ']') more others rest) :
    Reads (.items room ']') (lexemesOf tokens ++ more) (values ++ others) rest := by
  induction size : tokens.length using Nat.strong_induction_on generalizing tokens values with
  | _ size ih =>
    subst size
    cases tokens with
    | nil =>
      rw [wholeItems?] at whole
      cases whole
      exact behind
    | cons token tail =>
      obtain ⟨value, next, values, item, less, whole', rfl⟩ := wholeItems?_cons whole
      have later := ih next.length (Nat.lt_succ_of_le less) whole' rfl
      obtain ⟨used, filled, split, kept⟩ := item.exchange
      have first := kept (.punct ',' :: (lexemesOf next ++ more)) alike_of_head
      rw [split, List.append_assoc, List.cons_append, List.cons_append]
      exact .nextItem (first.item_opens (.inl rfl)) first later

/-- Whatever is read with a whole run in front starts with its items. -/
theorem reads_wholeItems_iff {all : List Value} (whole : wholeItems? room tokens = some values) :
    Reads (.items room ']') (lexemesOf tokens ++ more) all rest ↔
      ∃ others, all = values ++ others ∧ Reads (.items room ']') more others rest := by
  constructor
  · intro read
    induction size : tokens.length using Nat.strong_induction_on
      generalizing tokens values all with
    | _ size ih =>
      subst size
      cases tokens with
      | nil =>
        rw [wholeItems?] at whole
        cases whole
        exact ⟨all, rfl, read⟩
      | cons token tail =>
        obtain ⟨value, next, values, item, less, whole', rfl⟩ := wholeItems?_cons whole
        obtain ⟨used, -, split, kept⟩ := item.exchange
        have first := kept (.punct ',' :: (lexemesOf next ++ more)) alike_of_head
        rw [split, List.append_assoc, List.cons_append] at read
        generalize used ++ .punct ',' :: (lexemesOf next ++ more) = lexemes at read first
        cases read with
        | noItem => cases first.item_opens (.inl rfl)
        | nextItem _ first' later =>
          obtain ⟨rfl, same⟩ := first.unique first'
          rw [← (List.cons.inj same).2] at later
          obtain ⟨others, rfl, behind⟩ := ih next.length (Nat.lt_succ_of_le less) whole' later rfl
          exact ⟨others, rfl, behind⟩
        | lastItem _ _ first' =>
          obtain ⟨-, same⟩ := first.unique first'
          cases (List.cons.inj same).1
  · intro split
    obtain ⟨others, rfl, behind⟩ := split
    exact reads_wholeItems whole behind

theorem reads_lastItem {used : List Lexeme} (whole : wholeItems? room tokens = some values)
    (ends : lexemesOf tokens = used ++ [.punct ',']) :
    Reads (.items room ']') (used ++ .punct ']' :: more) values more := by
  induction size : tokens.length using Nat.strong_induction_on generalizing tokens values used with
  | _ size ih =>
    subst size
    cases tokens with
    | nil =>
      have impossible := congrArg List.length ends
      simp [lexemesOf] at impossible
    | cons token tail =>
      obtain ⟨value, next, values, item, less, whole', rfl⟩ := wholeItems?_cons whole
      obtain ⟨taken, filled, split, kept⟩ := item.exchange
      rw [split] at ends
      rcases List.eq_nil_or_concat (lexemesOf next) with none | ⟨init, last, some⟩
      · rw [none] at ends
        obtain ⟨rfl, -⟩ := List.append_inj' ends rfl
        have first := kept (.punct ']' :: more) ⟨rfl, rfl⟩
        have empty : next = [] := List.map_eq_nil_iff.mp none
        subst empty
        rw [wholeItems?] at whole'
        cases whole'
        exact .lastItem (first.item_opens (.inl rfl)) (by decide) first
      · rw [some, List.concat_eq_append, ← List.cons_append, ← List.append_assoc] at ends
        obtain ⟨rfl, mark⟩ := List.append_inj' ends rfl
        have shown : lexemesOf next = init ++ [.punct ','] := by
          rw [some, List.concat_eq_append, mark]
        have later := ih next.length (Nat.lt_succ_of_le less) whole' shown rfl
        have first := kept (.punct ',' :: (init ++ .punct ']' :: more)) alike_of_head
        rw [List.append_assoc, List.cons_append]
        exact .nextItem (first.item_opens (.inl rfl)) first later

/-- The last run stands in front of the closing bracket. -/
theorem reads_lastItems (last : lastItems? room tokens = some values) :
    Reads (.items room ']') (lexemesOf tokens ++ .punct ']' :: more) values more := by
  rw [lastItems?] at last
  split at last
  · next whole =>
    cases last
    have ended : Reads (.items room ']') (.punct ']' :: more) [] more := .noItem
    have read := reads_wholeItems whole ended
    rwa [List.append_nil] at read
  · exact reads_lastItem last (by simp [lexemesOf])

/-- Members, each with its comma, and then the key and the opening bracket of the steps. -/
def leadsToSteps (room : Nat) : List Token → Bool
  | [] => false
  | [key, colon, bracket] =>
    key.lexeme.key? == some "steps" && colon.lexeme.isPunct ':' && bracket.lexeme.isPunct '['
  | token :: tail =>
    match readMember 0 room (token :: tail) with
    | .ok (_, ⟨comma :: next, shorter⟩) =>
      have : next.length < tail.length + 1 := Nat.lt_of_succ_lt shorter
      comma.lexeme.isPunct ',' && leadsToSteps room next
    | _ => false
termination_by tokens => tokens.length
decreasing_by exact this

theorem leadsToSteps_cases (leads : leadsToSteps room tokens = true) :
    (∃ key, key.key? = some "steps" ∧ lexemesOf tokens = [key, .punct ':', .punct '[']) ∨
      ∃ member next, Reads (.member room) (lexemesOf tokens) member
          (.punct ',' :: lexemesOf next) ∧ next.length < tokens.length ∧
        leadsToSteps room next = true := by
  rw [leadsToSteps.eq_def] at leads
  split at leads
  · cases leads
  · next key colon bracket =>
    simp only [Bool.and_eq_true, beq_iff_eq, isPunct_iff] at leads
    obtain ⟨⟨named, mark⟩, mark'⟩ := leads
    exact .inl ⟨key.lexeme, named, by simp [lexemesOf, mark, mark']⟩
  · next token tail _ =>
    split at leads
    · next member comma next shorter read =>
      obtain ⟨lexeme, offset⟩ := comma
      simp only [Bool.and_eq_true, isPunct_iff] at leads
      obtain ⟨rfl, leads⟩ := leads
      refine .inr ⟨member, next, reads_member read, ?_, leads⟩
      simp only [List.length_cons] at shorter ⊢
      omega
    · cases leads

theorem Reads.member_opens {member : Member} (read : Reads (.member room) more member rest) :
    headIs '\x7d' more = false := by
  cases read with
  | spreadMember inner => rfl
  | @entry _ lexeme _ _ _ _ named inner =>
    cases lexeme with
    | punct mark => cases named
    | _ => rfl
  | @keyAlone _ lexeme _ _ named alone =>
    cases lexeme with
    | punct mark => cases named
    | _ => rfl

theorem reads_members_iff {all after : List Lexeme} {first : Member} {members : List Member}
    (item : Reads (.member room) all first after) :
    Reads (.members room) all members rest ↔ ∃ others, members = first :: others ∧
      ((∃ next, after = .punct ',' :: next ∧ Reads (.members room) next others rest) ∨
        after = .punct '\x7d' :: rest ∧ others = []) := by
  constructor
  · intro read
    cases read with
    | noMember => cases item.member_opens
    | @nextMember _ _ next _ _ others _ item' read =>
      obtain ⟨rfl, rfl⟩ := item.unique item'
      exact ⟨others, rfl, .inl ⟨next, rfl, read⟩⟩
    | lastMember _ item' =>
      obtain ⟨rfl, rfl⟩ := item.unique item'
      exact ⟨[], rfl, .inr ⟨rfl, rfl⟩⟩
  · rintro ⟨others, rfl, ⟨next, rfl, read⟩ | ⟨rfl, rfl⟩⟩
    · exact .nextMember item.member_opens item read
    · exact .lastMember item.member_opens item

/-- With another list of steps the members are the same but for that one. -/
theorem reads_otherSteps {body body' : List Lexeme} {values' : List Value} {members : List Member}
    (leads : leadsToSteps room tokens = true) (fits : roomInside? 3 room = some inside)
    (steps : Reads (.items inside ']') body values more)
    (steps' : Reads (.items inside ']') body' values' more)
    (read : Reads (.members room) (lexemesOf tokens ++ body) members rest) :
    ∃ before behind, members = before ++ .entry "steps" (.list values) :: behind ∧
      Reads (.members room) (lexemesOf tokens ++ body')
        (before ++ .entry "steps" (.list values') :: behind) rest := by
  induction size : tokens.length using Nat.strong_induction_on generalizing tokens members with
  | _ size ih =>
    subst size
    rcases leadsToSteps_cases leads with ⟨key, named, same⟩ | ⟨first, next, item, less, leads'⟩
    · rw [same] at read ⊢
      have old : Reads (.member room) ([key, .punct ':', .punct '['] ++ body)
          (.entry "steps" (.list values)) more := .entry named (.array fits steps)
      have new : Reads (.member room) ([key, .punct ':', .punct '['] ++ body')
          (.entry "steps" (.list values')) more := .entry named (.array fits steps')
      obtain ⟨behind, rfl, next⟩ := (reads_members_iff old).mp read
      exact ⟨[], behind, rfl, (reads_members_iff new).mpr ⟨behind, rfl, next⟩⟩
    · obtain ⟨used, filled, split, kept⟩ := item.exchange
      have old := kept (.punct ',' :: (lexemesOf next ++ body)) alike_of_head
      have new := kept (.punct ',' :: (lexemesOf next ++ body')) alike_of_head
      rw [split, List.append_assoc, List.cons_append] at read ⊢
      obtain ⟨others, rfl, ⟨_, same, read'⟩ | ⟨same, -⟩⟩ := (reads_members_iff old).mp read
      · cases same
        obtain ⟨before, behind, rfl, read''⟩ := ih next.length less leads' read' rfl
        exact ⟨first :: before, behind, rfl,
          (reads_members_iff new).mpr ⟨_, rfl, .inl ⟨_, rfl, read''⟩⟩⟩
      · cases same

end Stagecraft
