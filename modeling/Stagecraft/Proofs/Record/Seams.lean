import Stagecraft.Proofs.Record.Layout

/-!
Seams: the places of a record where its steps may take a further element, since what stands above
ends with the opening bracket of the steps or with an element and its comma. Where only whole
elements go in at seams, the record is read as before but for these elements.
-/

namespace Stagecraft

variable {room inside : Nat} {tokens : List Token} {body more rest after all : List Lexeme}
  {values others : List Value} {member : Member} {members behind : List Member}
  {paragraphs : List (List String)} {fields : Fields} {value : Value}

/-- Members, each with its comma, then the key and the opening bracket of the steps, and then the
items of a whole run. -/
def itemsLed? (room inside : Nat) : List Token → Option (List Value)
  | [] => none
  | token :: tail =>
    match readMember 0 room (token :: tail) with
    | .ok (_, ⟨comma :: next, shorter⟩) =>
      have : next.length < tail.length + 1 := Nat.lt_of_succ_lt shorter
      if comma.lexeme.isPunct ',' then itemsLed? room inside next else none
    | _ =>
      match tail with
      | colon :: bracket :: items =>
        if token.lexeme.key? == some "steps" && colon.lexeme.isPunct ':' &&
            bracket.lexeme.isPunct '[' then wholeItems? inside items
        else none
      | _ => none
termination_by tokens => tokens.length
decreasing_by exact this

theorem itemsLed?_cases (led : itemsLed? room inside tokens = some values) :
    (∃ key items, key.key? = some "steps" ∧
        lexemesOf tokens = key :: .punct ':' :: .punct '[' :: lexemesOf items ∧
        wholeItems? inside items = some values) ∨
      ∃ member next, Reads (.member room) (lexemesOf tokens) member
          (.punct ',' :: lexemesOf next) ∧ next.length < tokens.length ∧
        itemsLed? room inside next = some values := by
  rw [itemsLed?.eq_def] at led
  split at led
  · cases led
  · next token tail =>
    split at led
    · next member comma next shorter read =>
      split at led
      · next mark =>
        obtain ⟨lexeme, offset⟩ := comma
        obtain rfl : lexeme = .punct ',' := isPunct_iff.mp mark
        refine .inr ⟨member, next, reads_member read, ?_, led⟩
        simp only [List.length_cons] at shorter ⊢
        omega
      · cases led
    · split at led
      · next colon bracket items _ _ =>
        split at led
        · next marks =>
          simp only [Bool.and_eq_true, beq_iff_eq, isPunct_iff] at marks
          obtain ⟨⟨named, mark⟩, mark'⟩ := marks
          exact .inl ⟨token.lexeme, items, named, by simp [lexemesOf, mark, mark'], led⟩
        · cases led
      · cases led

/-- What may stand behind a member: a comma and others, or the closing brace. -/
def GoesOn (room : Nat) (after : List Lexeme) (members : List Member) (rest : List Lexeme) : Prop :=
  (∃ next, after = .punct ',' :: next ∧ Reads (.members room) next members rest) ∨
    after = .punct '\x7d' :: rest ∧ members = []

theorem reads_members_cases (read : Reads (.members room) all members rest)
    (inside : headIs '\x7d' all = false) :
    ∃ first after others, Reads (.member room) all first after ∧ members = first :: others ∧
      GoesOn room after others rest := by
  cases read with
  | noMember => cases inside
  | nextMember _ first later => exact ⟨_, _, _, first, rfl, .inl ⟨_, rfl, later⟩⟩
  | lastMember _ first => exact ⟨_, _, [], first, rfl, .inr ⟨rfl, rfl⟩⟩

/-- A member with a list in its place is read as far as the list is. -/
theorem reads_listMember {key : Lexeme} {name : String} (named : key.key? = some name)
    (fits : roomInside? 3 room = some inside) :
    Reads (.member room) (key :: .punct ':' :: .punct '[' :: body) member after ↔
      ∃ items, member = .entry name (.list items) ∧ Reads (.items inside ']') body items after := by
  constructor
  · intro read
    cases read with
    | spreadMember => cases named
    | entry named' inner =>
      cases inner with
      | array fits' items =>
        obtain rfl := Option.some.inj (fits.symm.trans fits')
        obtain rfl := Option.some.inj (named.symm.trans named')
        exact ⟨_, rfl, items⟩
    | keyAlone _ alone => cases alone
  · intro split
    obtain ⟨items, rfl, read⟩ := split
    exact .entry named (.array fits read)

/-- The list of steps goes on behind its first items with whatever can be read there. -/
theorem reads_led (led : itemsLed? room inside tokens = some values)
    (fits : roomInside? 3 room = some inside)
    (read : Reads (.members room) (lexemesOf tokens ++ body) members rest) :
    ∃ before behind others after, Reads (.items inside ']') body others after ∧
      members = before ++ .entry "steps" (.list (values ++ others)) :: behind ∧
      GoesOn room after behind rest ∧ ∀ body' others', Reads (.items inside ']') body' others' after →
        Reads (.members room) (lexemesOf tokens ++ body')
          (before ++ .entry "steps" (.list (values ++ others')) :: behind) rest := by
  induction size : tokens.length using Nat.strong_induction_on generalizing tokens members with
  | _ size ih =>
    subst size
    rcases itemsLed?_cases led with ⟨key, items, named, same, whole⟩ | ⟨first, next, item, less, led'⟩
    · have opens : headIs '\x7d' (lexemesOf tokens ++ body) = false := by
        rw [same]
        cases key with
        | punct mark => cases named
        | _ => rfl
      rw [same] at read opens ⊢
      obtain ⟨first, after, behind, item, rfl, goesOn⟩ := reads_members_cases read opens
      obtain ⟨list, rfl, inner⟩ := (reads_listMember named fits).mp item
      obtain ⟨others, rfl, inner'⟩ := (reads_wholeItems_iff whole).mp inner
      refine ⟨[], behind, others, after, inner', rfl, goesOn, ?_⟩
      intro body' others' read'
      have other : Reads (.member room)
          (key :: .punct ':' :: .punct '[' :: (lexemesOf items ++ body'))
          (.entry "steps" (.list (values ++ others'))) after :=
        (reads_listMember named fits).mpr ⟨_, rfl, reads_wholeItems whole read'⟩
      exact (reads_members_iff other).mpr ⟨behind, rfl, goesOn⟩
    · obtain ⟨used, filled, split, kept⟩ := item.exchange
      have old := kept (.punct ',' :: (lexemesOf next ++ body)) alike_of_head
      rw [split, List.append_assoc, List.cons_append] at read
      obtain ⟨later, rfl, ⟨_, same, read'⟩ | ⟨same, -⟩⟩ := (reads_members_iff old).mp read
      · cases same
        obtain ⟨before, behind, others, after, inner, rfl, goesOn, onward⟩ :=
          ih next.length less led' read' rfl
        refine ⟨first :: before, behind, others, after, inner, rfl, goesOn, ?_⟩
        intro body' others' read''
        have new := kept (.punct ',' :: (lexemesOf next ++ body')) alike_of_head
        rw [split, List.append_assoc, List.cons_append]
        exact (reads_members_iff new).mpr ⟨_, rfl, .inl ⟨_, rfl, onward body' others' read''⟩⟩
      · cases same

section Settled

/-- The member gives the key a value. -/
def Member.sets (key : String) : Member → Bool
  | .entry other _ => other == key
  | .spread (.object more) => (Fields.get? more key).isSome
  | .spread _ => false

theorem get?_putAll {key : String} {more : Fields} (free : Fields.get? more key = none) :
    Fields.get? (fields.putAll more) key = Fields.get? fields key := by
  induction more generalizing fields with
  | nil => rfl
  | cons entry more ih =>
    obtain ⟨other, value⟩ := entry
    rw [Fields.get?, List.lookup_cons] at free
    split at free
    · cases free
    · next apart =>
      have next : Fields.get? ((fields.put other value).putAll more) key =
          Fields.get? (fields.put other value) key := ih free
      calc
        Fields.get? (fields.putAll ((other, value) :: more)) key =
            Fields.get? (fields.put other value) key := next
        _ = Fields.get? fields key := by rw [get?_put, if_neg (by simpa using apart)]

theorem get?_addTo {key : String} (free : member.sets key = false) :
    Fields.get? (member.addTo fields) key = Fields.get? fields key := by
  cases member with
  | entry other value =>
    have apart : key ≠ other := by
      intro same
      simp [Member.sets, same] at free
    rw [Member.addTo, get?_put, if_neg apart]
  | spread value =>
    cases value with
    | object more =>
      apply get?_putAll
      simpa [Member.sets] using free
    | _ => rfl

/-- The steps are the list that is given last. -/
theorem get?_steps (before : List Member) (free : ∀ member ∈ behind, member.sets "steps" = false) :
    Fields.get? (fieldsOf (objectOf (before ++ .entry "steps" value :: behind))) "steps" =
      some value := by
  have kept : ∀ fields, Fields.get? (behind.foldl Member.addTo fields) "steps" =
      Fields.get? fields "steps" := by
    induction behind with
    | nil => exact fun _ => rfl
    | cons member behind ih =>
      intro fields
      have rest := ih (fun other present => free other (List.mem_cons_of_mem _ present))
        (member.addTo fields)
      rw [List.foldl_cons, rest, get?_addTo (free member (by simp))]
  rw [objectOf, fieldsOf, List.foldl_append, List.foldl_cons, kept, Member.addTo, get?_put,
    if_pos rfl]

end Settled

/-- A record cut at seams: its lines down to the first one, those between two of them, and those
below the last. -/
structure Seams where
  front : List String
  paragraphs : List (List String)
  back : List String

namespace Seams

variable {seams : Seams}

def lines (seams : Seams) : List String := seams.front ++ seams.paragraphs.flatten ++ seams.back

/-- The same with other paragraphs. -/
def keeping (seams : Seams) (paragraphs : List (List String)) : Seams :=
  { seams with paragraphs := paragraphs }

/-- The elements of the steps that stand above the first seam. -/
def led? (seams : Seams) : Option (List Value) :=
  match tokensUpTo 0 ((fed seams.front).dropWhile (· != '\x7b')) with
  | .ok (brace :: tokens) =>
    if brace.lexeme.isPunct '\x7b' then itemsLed? memberRoom stepRoom tokens else none
  | _ => none

/-- The members of the record behind its steps. -/
def behind? (seams : Seams) : Option (List Member) :=
  match tokensUpTo 0 (join "\n" seams.back).toList with
  | .error _ => none
  | .ok tokens =>
    match readItems 0 stepRoom ']' tokens with
    | .error _ => none
    | .ok (_, ⟨rest, _⟩) =>
      if startsWithMark ',' rest then
        match readMembers 0 memberRoom rest.tail with
        | .error _ => none
        | .ok (members, _) => some members
      else some []

/-- The record is cut at seams, and none of the members behind its steps sets them again. -/
structure Sewn (seams : Seams) : Prop where
  leads : seams.led?.isSome
  whole : ∀ paragraph ∈ seams.paragraphs, (wholeElements? paragraph).isSome
  settled : seams.behind?.any fun members => members.all fun member => !member.sets "steps"
  ends : seams.back ≠ []

/-- The elements between seams. -/
def elementsAmong (paragraphs : List (List String)) : List Value :=
  paragraphs.flatMap fun paragraph => (wholeElements? paragraph).getD []

/-- Whole paragraphs are read first, as their elements. -/
theorem reads_elements (whole : ∀ paragraph ∈ paragraphs, (wholeElements? paragraph).isSome) :
    ∃ lexemes, Lexes (fed paragraphs.flatten) lexemes ∧ ∀ {more values rest},
      Reads (.items stepRoom ']') (lexemes ++ more) values rest ↔
        ∃ others, values = elementsAmong paragraphs ++ others ∧
          Reads (.items stepRoom ']') more others rest := by
  induction paragraphs with
  | nil => exact ⟨[], .nil, by simp [elementsAmong]⟩
  | cons paragraph paragraphs ih =>
    obtain ⟨lexemes, lexed, reads⟩ :=
      ih fun other member => whole other (List.mem_cons_of_mem _ member)
    obtain ⟨values, elements⟩ := Option.isSome_iff_exists.mp (whole paragraph (by simp))
    have split : elementsAmong (paragraph :: paragraphs) = values ++ elementsAmong paragraphs := by
      rw [elementsAmong, List.flatMap_cons, elements, Option.getD_some, elementsAmong]
    rw [wholeElements?] at elements
    split at elements
    · next tokens cut =>
      refine ⟨lexemesOf tokens ++ lexemes, ?_, ?_⟩
      · rw [List.flatten_cons, fed_append]
        exact (lexes_fed_append (lexes_of_tokensUpTo cut)).mpr ⟨lexemes, rfl, lexed⟩
      · intro more all rest
        rw [List.append_assoc, reads_wholeItems_iff elements, split]
        constructor
        · intro first
          obtain ⟨others, rfl, later⟩ := first
          obtain ⟨others, rfl, behind⟩ := reads.mp later
          exact ⟨others, by rw [List.append_assoc], behind⟩
        · intro both
          obtain ⟨others, rfl, behind⟩ := both
          exact ⟨_, by rw [List.append_assoc], reads.mpr ⟨others, rfl, behind⟩⟩
    · cases elements

theorem led?_ok (led : seams.led? = some values) :
    ∃ tokens, Lexes ((fed seams.front).dropWhile (· != '\x7b'))
        (.punct '\x7b' :: lexemesOf tokens) ∧
      itemsLed? memberRoom stepRoom tokens = some values := by
  rw [led?] at led
  split at led
  · next brace tokens cut =>
    split at led
    · next mark =>
      obtain ⟨lexeme, offset⟩ := brace
      obtain rfl : lexeme = .punct '\x7b' := isPunct_iff.mp mark
      exact ⟨tokens, lexes_of_tokensUpTo cut, led⟩
    · cases led
  · cases led

theorem Sewn.front_ne_nil (sewn : seams.Sewn) : seams.front ≠ [] := by
  intro none
  obtain ⟨values, led⟩ := Option.isSome_iff_exists.mp sewn.leads
  obtain ⟨tokens, lexed, -⟩ := led?_ok led
  rw [none, fed, List.flatMap_nil, List.dropWhile_nil] at lexed
  cases lexed with
  | gap piece => cases piece
  | token piece => cases piece

/-- The members behind the steps are those that are read there. -/
theorem behind?_eq (lexed : Lexes (join "\n" seams.back).toList all)
    (items : Reads (.items stepRoom ']') all values after)
    (goesOn : GoesOn memberRoom after members rest) : seams.behind? = some members := by
  obtain ⟨tokens, cut, rfl⟩ := lexed.tokens 0
  obtain ⟨⟨out, _⟩, read, rfl⟩ := items.read 0 tokens rfl
  rw [Goal.read] at read
  rw [behind?, cut]
  simp only [read, startsWithMark_eq]
  rcases goesOn with ⟨next, same, later⟩ | ⟨same, rfl⟩
  · obtain ⟨offset, tail, rfl, rfl⟩ := lexemesOf_eq_cons.mp same
    obtain ⟨⟨out, _⟩, read', -⟩ := later.read 0 tail rfl
    rw [Goal.read] at read'
    rw [same]
    simp only [headIs, Lexeme.isPunct, beq_self_eq_true, if_true, List.tail_cons, read']
  · rw [same]
    rfl

/-- Lines in front of others that are read first, as these elements. -/
def Holds (lines : List String) (values : List Value) (back : List String) : Prop :=
  ∃ lexemes, Lexes (fed lines) lexemes ∧ ∀ {behind all rest},
    Lexes (join "\n" back).toList behind →
      (Reads (.items stepRoom ']') (lexemes ++ behind) all rest ↔
        ∃ others, all = values ++ others ∧ Reads (.items stepRoom ']') behind others rest)

theorem holds_of_whole (whole : ∀ paragraph ∈ paragraphs, (wholeElements? paragraph).isSome)
    (back : List String) : Holds paragraphs.flatten (elementsAmong paragraphs) back := by
  obtain ⟨lexemes, lexed, reads⟩ := reads_elements whole
  exact ⟨lexemes, lexed, fun _ => reads⟩

/-- What the lines hold first is a closing bracket. -/
def closesList (lines : List String) : Bool :=
  match tokensUpTo 0 (join "\n" lines).toList with
  | .ok (token :: _) => token.lexeme.isPunct ']'
  | _ => false

theorem lexes_closesList {lines : List String} {lexemes : List Lexeme}
    (closes : closesList lines = true) (lexed : Lexes (join "\n" lines).toList lexemes) :
    ∃ more, lexemes = .punct ']' :: more := by
  obtain ⟨tokens, cut, rfl⟩ := lexed.tokens 0
  rw [closesList, cut] at closes
  split at closes
  · next token rest same =>
    cases same
    obtain ⟨lexeme, offset⟩ := token
    obtain rfl : lexeme = .punct ']' := isPunct_iff.mp closes
    exact ⟨lexemesOf rest, rfl⟩
  · cases closes

/-- Elements of which the last may lack its comma are read first in front of a bracket. -/
theorem holds_of_bracket {back : List String}
    (elements : paragraphElements? paragraphs = some values)
    (closes : closesList back = true) : Holds paragraphs.flatten values back := by
  obtain ⟨lexemes, lexed, reads⟩ := reads_paragraphs elements
  refine ⟨lexemes, lexed, ?_⟩
  intro behind all rest cut
  obtain ⟨more, rfl⟩ := lexes_closesList closes cut
  constructor
  · intro read
    obtain ⟨rfl, rfl⟩ := (reads more).unique read
    exact ⟨[], (List.append_nil _).symm, .noItem⟩
  · intro split
    obtain ⟨others, rfl, read⟩ := split
    obtain ⟨rfl, rfl⟩ := Reads.noItem.unique read
    rw [List.append_nil]
    exact reads more

/-- A record with other lines among its steps is read as before but for their elements. -/
theorem read_exchange {values' : List Value} {old new : List String} (leads : seams.led?.isSome)
    (settled : seams.behind?.any fun members => members.all fun member => !member.sets "steps")
    (ends : seams.back ≠ []) (holds : Holds old values seams.back)
    (holds' : Holds new values' seams.back)
    (read : readLiteral (recordText (join "\n" (seams.front ++ old ++ seams.back))) = .ok value) :
    ∃ first last before behind, (∀ member ∈ behind, member.sets "steps" = false) ∧
      value = objectOf (before ++
        .entry "steps" (.list (first ++ (values ++ last))) :: behind) ∧
      readLiteral (recordText (join "\n" (seams.front ++ new ++ seams.back))) = .ok (objectOf
        (before ++ .entry "steps" (.list (first ++ (values' ++ last))) :: behind)) := by
  obtain ⟨first, led⟩ := Option.isSome_iff_exists.mp leads
  obtain ⟨tokens, opened, items⟩ := led?_ok led
  obtain ⟨body, lexed, reads⟩ := holds
  obtain ⟨body', lexed', reads'⟩ := holds'
  obtain ⟨all, rest, cut, derived, marks⟩ := readLiteral_iff.mp read
  rw [toList_recordText opened ends] at cut
  obtain ⟨_, rfl, inside⟩ := (lexes_head_append opened).mp cut
  obtain ⟨back, rfl, below⟩ := (lexes_fed_append lexed).mp inside
  cases derived with
  | object fits inner =>
    have room : roomInside? 2 nestingRoom = some memberRoom := rfl
    obtain rfl := Option.some.inj (room.symm.trans fits)
    have room' : roomInside? 3 memberRoom = some stepRoom := rfl
    obtain ⟨before, behind, others, after, steps, rfl, goesOn, onward⟩ :=
      reads_led items room' inner
    obtain ⟨last, rfl, steps'⟩ := (reads below).mp steps
    rw [behind?_eq below steps' goesOn, Option.any_some, List.all_eq_true] at settled
    refine ⟨first, last, before, behind, ?_, rfl, ?_⟩
    · intro member present
      simpa using settled member present
    · have inner' := onward (body' ++ back) _ ((reads' below).mpr ⟨last, rfl, steps'⟩)
      refine readLiteral_iff.mpr ⟨_, rest, ?_, .object fits inner', marks⟩
      rw [toList_recordText opened ends]
      exact (lexes_head_append opened).mpr ⟨_, rfl, (lexes_fed_append lexed').mpr ⟨_, rfl, below⟩⟩

/-- A record with other paragraphs is read as before but for their elements. -/
theorem read_other (sewn : seams.Sewn)
    (whole : ∀ paragraph ∈ paragraphs, (wholeElements? paragraph).isSome)
    (read : readLiteral (recordText (join "\n" seams.lines)) = .ok value) :
    ∃ first last before behind, (∀ member ∈ behind, member.sets "steps" = false) ∧
      value = objectOf (before ++
        .entry "steps" (.list (first ++ (elementsAmong seams.paragraphs ++ last))) :: behind) ∧
      readLiteral (recordText (join "\n" (seams.keeping paragraphs).lines)) = .ok (objectOf (before ++
        .entry "steps" (.list (first ++ (elementsAmong paragraphs ++ last))) :: behind)) :=
  read_exchange sewn.leads sewn.settled sewn.ends (holds_of_whole sewn.whole seams.back)
    (holds_of_whole whole seams.back) read

end Seams

end Stagecraft
