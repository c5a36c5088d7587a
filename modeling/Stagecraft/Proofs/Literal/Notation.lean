import Stagecraft.Proofs.Entries
import Stagecraft.Proofs.Literal.Items

/-!
The notation as it would be put down on paper: a part is derived from exactly the lexemes it is
written with, whatever follows and however deep it lies. The reader, which looks ahead and has only
so much room, reads the same values.
-/

namespace Stagecraft

/-- The parts that texts are made of. -/
inductive Part where
  | value
  | item
  | items
  | member
  | members

abbrev Part.Meaning : Part → Type
  | value | item => Value
  | items => List Value
  | member => Member
  | members => List Member

/-- What a member gives its object. A spread that is no object gives nothing. -/
def Member.pairs : Member → Fields
  | entry key value => [(key, value)]
  | spread (.object more) => more
  | spread _ => []

/-- The fields of an object have their keys in the order in which the members first give them, and
each key has the last value that is given for it. -/
structure Settled (members : List Member) (fields : Fields) : Prop where
  keys : fields.map (·.1) = ((members.flatMap Member.pairs).map (·.1)).eraseDups
  values : ∀ key, fields.lookup key = (members.flatMap Member.pairs).reverse.lookup key

/-- What is written with these lexemes. Behind the last item or member there may be a comma. -/
inductive Derives : (part : Part) → List Lexeme → part.Meaning → Prop where
  | int (n : Int) : Derives .value [.int n] (.int n)
  | float (x : Float) : Derives .value [.float x] (.float x)
  | str (text : String) : Derives .value [.str text] (.str text)
  | word {id : String} {value : Value} (word : wordValue? id = some value) :
      Derives .value [.name id] value
  | name {id : String} (plain : wordValue? id = none) : Derives .value [.name id] (.name id)
  | call {id : String} {used : List Lexeme} {args : List Value} (plain : wordValue? id = none)
      (inner : Derives .items used args) :
      Derives .value (.name id :: .punct '(' :: (used ++ [.punct ')'])) (.call id args)
  | array {used : List Lexeme} {items : List Value} (inner : Derives .items used items) :
      Derives .value (.punct '[' :: (used ++ [.punct ']'])) (.list items)
  | object {used : List Lexeme} {members : List Member} {fields : Fields}
      (inner : Derives .members used members) (settled : Settled members fields) :
      Derives .value (.punct '\x7b' :: (used ++ [.punct '\x7d'])) (.object fields)
  | plainItem {used : List Lexeme} {value : Value} (inner : Derives .value used value) :
      Derives .item used value
  | spreadItem {used : List Lexeme} {value : Value} (inner : Derives .value used value) :
      Derives .item (.ellipsis :: used) (.spread value)
  | noItem : Derives .items [] []
  | lastItem {used : List Lexeme} {value : Value} (first : Derives .item used value) :
      Derives .items used [value]
  | nextItem {used more : List Lexeme} {value : Value} {values : List Value}
      (first : Derives .item used value) (others : Derives .items more values) :
      Derives .items (used ++ .punct ',' :: more) (value :: values)
  | entry {lexeme : Lexeme} {key : String} {used : List Lexeme} {value : Value}
      (named : lexeme.key? = some key) (inner : Derives .value used value) :
      Derives .member (lexeme :: .punct ':' :: used) (.entry key value)
  | keyAlone {lexeme : Lexeme} {key : String} (named : lexeme.key? = some key) :
      Derives .member [lexeme] (.entry key (.name key))
  | spreadMember {used : List Lexeme} {value : Value} (inner : Derives .value used value) :
      Derives .member (.ellipsis :: used) (.spread value)
  | noMember : Derives .members [] []
  | lastMember {used : List Lexeme} {member : Member} (first : Derives .member used member) :
      Derives .members used [member]
  | nextMember {used more : List Lexeme} {member : Member} {members : List Member}
      (first : Derives .member used member) (others : Derives .members more members) :
      Derives .members (used ++ .punct ',' :: more) (member :: members)

/-- One value, and behind it any commas and semicolons. -/
def Document (lexemes : List Lexeme) (value : Value) : Prop :=
  ∃ used marks, lexemes = used ++ marks ∧ Derives .value used value ∧ marksOnly marks = true

section Objects

variable {members : List Member} {fields : Fields}

theorem objectOf_eq (members : List Member) :
    objectOf members = .object (Entries.ofPairs (members.flatMap Member.pairs)) := by
  have step (fields : Fields) (member : Member) :
      member.addTo fields = Entries.putAll fields member.pairs := by
    cases member with
    | entry key value => rfl
    | spread value => cases value <;> rfl
  have all (fields : Fields) : members.foldl Member.addTo fields =
      Entries.putAll fields (members.flatMap Member.pairs) := by
    induction members generalizing fields with
    | nil => rfl
    | cons member members ih =>
      calc
        (member :: members).foldl Member.addTo fields =
            members.foldl Member.addTo (member.addTo fields) := rfl
        _ = Entries.putAll (Entries.putAll fields member.pairs)
            (members.flatMap Member.pairs) := by rw [ih, step]
        _ = Entries.putAll fields ((member :: members).flatMap Member.pairs) := by
          rw [List.flatMap_cons, Entries.putAll, Entries.putAll, ← List.foldl_append]
          rfl
  rw [objectOf, all, Entries.ofPairs]

/-- The fields of an object are settled by its members. -/
theorem objectOf_eq_iff : objectOf members = .object fields ↔ Settled members fields := by
  rw [objectOf_eq, Value.object.injEq]
  constructor
  · rintro rfl
    exact ⟨Entries.keys_ofPairs _, Entries.lookup_ofPairs _⟩
  · intro settled
    apply Entries.eq_of_lookup
    · rw [settled.keys, Entries.keys_ofPairs]
    · rw [Entries.keys_ofPairs]
      exact Entries.nodup_eraseDups _
    · intro key
      rw [settled.values, Entries.lookup_ofPairs]

end Objects

section Sound

variable {goal : Goal} {answer : goal.Answer} {all rest : List Lexeme}

/-- The lexemes of a reading, but for those left and the closing mark, derive what was read. -/
def Goal.Derived : (goal : Goal) → List Lexeme → goal.Answer → List Lexeme → Prop
  | value _, all, answer, rest => ∃ used, all = used ++ rest ∧ Derives .value used answer
  | item _, all, answer, rest => ∃ used, all = used ++ rest ∧ Derives .item used answer
  | items _ closer, all, answer, rest =>
    ∃ used, all = used ++ .punct closer :: rest ∧ Derives .items used answer
  | member _, all, answer, rest => ∃ used, all = used ++ rest ∧ Derives .member used answer
  | members _, all, answer, rest =>
    ∃ used, all = used ++ .punct '\x7d' :: rest ∧ Derives .members used answer

theorem Reads.derived (read : Reads goal all answer rest) : goal.Derived all answer rest := by
  induction read with
  | int n => exact ⟨_, rfl, .int n⟩
  | float x => exact ⟨_, rfl, .float x⟩
  | str text => exact ⟨_, rfl, .str text⟩
  | word word => exact ⟨_, rfl, .word word⟩
  | name plain alone => exact ⟨_, rfl, .name plain⟩
  | call plain fits _ args =>
    obtain ⟨used, rfl, derives⟩ := args
    exact ⟨_, by simp, .call plain derives⟩
  | @object _ _ _ _ members fits _ body =>
    obtain ⟨used, rfl, derives⟩ := body
    have settled : Settled members (Entries.ofPairs (members.flatMap Member.pairs)) :=
      objectOf_eq_iff.mp (objectOf_eq members)
    rw [objectOf_eq]
    exact ⟨_, by simp, .object derives settled⟩
  | array fits _ body =>
    obtain ⟨used, rfl, derives⟩ := body
    exact ⟨_, by simp, .array derives⟩
  | spreadItem _ spread =>
    obtain ⟨used, rfl, derives⟩ := spread
    exact ⟨_, rfl, .spreadItem derives⟩
  | plainItem _ plain =>
    obtain ⟨used, rfl, derives⟩ := plain
    exact ⟨_, rfl, .plainItem derives⟩
  | noItem => exact ⟨[], rfl, .noItem⟩
  | nextItem _ _ _ item items =>
    obtain ⟨used, rfl, derives⟩ := item
    obtain ⟨more, rfl, others⟩ := items
    exact ⟨_, by simp, .nextItem derives others⟩
  | lastItem _ _ _ item =>
    obtain ⟨used, rfl, derives⟩ := item
    exact ⟨_, rfl, .lastItem derives⟩
  | spreadMember _ spread =>
    obtain ⟨used, rfl, derives⟩ := spread
    exact ⟨_, rfl, .spreadMember derives⟩
  | entry named _ written =>
    obtain ⟨used, rfl, derives⟩ := written
    exact ⟨_, rfl, .entry named derives⟩
  | keyAlone named alone => exact ⟨_, rfl, .keyAlone named⟩
  | noMember => exact ⟨[], rfl, .noMember⟩
  | nextMember _ _ _ member members =>
    obtain ⟨used, rfl, derives⟩ := member
    obtain ⟨more, rfl, others⟩ := members
    exact ⟨_, by simp, .nextMember derives others⟩
  | lastMember _ _ member =>
    obtain ⟨used, rfl, derives⟩ := member
    exact ⟨_, rfl, .lastMember derives⟩

end Sound

section Complete

variable {part : Part} {meaning : part.Meaning} {used rest : List Lexeme} {room count : Nat}

/-- The room that is enough for as many lexemes, whatever they are. -/
def ampleRoom (count : Nat) : Nat := 3 * count + leastRoom

theorem ampleRoom_mono {more : Nat} (le : count ≤ more) : ampleRoom count ≤ ampleRoom more := by
  simp only [ampleRoom]
  omega

/-- What is inside marks has enough room if the whole has. -/
theorem roomInside?_of_ample {size : Nat} (cost : Nat) (cheap : cost ≤ 3) (shorter : count < size)
    (ample : ampleRoom size ≤ room) :
    ∃ inside, roomInside? cost room = some inside ∧ ampleRoom count ≤ inside := by
  simp only [ampleRoom, leastRoom] at ample
  refine ⟨room - cost, ?_, ?_⟩
  · rw [roomInside?, if_neg]
    simp only [leastRoom]
    omega
  · simp only [ampleRoom, leastRoom]
    omega

/-- The lexemes of a part are read with enough room, in front of what cannot go on with it. -/
def Part.Readable : (part : Part) → List Lexeme → part.Meaning → Prop
  | value, used, meaning => ∀ room rest, ampleRoom used.length ≤ room →
    headIs '(' rest = false → Reads (.value room) (used ++ rest) meaning rest
  | item, used, meaning => ∀ room rest, ampleRoom used.length ≤ room →
    headIs '(' rest = false → Reads (.item room) (used ++ rest) meaning rest
  | items, used, meaning => ∀ room closer rest, ampleRoom used.length ≤ room →
    closer = ']' ∨ closer = ')' →
      Reads (.items room closer) (used ++ .punct closer :: rest) meaning rest
  | member, used, meaning => ∀ room rest, ampleRoom used.length ≤ room →
    headIs '(' rest = false → headIs ':' rest = false →
      Reads (.member room) (used ++ rest) meaning rest
  | members, used, meaning => ∀ room rest, ampleRoom used.length ≤ room →
    Reads (.members room) (used ++ .punct '\x7d' :: rest) meaning rest

theorem headIs_punct {mark other : Char} (different : other ≠ mark) :
    headIs mark (.punct other :: rest) = false := by
  simpa [headIs, Lexeme.isPunct] using different

/-- What is derived can be read. -/
theorem Derives.readable (derives : Derives part used meaning) : part.Readable used meaning := by
  induction derives with
  | int n => exact fun room rest _ _ => .int n
  | float x => exact fun room rest _ _ => .float x
  | str text => exact fun room rest _ _ => .str text
  | word word => exact fun room rest _ _ => .word word
  | name plain => exact fun room rest _ alone => .name plain alone
  | @call id used args plain _ inner =>
    intro room rest ample _
    have shorter : used.length < (.name id :: .punct '(' :: (used ++ [.punct ')'])).length := by
      simp only [List.length_cons, List.length_append]
      omega
    obtain ⟨inside, fits, enough⟩ := roomInside?_of_ample 2 (by decide) shorter ample
    have args := inner inside ')' rest enough (.inr rfl)
    simpa using Reads.call plain fits args
  | @array used items _ inner =>
    intro room rest ample _
    have shorter : used.length < (.punct '[' :: (used ++ [.punct ']'])).length := by
      simp only [List.length_cons, List.length_append]
      omega
    obtain ⟨inside, fits, enough⟩ := roomInside?_of_ample 3 (by decide) shorter ample
    have items := inner inside ']' rest enough (.inl rfl)
    simpa using Reads.array fits items
  | @object used members fields _ settled inner =>
    intro room rest ample _
    have shorter : used.length < (.punct '\x7b' :: (used ++ [.punct '\x7d'])).length := by
      simp only [List.length_cons, List.length_append]
      omega
    obtain ⟨inside, fits, enough⟩ := roomInside?_of_ample 2 (by decide) shorter ample
    have members := inner inside rest enough
    rw [← objectOf_eq_iff.mpr settled]
    simpa using Reads.object fits members
  | plainItem _ inner => exact fun room rest ample alone => .plainItem (inner room rest ample alone)
  | spreadItem _ inner =>
    intro room rest ample alone
    exact .spreadItem (inner room rest ((ampleRoom_mono (Nat.le_succ _)).trans ample) alone)
  | noItem => exact fun room closer rest _ _ => .noItem
  | lastItem _ inner =>
    intro room closer rest ample closes
    have alone : headIs '(' (.punct closer :: rest) = false := by
      rcases closes with rfl | rfl <;> rfl
    have other : closer ≠ ',' := by rcases closes with rfl | rfl <;> decide
    have item := inner room (.punct closer :: rest) ample alone
    exact .lastItem (item.item_opens closes) other item
  | @nextItem used more _ _ _ _ inner others =>
    intro room closer rest ample closes
    have item := inner room (.punct ',' :: (more ++ .punct closer :: rest))
      ((ampleRoom_mono (by simp)).trans ample) rfl
    have items := others room closer rest
      ((ampleRoom_mono (by simp; omega)).trans ample) closes
    simpa using Reads.nextItem (item.item_opens closes) item items
  | @entry lexeme key used value named _ inner =>
    intro room rest ample alone _
    have shorter : used.length ≤ (lexeme :: .punct ':' :: used).length := by
      simp only [List.length_cons]
      omega
    exact .entry named (inner room rest ((ampleRoom_mono shorter).trans ample) alone)
  | keyAlone named => exact fun room rest _ _ alone => .keyAlone named alone
  | spreadMember _ inner =>
    intro room rest ample alone _
    exact .spreadMember (inner room rest ((ampleRoom_mono (Nat.le_succ _)).trans ample) alone)
  | noMember => exact fun room rest _ => .noMember
  | lastMember _ inner =>
    intro room rest ample
    have member := inner room (.punct '\x7d' :: rest) ample rfl rfl
    exact .lastMember member.member_opens member
  | @nextMember used more _ _ _ _ inner others =>
    intro room rest ample
    have member := inner room (.punct ',' :: (more ++ .punct '\x7d' :: rest))
      ((ampleRoom_mono (by simp)).trans ample) rfl rfl
    have members := others room rest ((ampleRoom_mono (by simp; omega)).trans ample)
    simpa using Reads.nextMember member.member_opens member members

end Complete

end Stagecraft
