import Stagecraft.Proofs.Literal.Notation

/-!
Where reading ends with a fault. A mistake is reported at a token or at the end of the text, and it
is the same one however much room there is. Only where the room is little for the number of tokens
may reading end for want of it.
-/

namespace Stagecraft

/-- The mistake is reported where one of the tokens is, or the end of the text. -/
def Reported (stop : Nat) (tokens : List Token) (error : SyntaxError) : Prop :=
  ∃ left, left <:+ tokens ∧ error.offset = (placeOf stop left).2

/-- The answers of a reader with some room and with more. -/
inductive Steady {α : Type} (stop : Nat) (tokens : List Token) (scarce : Prop) :
    Except ReadFault (α × Rest tokens) → Except ReadFault (α × Rest tokens) → Prop where
  | read {answer : α} {rest : Rest tokens} (behind : rest.1 <:+ tokens) :
      Steady stop tokens scarce (.ok (answer, rest)) (.ok (answer, rest))
  | mistaken {error : SyntaxError} (reported : Reported stop tokens error) :
      Steady stop tokens scarce (.error (.malformed error)) (.error (.malformed error))
  | ended {other : Except ReadFault (α × Rest tokens)} (few : scarce) :
      Steady stop tokens scarce (.error (.beyond .nesting)) other

variable {stop room more cost : Nat} {tokens tail left : List Token} {token : Token}

theorem Reported.mono {error : SyntaxError} (reported : Reported stop left error)
    (behind : left <:+ tokens) : Reported stop tokens error := by
  obtain ⟨last, within, place⟩ := reported
  exact ⟨last, within.trans behind, place⟩

theorem steady_failAt {α : Type} {scarce : Prop} {problem : Option Lexeme → SyntaxProblem} :
    Steady (α := α) stop tokens scarce (failAt stop tokens problem) (failAt stop tokens problem) :=
  .mistaken ⟨tokens, List.suffix_rfl, rfl⟩

theorem readSeparator_cases (stop : Nat) (closer : Char) (tokens : List Token) :
    (∃ next within, readSeparator stop closer tokens = .ok ⟨next, within⟩ ∧ next <:+ tokens) ∨
      ∃ error, readSeparator stop closer tokens = .error (.malformed error) ∧
        Reported stop tokens error := by
  rw [readSeparator]
  split
  · exact .inl ⟨tokens.tail, by simp, rfl, List.tail_suffix tokens⟩
  · split
    · exact .inl ⟨tokens, Nat.le_refl _, rfl, List.suffix_rfl⟩
    · exact .inr ⟨_, rfl, tokens, List.suffix_rfl, rfl⟩

/-- Either there is too little room for what is inside, or there is some, and more of it where there
is more outside. -/
theorem roomInside?_cases (cost : Nat) (wider : room ≤ more) :
    roomInside? cost room = none ∧ room < cost + leastRoom ∨
      ∃ inside wide, roomInside? cost room = some inside ∧ roomInside? cost more = some wide ∧
        inside ≤ wide ∧ room = inside + cost := by
  simp only [roomInside?]
  by_cases few : room < cost + leastRoom
  · exact .inl ⟨if_pos few, few⟩
  · rw [if_neg few, if_neg (by omega)]
    exact .inr ⟨_, _, rfl, rfl, by omega, by omega⟩

theorem few_of_none {count : Nat} (few : room < cost + leastRoom) (cheap : cost ≤ 3)
    (filled : 0 < count) : room < ampleRoom count := by
  rw [ampleRoom]
  omega

theorem few_of_inside {inside count size : Nat} (few : inside < ampleRoom count)
    (spent : room = inside + cost) (cheap : cost ≤ 3) (shorter : count < size) :
    room < ampleRoom size := by
  simp only [ampleRoom] at few ⊢
  omega

mutual

theorem steady_value : (tokens : List Token) → {room more : Nat} → room ≤ more →
    Steady stop tokens (room < ampleRoom tokens.length) (readValue stop room tokens)
      (readValue stop more tokens)
  | [], _, _, _ => by
    rw [readValue, readValue]
    exact steady_failAt
  | ⟨lexeme, offset⟩ :: tail, room, more, wider => by
    rw [readValue, readValue]
    have behind : tail <:+ ⟨lexeme, offset⟩ :: tail := List.suffix_cons _ _
    have shorter : tail.length < (⟨lexeme, offset⟩ :: tail : List Token).length :=
      Nat.lt_succ_self _
    cases lexeme with
    | int n => exact .read behind
    | float x => exact .read behind
    | str text => exact .read behind
    | ellipsis => exact steady_failAt
    | punct mark =>
      simp only
      split
      · rcases roomInside?_cases 2 wider with ⟨none, few⟩ | ⟨inside, wide, fits, fits', le, spent⟩
        · rw [none]
          exact .ended (few_of_none few (by decide) (Nat.succ_pos _))
        · rw [fits, fits']
          simp only
          have inner := steady_members tail le
          generalize readMembers stop inside tail = here, readMembers stop wide tail = there at inner
          cases inner with
          | read left => exact .read (left.trans behind)
          | mistaken reported => exact .mistaken (reported.mono behind)
          | ended few => exact .ended (few_of_inside few spent (by decide) shorter)
      · split
        · rcases roomInside?_cases 3 wider with ⟨none, few⟩ | ⟨inside, wide, fits, fits', le, spent⟩
          · rw [none]
            exact .ended (few_of_none few (by decide) (Nat.succ_pos _))
          · rw [fits, fits']
            simp only
            have inner := steady_items ']' tail le
            generalize readItems stop inside ']' tail = here,
              readItems stop wide ']' tail = there at inner
            cases inner with
            | read left => exact .read (left.trans behind)
            | mistaken reported => exact .mistaken (reported.mono behind)
            | ended few => exact .ended (few_of_inside few spent (by decide) shorter)
        · exact steady_failAt
    | name id =>
      simp only
      split
      · exact .read behind
      · split
        · rcases roomInside?_cases 2 wider with ⟨none, few⟩ | ⟨inside, wide, fits, fits', le, spent⟩
          · rw [none]
            exact .ended (few_of_none few (by decide) (Nat.succ_pos _))
          · rw [fits, fits']
            simp only
            have inner := steady_items ')' tail.tail le
            have shorter := (List.tail_suffix tail).length_le.trans_lt shorter
            have behind := (List.tail_suffix tail).trans behind
            generalize readItems stop inside ')' tail.tail = here,
              readItems stop wide ')' tail.tail = there at inner
            cases inner with
            | read left => exact .read (left.trans behind)
            | mistaken reported => exact .mistaken (reported.mono behind)
            | ended few => exact .ended (few_of_inside few spent (by decide) shorter)
        · exact .read behind
termination_by tokens => 3 * tokens.length
decreasing_by all_goals simp only [List.length_cons, List.length_tail]; omega

theorem steady_item : (tokens : List Token) → {room more : Nat} → room ≤ more →
    Steady stop tokens (room < ampleRoom tokens.length) (readItem stop room tokens)
      (readItem stop more tokens)
  | [], _, _, _ => by
    rw [readItem, readItem]
    exact steady_failAt
  | token :: tail, room, more, wider => by
    rw [readItem, readItem]
    split
    · have inner := steady_value tail wider
      have behind : tail <:+ token :: tail := List.suffix_cons _ _
      generalize readValue stop room tail = here, readValue stop more tail = there at inner
      cases inner with
      | read left => exact .read (left.trans behind)
      | mistaken reported => exact .mistaken (reported.mono behind)
      | ended few => exact .ended (few.trans_le (ampleRoom_mono behind.length_le))
    · exact steady_value (token :: tail) wider
termination_by tokens => 3 * tokens.length + 1
decreasing_by all_goals simp only [List.length_cons]; omega

theorem steady_items (closer : Char) : (tokens : List Token) → {room more : Nat} → room ≤ more →
    Steady stop tokens (room < ampleRoom tokens.length) (readItems stop room closer tokens)
      (readItems stop more closer tokens)
  | [], _, _, _ => by
    rw [readItems, readItems]
    exact steady_failAt
  | token :: tail, room, more, wider => by
    rw [readItems, readItems]
    split
    · exact .read (List.suffix_cons _ _)
    · have item := steady_item (token :: tail) wider
      generalize readItem stop room (token :: tail) = here,
        readItem stop more (token :: tail) = there at item
      cases item with
      | mistaken reported => exact .mistaken reported
      | ended few => exact .ended few
      | @read value rest behind =>
        obtain ⟨after, shorter⟩ := rest
        simp only
        rcases readSeparator_cases stop closer after with
          ⟨next, within, separated, later⟩ | ⟨error, separated, reported⟩
        · rw [separated]
          have less : next.length < tail.length + 1 := Nat.lt_of_le_of_lt within shorter
          simp only
          have inner := steady_items closer next wider
          have behind := later.trans behind
          generalize readItems stop room closer next = here,
            readItems stop more closer next = there at inner
          cases inner with
          | read left => exact .read (left.trans behind)
          | mistaken reported => exact .mistaken (reported.mono behind)
          | ended few => exact .ended (few.trans_le (ampleRoom_mono less.le))
        · rw [separated]
          exact .mistaken (reported.mono behind)
termination_by tokens => 3 * tokens.length + 2
decreasing_by all_goals simp only [List.length_cons]; omega

theorem steady_member : (tokens : List Token) → {room more : Nat} → room ≤ more →
    Steady stop tokens (room < ampleRoom tokens.length) (readMember stop room tokens)
      (readMember stop more tokens)
  | [], _, _, _ => by
    rw [readMember, readMember]
    exact steady_failAt
  | token :: tail, room, more, wider => by
    rw [readMember, readMember]
    have behind : tail <:+ token :: tail := List.suffix_cons _ _
    split
    · have inner := steady_value tail wider
      generalize readValue stop room tail = here, readValue stop more tail = there at inner
      cases inner with
      | read left => exact .read (left.trans behind)
      | mistaken reported => exact .mistaken (reported.mono behind)
      | ended few => exact .ended (few.trans_le (ampleRoom_mono behind.length_le))
    · exact steady_failAt
    · split
      · have inner := steady_value tail.tail wider
        have behind := (List.tail_suffix tail).trans behind
        generalize readValue stop room tail.tail = here,
          readValue stop more tail.tail = there at inner
        cases inner with
        | read left => exact .read (left.trans behind)
        | mistaken reported => exact .mistaken (reported.mono behind)
        | ended few => exact .ended (few.trans_le (ampleRoom_mono behind.length_le))
      · exact .read behind
termination_by tokens => 3 * tokens.length + 1
decreasing_by all_goals simp only [List.length_cons, List.length_tail]; omega

theorem steady_members : (tokens : List Token) → {room more : Nat} → room ≤ more →
    Steady stop tokens (room < ampleRoom tokens.length) (readMembers stop room tokens)
      (readMembers stop more tokens)
  | [], _, _, _ => by
    rw [readMembers, readMembers]
    exact steady_failAt
  | token :: tail, room, more, wider => by
    rw [readMembers, readMembers]
    split
    · exact .read (List.suffix_cons _ _)
    · have member := steady_member (token :: tail) wider
      generalize readMember stop room (token :: tail) = here,
        readMember stop more (token :: tail) = there at member
      cases member with
      | mistaken reported => exact .mistaken reported
      | ended few => exact .ended few
      | @read member rest behind =>
        obtain ⟨after, shorter⟩ := rest
        simp only
        rcases readSeparator_cases stop '\x7d' after with
          ⟨next, within, separated, later⟩ | ⟨error, separated, reported⟩
        · rw [separated]
          have less : next.length < tail.length + 1 := Nat.lt_of_le_of_lt within shorter
          simp only
          have inner := steady_members next wider
          have behind := later.trans behind
          generalize readMembers stop room next = here,
            readMembers stop more next = there at inner
          cases inner with
          | read left => exact .read (left.trans behind)
          | mistaken reported => exact .mistaken (reported.mono behind)
          | ended few => exact .ended (few.trans_le (ampleRoom_mono less.le))
        · rw [separated]
          exact .mistaken (reported.mono behind)
termination_by tokens => 3 * tokens.length + 2
decreasing_by all_goals simp only [List.length_cons]; omega

end

end Stagecraft
