import Stagecraft.Proofs.Literal.Faults

/-!
A text is read as the value its lexemes derive, or refused with a mistake that lies within it. With
enough room for the number of tokens there is no third way.
-/

namespace Stagecraft

variable {stop room more : Nat} {tokens : List Token} {value : Value} {text : String}
  {fault : ReadFault} {marks : List Lexeme}

theorem headIs_of_marksOnly {mark : Char} (only : marksOnly marks = true) (comma : mark ≠ ',')
    (semicolon : mark ≠ ';') : headIs mark marks = false := by
  cases marks with
  | nil => rfl
  | cons lexeme marks =>
    rw [marksOnly, List.all_cons, Bool.and_eq_true, Bool.or_eq_true, isPunct_iff, isPunct_iff] at only
    rcases only.1 with rfl | rfl
    · exact headIs_punct comma.symm
    · exact headIs_punct semicolon.symm

theorem document_of_readWithin (read : readWithin room stop tokens = .ok value) :
    Document (lexemesOf tokens) value := by
  obtain ⟨marks, reads, only⟩ := readWithin_iff.mp read
  obtain ⟨used, whole, derives⟩ := reads.derived
  exact ⟨used, marks, whole, derives, only⟩

theorem readWithin_of_document (ample : ampleRoom tokens.length ≤ room)
    (document : Document (lexemesOf tokens) value) : readWithin room stop tokens = .ok value := by
  obtain ⟨used, marks, whole, derives, only⟩ := document
  have shorter : used.length ≤ tokens.length := by
    have lengths := congrArg List.length whole
    rw [lexemesOf, List.length_map, List.length_append] at lengths
    omega
  have reads := derives.readable room marks ((ampleRoom_mono shorter).trans ample)
    (headIs_of_marksOnly only (by decide) (by decide))
  rw [← whole] at reads
  exact readWithin_iff.mpr ⟨marks, reads, only⟩

/-- More room changes nothing but the want of it. -/
theorem readWithin_wider (stop : Nat) (tokens : List Token) (wider : room ≤ more) :
    readWithin room stop tokens = .error (.beyond .nesting) ∧ room < ampleRoom tokens.length ∨
      readWithin more stop tokens = readWithin room stop tokens ∧
        ∀ fault, readWithin room stop tokens = .error fault →
          ∃ error, fault = .malformed error ∧ Reported stop tokens error := by
  have steady : Steady stop tokens (room < ampleRoom tokens.length)
      (readValue stop room tokens) (readValue stop more tokens) := steady_value tokens wider
  rw [readWithin, readWithin]
  generalize readValue stop room tokens = here, readValue stop more tokens = there at steady
  cases steady with
  | ended few => exact .inl ⟨rfl, few⟩
  | mistaken reported =>
    refine .inr ⟨rfl, ?_⟩
    rintro _ ⟨⟩
    exact ⟨_, rfl, reported⟩
  | @read answer rest behind =>
    refine .inr ⟨rfl, fun fault failed => ?_⟩
    simp only at failed
    split at failed
    · cases failed
    · next token others left =>
      cases failed
      have later : token :: others <:+ rest.1 := by
        rw [← left]
        exact List.dropWhile_suffix _
      exact ⟨_, rfl, token :: others, later.trans behind, rfl⟩

theorem Reported.offset_le {error : SyntaxError} (reported : Reported stop tokens error)
    (within : ∀ token ∈ tokens, token.offset ≤ stop) : error.offset ≤ stop := by
  obtain ⟨left, behind, place⟩ := reported
  rw [place]
  cases left with
  | nil => exact Nat.le_refl _
  | cons token left => exact within token (behind.subset List.mem_cons_self)

/-- Enough room for the tokens is as much as could be wished for. -/
theorem readWithin_of_ample (ample : ampleRoom tokens.length ≤ room) :
    readWithin more stop tokens = .error (.beyond .nesting) ∨
      readWithin more stop tokens = readWithin room stop tokens := by
  rcases Nat.le_total more room with wider | wider
  · rcases readWithin_wider stop tokens wider with ⟨ended, -⟩ | ⟨same, -⟩
    · exact .inl ended
    · exact .inr same.symm
  · rcases readWithin_wider stop tokens wider with ⟨-, few⟩ | ⟨same, -⟩
    · exact absurd few (Nat.not_lt.mpr ample)
    · exact .inr same

/-- With enough room a text is read as a value exactly when its tokens derive that value, and
otherwise there is a mistake in it. The room there is gives the same answer unless it is too
little. -/
theorem readWithin_iff_document (cut : tokenize text = .ok tokens)
    (ample : ampleRoom tokens.length ≤ room) :
    (∀ value, readWithin room (codeCount text.toList) tokens = .ok value ↔
      Document (lexemesOf tokens) value) ∧
    ((∀ value, ¬ Document (lexemesOf tokens) value) →
      ∃ error, readWithin room (codeCount text.toList) tokens = .error (.malformed error) ∧
        error.offset ≤ codeCount text.toList) ∧
    (readLiteral text = .error (.beyond .nesting) ∨
      readLiteral text = readWithin room (codeCount text.toList) tokens) := by
  refine ⟨fun value => ⟨document_of_readWithin, readWithin_of_document ample⟩, ?_, ?_⟩
  · intro none
    cases read : readWithin room (codeCount text.toList) tokens with
    | ok value => exact absurd (document_of_readWithin read) (none value)
    | error fault =>
      rcases readWithin_wider (codeCount text.toList) tokens (Nat.le_refl room) with
        ⟨-, few⟩ | ⟨-, mistakes⟩
      · exact absurd few (Nat.not_lt.mpr ample)
      · obtain ⟨error, rfl, reported⟩ := mistakes fault read
        exact ⟨error, rfl, reported.offset_le (offset_le_of_tokensUpTo cut)⟩
  · have literal : readLiteral text =
        readWithin nestingRoom (codeCount text.toList) tokens := by
      rw [readLiteral, cut]
      rfl
    rw [literal]
    exact readWithin_of_ample ample

/-- An object with a key given three times, by a spread object among others, and with marks behind
it. -/
def repeatedKeys : String :=
  "\x7bhero, a: 1, ...\x7ba: [x,], 'b': f(...[])\x7d, a: null,\x7d,;"

theorem readWithin_iff_document_repeated : ∃ tokens value,
    tokenize repeatedKeys = .ok tokens ∧ readLiteral repeatedKeys = .ok value ∧
      readWithin (ampleRoom tokens.length) (codeCount repeatedKeys.toList) tokens = .ok value ∧
      Document (lexemesOf tokens) value := by
  have read : (readLiteral repeatedKeys).toOption.isSome = true := by decide +kernel
  cases cut : tokenize repeatedKeys with
  | error fault =>
    rw [readLiteral, cut] at read
    cases read
  | ok tokens =>
    obtain ⟨derived, -, literal⟩ := readWithin_iff_document cut (Nat.le_refl _)
    cases answer : readLiteral repeatedKeys with
    | error fault =>
      rw [answer] at read
      cases read
    | ok value =>
      rw [answer] at literal
      rcases literal with ended | same
      · cases ended
      · exact ⟨tokens, value, rfl, rfl, same.symm, (derived value).mp same.symm⟩

end Stagecraft
