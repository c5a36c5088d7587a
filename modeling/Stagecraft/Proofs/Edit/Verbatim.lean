import Stagecraft.Proofs.Edit.EntranceTokens

/-!
Texts between two marks that hold just what they say: neither marks nor escapes stand within. The
reader takes them for what the searches on lines take them for.
-/

namespace Stagecraft

variable {name : String} {text more : List Char} {behind : List Lexeme}

/-- A character that a text holds as it is, between marks of either kind. -/
def isVerbatim (c : Char) : Bool := !isQuote c && c != '\\' && c != '\n'

/-- A text between two marks of one kind, with neither marks nor escapes within. -/
def plainText? : List Char → Option String
  | [] => none
  | mark :: text =>
    match isQuote mark, text.dropWhile isVerbatim with
    | true, closing :: _ =>
      if closing = mark then some (String.ofList (text.takeWhile isVerbatim)) else none
    | _, _ => none

theorem plainText?_split (read : plainText? text = some name) : ∃ mark more, isQuote mark = true ∧
    text = mark :: (name.toList ++ mark :: more) ∧ ∀ c ∈ name.toList, isVerbatim c = true := by
  rw [plainText?.eq_def] at read
  split at read
  · cases read
  · next mark text =>
    split at read
    · next closing more quote left =>
      obtain ⟨rfl, same⟩ := Option.ite_none_right_eq_some.mp read
      obtain rfl := Option.some.inj same
      have parts := List.takeWhile_append_dropWhile (p := isVerbatim) (l := text)
      rw [left] at parts
      refine ⟨closing, more, quote, by rw [String.toList_ofList, parts], ?_⟩
      intro c member
      rw [String.toList_ofList] at member
      exact List.mem_takeWhile_imp member
    · cases read

theorem isVerbatim_iff {c : Char} :
    isVerbatim c = true ↔ isQuote c = false ∧ c ≠ '\\' ∧ c ≠ '\n' := by
  rw [isVerbatim, Bool.and_eq_true, Bool.and_eq_true, Bool.not_eq_true', bne_iff_ne, bne_iff_ne,
    and_assoc]

theorem skipBlanks_append_of_cons {c : Char} {tail : List Char}
    (left : skipBlanks text = c :: tail) : skipBlanks (text ++ more) = c :: (tail ++ more) := by
  rcases skipBlanks_eq_nil_or text more with whole | ⟨none, -⟩
  · rw [whole, left, List.cons_append]
  · rw [left] at none
    cases none

/-- The reader takes the text for what it says, behind any blanks. -/
theorem lexes_of_plainText (read : plainText? (skipBlanks text) = some name)
    (lexed : Lexes (text ++ more) behind) : ∃ others, behind = .str name :: others := by
  obtain ⟨mark, after, quote, split, plain⟩ := plainText?_split read
  have free : ∀ c ∈ name.toList, c ≠ mark ∧ c ≠ '\\' ∧ c ≠ '\n' := by
    intro c member
    obtain ⟨unquoted, slash, feed⟩ := isVerbatim_iff.mp (plain c member)
    refine ⟨?_, slash, feed⟩
    rintro rfl
    rw [unquoted] at quote
    cases quote
  have token : nextPiece? (mark :: (name.toList ++ mark :: after ++ more)) =
      some (.token (.str name), after ++ more) := by
    have body := unescape_plain fun c member => (free c member).2.1
    rw [nextPiece?_quote quote, List.append_assoc, List.cons_append, textBody?_plain _ quote free,
      Option.map_some]
    simp only [body, String.ofList_toList]
  rw [← Lexes.skipBlanks_iff, skipBlanks_append_of_cons split, Lexes.token_iff token] at lexed
  obtain ⟨others, rfl, -⟩ := lexed
  exact ⟨others, rfl⟩

theorem takeWhile_stop {test : Char → Bool} {front : List Char} {c : Char}
    (inner : ∀ d ∈ front, test d = true) (stop : test c = false) :
    (front ++ c :: more).takeWhile test = front := by
  rw [List.takeWhile_append_of_pos inner, List.takeWhile_cons_of_neg (by simp [stop]),
    List.append_nil]

/-- Two texts without marks that are each followed by a mark. -/
theorem eq_of_marked {front front' back back' : List Char} {mark mark' : Char}
    (free : ∀ c ∈ front, isQuote c = false) (free' : ∀ c ∈ front', isQuote c = false)
    (quote : isQuote mark = true) (quote' : isQuote mark' = true)
    (same : front ++ mark :: back = front' ++ mark' :: back') : front = front' := by
  have lists := congrArg (List.takeWhile fun c => !isQuote c) same
  rwa [takeWhile_stop (fun c member => by rw [free c member]; rfl) (by rw [quote]; rfl),
    takeWhile_stop (fun c member => by rw [free' c member]; rfl) (by rw [quote']; rfl)] at lists

end Stagecraft
