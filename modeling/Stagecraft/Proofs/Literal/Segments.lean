import Mathlib.Data.List.Forall2
import Stagecraft.Proofs.Literal.Spacing
import Stagecraft.Proofs.Literal.Unplaced

/-!
Texts cut into their tokens and the stretches between them. Layout and comments do not change what
is read: with any of the stretches filled anew the tokens stay what they are, and with them the
value, or the cause for which the text is refused.
-/

namespace Stagecraft

/-- A token as a text writes it, and the stretch behind it. -/
structure Segment where
  written : List Char
  lexeme : Lexeme
  behind : List Char

/-- A text cut into its tokens: the stretch in front of them, and each token with the stretch behind
it. -/
structure Segmented where
  front : List Char
  segments : List Segment

def Segmented.text (cut : Segmented) : List Char :=
  cut.front ++ cut.segments.flatMap fun segment => segment.written ++ segment.behind

def Segmented.lexemes (cut : Segmented) : List Lexeme := cut.segments.map (·.lexeme)

/-- The tokens are written the same, and each stretch is left as it is or filled anew. -/
structure Segmented.Respaced (cut other : Segmented) : Prop where
  front : other.front = cut.front ∨ Spacing other.front
  segments : List.Forall₂ (fun segment respaced => respaced.written = segment.written ∧
    (respaced.behind = segment.behind ∨ Spacing respaced.behind)) cut.segments other.segments

/-- What a piece is with the tokens behind it: a gap belongs to the stretch in front of them, and a
token has that stretch behind it. -/
def Piece.before? (used : List Char) (piece : Piece) (cut : Segmented) : Option Segmented :=
  match piece with
  | gap => some ⟨used ++ cut.front, cut.segments⟩
  | token lexeme => some ⟨[], ⟨used, lexeme, cut.front⟩ :: cut.segments⟩
  | beyond _ => none

/-- The tokens of a text with the stretches between them. -/
def segmented? : List Char → Option Segmented
  | [] => some ⟨[], []⟩
  | c :: tail =>
    match _ : nextPiece? (c :: tail) with
    | none => none
    | some (piece, rest) =>
      let used := (c :: tail).take ((c :: tail).length - rest.length)
      (segmented? rest).bind (piece.before? used)
termination_by text => text.length
decreasing_by exact nextPiece?_length ‹_›

theorem segmented?_append {used rest : List Char} {piece : Piece}
    (next : nextPiece? (used ++ rest) = some (piece, rest)) :
    segmented? (used ++ rest) = (segmented? rest).bind (piece.before? used) := by
  have taken : (used ++ rest).take ((used ++ rest).length - rest.length) = used := by simp
  cases whole : used ++ rest with
  | nil =>
    rw [whole] at next
    cases next
  | cons c tail =>
    rw [whole] at next taken
    rw [segmented?]
    split
    · next none =>
      rw [next] at none
      cases none
    · next read =>
      rw [next] at read
      cases read
      simp only [taken]

/-- Cut where the tokens of its text are: each token is read there, and the stretches before tokens
are empty or spacing. -/
inductive Segmented.Sound : Segmented → Prop where
  | last {front : List Char} (idle : Lexes front []) : Sound ⟨front, []⟩
  | token {front : List Char} {segment : Segment} {segments : List Segment}
      (spaced : front = [] ∨ Spacing front)
      (next : nextPiece? (segment.written ++ Segmented.text ⟨segment.behind, segments⟩) =
        some (.token segment.lexeme, Segmented.text ⟨segment.behind, segments⟩))
      (others : Sound ⟨segment.behind, segments⟩) : Sound ⟨front, segment :: segments⟩

theorem no_token_of_feed {text rest : List Char} {lexeme : Lexeme}
    (feed : ∀ c ∈ text.head?, c = '\n') : nextPiece? text ≠ some (.token lexeme, rest) := by
  intro next
  cases text with
  | nil => cases next
  | cons c tail =>
    obtain rfl := feed c rfl
    rw [nextPiece?_of_blank (by decide)] at next
    cases next

namespace Segmented

variable {front space : List Char} {segment : Segment} {segments : List Segment}
  {cut other : Segmented}

theorem text_cons : text ⟨front, segment :: segments⟩ =
    front ++ (segment.written ++ text ⟨segment.behind, segments⟩) := by
  simp only [text, List.flatMap_cons, List.append_assoc]

theorem text_append : text ⟨space ++ cut.front, cut.segments⟩ = space ++ cut.text := by
  simp only [text, List.append_assoc]

/-- What is passed over belongs to the stretch in front. -/
theorem Sound.gap (sound : cut.Sound)
    (next : nextPiece? (space ++ cut.text) = some (.gap, cut.text)) :
    Sound ⟨space ++ cut.front, cut.segments⟩ := by
  cases sound with
  | @last front idle =>
    rw [text, List.flatMap_nil, List.append_nil] at next
    exact .last (.gap next idle)
  | @token front segment segments spaced token others =>
    refine .token (.inr ?_) token others
    have spacing_append (spacing : Spacing space) : Spacing (space ++ front) := by
      rcases spaced with rfl | more
      · rwa [List.append_nil]
      · exact spacing.append more
    rcases gap_cases next with spacing | ⟨inner, whole, rfl, feed⟩
    · exact spacing_append spacing
    · rw [text_cons] at feed
      cases front with
      | nil =>
        rw [List.nil_append] at feed
        exact absurd token (no_token_of_feed feed)
      | cons c front =>
        obtain rfl := feed c rfl
        have line : Pad ('/' :: '/' :: (inner ++ ['\n'])) := .line whole
        have split : '/' :: '/' :: inner ++ '\n' :: front =
            '/' :: '/' :: (inner ++ ['\n']) ++ front := by simp
        rw [split]
        have spacing := spaced.resolve_left (List.cons_ne_nil _ _)
        rcases spacing.behind_feed with rfl | more
        · rw [List.append_nil]
          exact .one line
        · exact .more line more

/-- Each text that is cut into lexemes is the joint text of its tokens and stretches. -/
theorem of_lexes {text : List Char} {lexemes : List Lexeme} (lexed : Lexes text lexemes) :
    ∃ cut, segmented? text = some cut ∧ cut.text = text ∧ cut.lexemes = lexemes ∧ cut.Sound := by
  induction lexed with
  | nil => exact ⟨⟨[], []⟩, by rw [segmented?], rfl, rfl, .last .nil⟩
  | gap next _ ih =>
    obtain ⟨cut, found, rfl, rfl, sound⟩ := ih
    obtain ⟨space, rfl⟩ := nextPiece?_suffix next
    refine ⟨⟨space ++ cut.front, cut.segments⟩, ?_, text_append, rfl, sound.gap next⟩
    rw [segmented?_append next, found]
    rfl
  | @token _ _ lexeme _ next _ ih =>
    obtain ⟨cut, found, rfl, rfl, sound⟩ := ih
    obtain ⟨used, rfl⟩ := nextPiece?_suffix next
    refine ⟨⟨[], ⟨used, lexeme, cut.front⟩ :: cut.segments⟩, ?_, text_cons, rfl,
      .token (.inl rfl) next sound⟩
    rw [segmented?_append next, found]
    rfl

/-- Up to the first stretch that is filled anew the texts are the same, and there the new one
halts. -/
theorem Respaced.meets (respaced : cut.Respaced other) :
    ∃ same rest after, cut.text = same ++ rest ∧ other.text = same ++ after ∧ Halts after := by
  obtain ⟨front, segments⟩ := cut
  obtain ⟨front', segments'⟩ := other
  obtain ⟨stretch, all⟩ := respaced
  simp only at stretch all
  induction all generalizing front front' with
  | nil =>
    rcases stretch with rfl | spacing
    · exact ⟨text ⟨front', []⟩, [], [], by simp, by simp, by simp [Halts]⟩
    · exact ⟨[], _, _, rfl, rfl, spacing.halts _⟩
  | @cons segment respaced segments segments' first _ ih =>
    rcases stretch with rfl | spacing
    · obtain ⟨written, behind⟩ := first
      obtain ⟨same, rest, after, before, now, halts⟩ := ih _ _ behind
      refine ⟨front' ++ (segment.written ++ same), rest, after, ?_, ?_, halts⟩
      · rw [text_cons, before]
        simp only [List.append_assoc]
      · rw [text_cons, now, written]
        simp only [List.append_assoc]
    · exact ⟨[], _, _, rfl, rfl, spacing.halts _⟩

theorem Sound.lexes_respaced (sound : cut.Sound) (respaced : cut.Respaced other) :
    Lexes other.text cut.lexemes := by
  induction sound generalizing other with
  | @last front idle =>
    obtain ⟨front', segments'⟩ := other
    obtain ⟨stretch, all⟩ := respaced
    simp only at stretch all
    cases all
    rw [text, List.flatMap_nil]
    rcases stretch with rfl | spacing
    · rw [List.append_nil]
      exact idle
    · exact spacing.lexes_iff.mpr .nil
  | @token front segment segments spaced next _ ih =>
    obtain ⟨front', segments'⟩ := other
    obtain ⟨stretch, all⟩ := respaced
    simp only at stretch all
    cases all with
    | @cons _ respaced _ segments' first others =>
      obtain ⟨written, behind⟩ := first
      have inner : Respaced ⟨segment.behind, segments⟩ ⟨respaced.behind, segments'⟩ :=
        ⟨behind, others⟩
      obtain ⟨same, rest, after, before, now, halts⟩ := inner.meets
      have token : nextPiece? (respaced.written ++ text ⟨respaced.behind, segments'⟩) =
          some (.token segment.lexeme, text ⟨respaced.behind, segments'⟩) := by
        rw [before, ← List.append_assoc] at next
        rw [now, written, ← List.append_assoc]
        exact nextPiece?_exchange halts next
      have lexed : Lexes (respaced.written ++ text ⟨respaced.behind, segments'⟩)
          (lexemes ⟨front, segment :: segments⟩) := .token token (ih inner)
      have spacing : front' = [] ∨ Spacing front' := by
        rcases stretch with rfl | spacing
        · exact spaced
        · exact .inr spacing
      rw [text_cons]
      rcases spacing with rfl | spacing
      · exact lexed
      · exact spacing.lexes_iff.mpr lexed

/-- Each token is one by itself, too. -/
theorem Sound.alone (sound : cut.Sound) : ∀ segment ∈ cut.segments,
    nextPiece? segment.written = some (.token segment.lexeme, []) := by
  induction sound with
  | last idle => exact List.forall_mem_nil _
  | @token _ segment segments _ next _ ih =>
    have ends : Halts [] := by simp [Halts]
    have alone : nextPiece? (segment.written ++ []) = some (.token segment.lexeme, [] ++ []) :=
      nextPiece?_exchange ends next
    rw [List.append_nil, List.append_nil] at alone
    exact List.forall_mem_cons.mpr ⟨alone, ih⟩

/-- The same tokens with one stretch everywhere. -/
def evenly (stretch : List Char) (cut : Segmented) : Segmented :=
  ⟨stretch, cut.segments.map fun segment => { segment with behind := stretch }⟩

theorem respaced_evenly {stretch : List Char} (spacing : Spacing stretch) (cut : Segmented) :
    cut.Respaced (cut.evenly stretch) := by
  refine ⟨.inr spacing, ?_⟩
  rw [evenly, List.forall₂_map_right_iff]
  exact List.forall₂_same.mpr fun segment _ => ⟨rfl, .inr spacing⟩

end Segmented

/-- Layout and comments do not change what is read. A text that has tokens is cut into them and the
stretches between them. With any of the stretches filled anew, also those that were empty, it has
the same tokens, and it is read as the same value or refused for the same cause. -/
theorem readLiteral_respaced {text : String} {tokens : List Token}
    (lexed : tokenize text = .ok tokens) :
    ∃ cut, segmented? text.toList = some cut ∧ cut.text = text.toList ∧
      cut.lexemes = lexemesOf tokens ∧
      (∀ segment ∈ cut.segments, nextPiece? segment.written = some (.token segment.lexeme, [])) ∧
      ∀ other, cut.Respaced other →
        (tokenize (String.ofList other.text)).map lexemesOf = .ok (lexemesOf tokens) ∧
        (readLiteral (String.ofList other.text)).mapError ReadFault.cause =
          (readLiteral text).mapError ReadFault.cause := by
  obtain ⟨cut, found, whole, lexemes, sound⟩ := Segmented.of_lexes (lexes_of_tokensUpTo lexed)
  refine ⟨cut, found, whole, lexemes, sound.alone, fun other respaced => ?_⟩
  have again := sound.lexes_respaced respaced
  rw [lexemes] at again
  obtain ⟨tokens', lexed', same⟩ := again.tokens (codeCount other.text)
  have lexed' : tokenize (String.ofList other.text) = .ok tokens' := by
    rw [tokenize, String.toList_ofList]
    exact lexed'
  constructor
  · rw [lexed', ← same]
    rfl
  · rw [readLiteral, readLiteral, lexed', lexed]
    exact readTokens_alike _ _ same

/-- Tokens side by side, and a comment that the text ends. -/
def crowdedList : String := "[-1.5e3,...f(.5,'//'/**/)]// end"

/-- The same tokens, each of them apart. -/
def looseList : String :=
  "/*'*///[\n[/*'*///[\n-1.5e3/*'*///[\n,/*'*///[\n.../*'*///[\nf/*'*///[\n(/*'*///[\n.5" ++
    "/*'*///[\n,/*'*///[\n'//'/*'*///[\n)/*'*///[\n]/*'*///[\n"

theorem readLiteral_respaced_crowded : ∃ tokens,
    tokenize crowdedList = .ok tokens ∧
      (tokenize looseList).map lexemesOf = .ok (lexemesOf tokens) ∧
      (readLiteral looseList).mapError ReadFault.cause =
        (readLiteral crowdedList).mapError ReadFault.cause := by
  have accepted : (tokenize crowdedList).toOption.isSome = true := by decide +kernel
  have written : (segmented? crowdedList.toList).map
      (fun cut => (cut.evenly "/*'*///[\n".toList).text) = some looseList.toList := by
    decide +kernel
  cases lexed : tokenize crowdedList with
  | error fault =>
    rw [lexed] at accepted
    cases accepted
  | ok tokens =>
    obtain ⟨cut, found, -, -, -, respaced⟩ := readLiteral_respaced lexed
    have free : ¬ ['*', '/'] <:+: ['\''] := by decide
    have whole : '\n' ∉ ['['] := by decide
    have spacing : Spacing "/*'*///[\n".toList := .more (.block free) (.one (.line whole))
    rw [found, Option.map_some, Option.some.injEq] at written
    have same := respaced _ (Segmented.respaced_evenly spacing cut)
    rw [written, String.ofList_toList] at same
    exact ⟨tokens, rfl, same⟩

end Stagecraft
