import Mathlib.Data.List.Infix
import Stagecraft.Proofs.Text.Search

/-!
Pieces of a text: whether it holds one, and what it is cut into at a separator.
-/

namespace Stagecraft

variable {lead text piece separator rest : List Char} {parts more : List (List Char)} {skip : Nat}

theorem after?_eq_none_iff : after? lead text = none ↔ ¬ lead <+: text := by
  constructor
  · rintro missing ⟨rest, rfl⟩
    rw [after?_append] at missing
    cases missing
  · intro apart
    cases found : after? lead text with
    | none => rfl
    | some rest => exact absurd ⟨rest, (eq_append_of_after? found).symm⟩ apart

theorem holds_iff {text piece : String} : holds text piece = true ↔ piece.toList <:+: text.toList := by
  rw [holds]
  constructor
  · intro found
    by_contra apart
    have none : searchFor (fun rest => after? piece.toList rest) text.toList = none := by
      apply search_eq_none_iff.mpr
      intro front back split
      apply after?_eq_none_iff.mpr
      rintro ⟨rest, rfl⟩
      exact apart ⟨front, rest, by rw [split, List.append_assoc]⟩
    rw [none] at found
    cases found
  · rintro ⟨front, back, split⟩
    rw [← split, List.append_assoc]
    exact searchFor_isSome front (by rw [after?_append]; rfl)

theorem getLast?_append_of {front back : String} {c : Char}
    (ends : back.toList.getLast? = some c) : (front ++ back).toList.getLast? = some c := by
  rw [String.toList_append, List.getLast?_append, ends, Option.some_or]

theorem intoFirst_ne_nil (c : Char) (parts : List (List Char)) : intoFirst c parts ≠ [] := by
  cases parts <;> simp [intoFirst]

theorem cutFrom_ne_nil : cutFrom separator skip text ≠ [] := by
  induction text generalizing skip with
  | nil => cases skip <;> simp [cutFrom]
  | cons c rest ih =>
    cases skip with
    | succ skip => exact ih
    | zero =>
      rw [cutFrom]
      split
      · simp
      · exact intoFirst_ne_nil c _

theorem intoFirst_append (c : Char) (filled : parts ≠ []) :
    intoFirst c (parts ++ more) = intoFirst c parts ++ more := by
  cases parts with
  | nil => exact absurd rfl filled
  | cons first others => rfl

theorem cutFrom_of_free (free : ¬ separator <:+: text) : cutFrom separator 0 text = [text] := by
  induction text with
  | nil => rfl
  | cons c rest ih =>
    have here : ¬ separator.isPrefixOf (c :: rest) = true := by
      intro begins
      exact free (List.isPrefixOf_iff_prefix.mp begins).isInfix
    have later := ih fun inside => free (inside.trans (List.suffix_cons c rest).isInfix)
    rw [cutFrom, if_neg here, later, intoFirst]

end Stagecraft
