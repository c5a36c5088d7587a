import Stagecraft.Text.Scan

/-!
Texts between apostrophes, as fixes and inserted lines write them: a backslash stands before every
apostrophe and every backslash.
-/

namespace Stagecraft

def escapeQuote (c : Char) : List Char :=
  if c = '\\' || c = '\'' then ['\\', c] else [c]

def quoteChars (text : List Char) : List Char := '\'' :: text.flatMap escapeQuote ++ ['\'']

def quote (text : String) : String := String.ofList (quoteChars text.toList)

/-- Drops each backslash that stands before another character of the same line. -/
def dropEscapes : List Char → List Char
  | '\\' :: c :: rest =>
    if c = '\n' then '\\' :: c :: dropEscapes rest else c :: dropEscapes rest
  | c :: rest => c :: dropEscapes rest
  | [] => []

/-- The characters up to the closing apostrophe, with their escapes, and what follows it. A
backslash at the end of a line escapes nothing. -/
def quotedBody? : List Char → Option (List Char × List Char)
  | [] => none
  | '\'' :: rest => some ([], rest)
  | ['\\'] => none
  | '\\' :: c :: rest =>
    if c = '\n' then none
    else (quotedBody? rest).map fun (body, after) => ('\\' :: c :: body, after)
  | c :: rest => (quotedBody? rest).map fun (body, after) => (c :: body, after)

/-- A text between apostrophes, read back. -/
def readQuoted? : List Char → Option (String × List Char)
  | '\'' :: rest =>
    (quotedBody? rest).map fun (body, after) => (String.ofList (dropEscapes body), after)
  | _ => none

theorem dropEscapes_flatMap_escapeQuote (text : List Char) :
    dropEscapes (text.flatMap escapeQuote) = text := by
  induction text with
  | nil => rfl
  | cons c text ih =>
    by_cases marked : c = '\\' ∨ c = '\''
    · rcases marked with rfl | rfl <;> simp [escapeQuote, dropEscapes, ih]
    · obtain ⟨slash, apostrophe⟩ := not_or.mp marked
      simp only [List.flatMap_cons, escapeQuote, slash, apostrophe, decide_false, Bool.or_self,
        Bool.false_eq_true, if_false, List.singleton_append]
      rw [dropEscapes, ih]
      exact fun other rest same => absurd same slash

end Stagecraft
