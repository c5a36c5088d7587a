import Stagecraft.Text.Blank
import Stagecraft.Text.Code
import Stagecraft.Text.Word

/-!
Scanning a text from the left: what follows a given beginning, the first place where something
holds, how often a piece occurs, and cutting at a separator.
-/

namespace Stagecraft

/-- What follows `lead` at the start of the text. -/
def after? : List Char → List Char → Option (List Char)
  | [], text => some text
  | _ :: _, [] => none
  | c :: lead, d :: text => if c = d then after? lead text else none

theorem after?_append (lead rest : List Char) : after? lead (lead ++ rest) = some rest := by
  induction lead with
  | nil => rfl
  | cons c lead ih => simp [after?, ih]

theorem eq_append_of_after? {lead text rest : List Char} (found : after? lead text = some rest) :
    text = lead ++ rest := by
  induction lead generalizing text with
  | nil => simpa [after?] using found
  | cons c lead ih =>
    cases text with
    | nil => simp [after?] at found
    | cons d text =>
      by_cases same : c = d
      · subst same
        simp only [after?, if_true] at found
        rw [ih found, List.cons_append]
      · simp [after?, same] at found

/-- `after?` for a word written out in the program. -/
def afterWord? (lead : String) (text : List Char) : Option (List Char) := after? lead.toList text

/-- The first answer at a place of the text, from the left; the reader sees the character before
the place and all that follows it. -/
def search {α : Type} (reader : Option Char → List Char → Option α) :
    Option Char → List Char → Option α
  | before, [] => reader before []
  | before, c :: rest =>
    match reader before (c :: rest) with
    | some found => some found
    | none => search reader (some c) rest

/-- The first answer of a reader that does not look back. -/
def searchFor {α : Type} (reader : List Char → Option α) (text : List Char) : Option α :=
  search (fun _ => reader) none text

def isQuote (c : Char) : Bool := c == '\'' || c == '"'

/-- A name between quotes, and the marks on its two sides. -/
structure QuotedName where
  opening : Char
  name : List Char
  closing : Char
  deriving DecidableEq, Repr

/-- Reads a quote, one or more characters that are none, and a quote. -/
def quotedName? : List Char → Option (QuotedName × List Char)
  | [] => none
  | opening :: text =>
    match isQuote opening, text.takeWhile (!isQuote ·), text.dropWhile (!isQuote ·) with
    | true, c :: name, closing :: rest => some (⟨opening, c :: name, closing⟩, rest)
    | _, _, _ => none

/-- The same with the same mark on both sides. -/
def matchedName? (text : List Char) : Option (String × List Char) :=
  match quotedName? text with
  | some (found, rest) =>
    if found.opening = found.closing then some (String.ofList found.name, rest) else none
  | none => none

theorem quotedName?_length {text rest : List Char} {found : QuotedName}
    (read : quotedName? text = some (found, rest)) : rest.length < text.length := by
  cases text with
  | nil => simp [quotedName?] at read
  | cons opening text =>
    simp only [quotedName?] at read
    split at read
    · next kept =>
      obtain ⟨-, rfl⟩ := Prod.mk.inj (Option.some.inj read)
      have bound := (List.dropWhile_suffix (!isQuote ·) (l := text)).length_le
      rw [kept] at bound
      simp only [List.length_cons] at bound ⊢
      omega
    · simp at read

/-- How often a piece occurs without overlap, from the left; `skip` characters belong to the last
occurrence. -/
def occurrencesFrom (piece : List Char) : Nat → List Char → Nat
  | _, [] => 0
  | skip + 1, _ :: rest => occurrencesFrom piece skip rest
  | 0, c :: rest =>
    if piece.isPrefixOf (c :: rest) then 1 + occurrencesFrom piece (piece.length - 1) rest
    else occurrencesFrom piece 0 rest

/-- The empty piece is found before every code and at the end. -/
def occurrences (piece text : List Char) : Nat :=
  if piece = [] then codeCount text + 1 else occurrencesFrom piece 0 text

theorem occurrences_singleton (c : Char) (text : List Char) :
    occurrences [c] text = text.count c := by
  simp only [occurrences, List.cons_ne_nil, if_false]
  induction text with
  | nil => rfl
  | cons d rest ih =>
    by_cases same : c = d
    · subst same
      simp [occurrencesFrom, List.isPrefixOf, ih, Nat.add_comm]
    · have other : ¬ d = c := fun h => same h.symm
      simp [occurrencesFrom, List.isPrefixOf, ih, same, other]

/-- Puts a character in front of the first part. -/
def intoFirst (c : Char) : List (List Char) → List (List Char)
  | [] => [[c]]
  | first :: others => (c :: first) :: others

/-- The parts between the occurrences of a separator. -/
def cutFrom (separator : List Char) : Nat → List Char → List (List Char)
  | _, [] => [[]]
  | skip + 1, _ :: rest => cutFrom separator skip rest
  | 0, c :: rest =>
    if separator.isPrefixOf (c :: rest) then [] :: cutFrom separator (separator.length - 1) rest
    else intoFirst c (cutFrom separator 0 rest)

def cut (separator text : String) : List String :=
  (cutFrom separator.toList 0 text.toList).map String.ofList

/-- The pieces between line feeds; a text always has at least one. -/
def lineChars : List Char → List (List Char)
  | [] => [[]]
  | c :: rest => if c = '\n' then [] :: lineChars rest else intoFirst c (lineChars rest)

def linesOf (text : String) : List String := (lineChars text.toList).map String.ofList

def join (separator : String) (parts : List String) : String := separator.intercalate parts

/-- Carriage returns, alone or before a line feed, become line feeds. -/
def unifyNewlines : List Char → List Char
  | [] => []
  | '\r' :: '\n' :: rest => '\n' :: unifyNewlines rest
  | c :: rest => (if c = '\r' then '\n' else c) :: unifyNewlines rest

def unifiedNewlines (text : String) : String := String.ofList (unifyNewlines text.toList)

/-- Puts `replacement` in the place of every occurrence of a character. -/
def replaceChar (c : Char) (replacement : String) (text : String) : String :=
  String.ofList (text.toList.flatMap fun d => if d = c then replacement.toList else [d])

def startsWith (text lead : String) : Bool := lead.toList.isPrefixOf text.toList

def endsWith (text tail : String) : Bool := tail.toList.isSuffixOf text.toList

def holds (text piece : String) : Bool :=
  (searchFor (fun rest => after? piece.toList rest) text.toList).isSome

end Stagecraft
