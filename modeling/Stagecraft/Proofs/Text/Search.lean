import Mathlib.Data.List.TakeWhile
import Stagecraft.Text.Scan

/-!
Searches in a text. A search answers nothing just when its reader answers nothing at any place;
blanks in front of a text make no difference to a reader that needs something else to start with.
-/

namespace Stagecraft

section Search

variable {α : Type} {reader : Option Char → List Char → Option α} {before : Option Char}
  {text : List Char}

theorem getLast?_cons_or (c : Char) (front : List Char) :
    (c :: front).getLast?.or before = front.getLast?.or (some c) := by
  cases front with
  | nil => rfl
  | cons d front => simp [List.getLast?_cons]

theorem search_eq_none_iff :
    search reader before text = none ↔ ∀ front back, text = front ++ back →
      reader (front.getLast?.or before) back = none := by
  induction text generalizing before with
  | nil =>
    constructor
    · intro none front back split
      obtain ⟨rfl, rfl⟩ := List.append_eq_nil_iff.mp split.symm
      exact none
    · intro all
      exact all [] [] rfl
  | cons c rest ih =>
    rw [search]
    constructor
    · intro none front back split
      split at none
      · cases none
      · next here =>
        rcases List.cons_eq_append_iff.mp split with ⟨rfl, rfl⟩ | ⟨front, rfl, rfl⟩
        · exact here
        · rw [getLast?_cons_or]
          exact ih.mp none front back rfl
    · intro all
      have here : reader before (c :: rest) = none := all [] (c :: rest) rfl
      rw [here]
      apply ih.mpr
      rintro front back rfl
      rw [← getLast?_cons_or]
      exact all (c :: front) back rfl

theorem searchFor_of_head {reader : List Char → Option α} {answer : α}
    (found : reader text = some answer) : searchFor reader text = some answer := by
  cases text with
  | nil => exact found
  | cons c rest => rw [searchFor, search, found]

theorem searchFor_isSome {reader : List Char → Option α} (front : List Char)
    {back : List Char} (found : (reader back).isSome) :
    (searchFor reader (front ++ back)).isSome := by
  rw [← Option.ne_none_iff_isSome]
  intro none
  have missing := search_eq_none_iff.mp none front back rfl
  rw [missing] at found
  cases found

/-- A reader that fails at blanks, and for which a blank before a place is as good as none. -/
theorem search_blanks_append {blanks : List Char} (blank : ∀ c ∈ blanks, isBlank c)
    (fails : ∀ before c rest, isBlank c → reader before (c :: rest) = none)
    (skips : ∀ c rest, isBlank c → reader (some c) rest = reader none rest) :
    search reader none (blanks ++ text) = search reader none text := by
  have same (c : Char) (white : isBlank c) :
      search reader (some c) text = search reader none text := by
    cases text with
    | nil => exact skips c [] white
    | cons d rest => rw [search, search, skips c _ white]
  have after (before : Option Char) (neutral : search reader before text =
      search reader none text) : search reader before (blanks ++ text) =
        search reader none text := by
    induction blanks generalizing before with
    | nil => exact neutral
    | cons c blanks ih =>
      have white := blank c (by simp)
      rw [List.cons_append, search, fails before c _ white]
      exact ih (fun d member => blank d (by simp [member])) _ (same c white)
  exact after none rfl

theorem searchFor_blanks_append {reader : List Char → Option α} {blanks : List Char}
    (blank : ∀ c ∈ blanks, isBlank c) (fails : ∀ c rest, isBlank c → reader (c :: rest) = none) :
    searchFor reader (blanks ++ text) = searchFor reader text :=
  search_blanks_append blank (fun _ c rest white => fails c rest white) fun _ _ _ => rfl

end Search

theorem after?_head_ne {c d : Char} {lead text : List Char} (differs : c ≠ d) :
    after? (c :: lead) (d :: text) = none := by
  rw [after?, if_neg differs]

/-- What each code of a blank has, each blank has. -/
theorem of_isBlank {p : Char → Prop} (all : ∀ n ∈ blankCodes, p (Char.ofNat n)) {c : Char}
    (blank : isBlank c) : p c := by
  have member : c.toNat ∈ blankCodes := by simpa [isBlank] using blank
  simpa only [Char.ofNat_toNat] using all _ member

theorem isWord_eq_false_of_isBlank {c : Char} (blank : isBlank c) : isWord c = false :=
  of_isBlank (p := (isWord · = false)) (by decide +kernel) blank

theorem ne_of_isBlank {c d : Char} (blank : isBlank c) (ink : isBlank d = false) : c ≠ d := by
  rintro rfl
  rw [blank] at ink
  cases ink

theorem skipBlanks_append {blanks text : List Char} (blank : ∀ c ∈ blanks, isBlank c) :
    skipBlanks (blanks ++ text) = skipBlanks text := by
  rw [skipBlanks, List.dropWhile_append_of_pos blank]
  rfl

theorem dropEndBlanks_split (text : List Char) :
    ∃ gone, text = dropEndBlanks text ++ gone ∧ ∀ c ∈ gone, isBlank c := by
  refine ⟨(text.reverse.takeWhile isBlank).reverse, ?_, ?_⟩
  · rw [dropEndBlanks, ← List.reverse_append, List.takeWhile_append_dropWhile, List.reverse_reverse]
  · intro c member
    exact List.mem_takeWhile_imp (List.mem_reverse.mp member)

end Stagecraft
