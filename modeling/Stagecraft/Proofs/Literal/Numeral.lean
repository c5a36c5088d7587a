import Stagecraft.Literal.Numeral
import Stagecraft.Proofs.Text.Search

/-!
Numerals in front of other text. A numeral does not go on behind a blank or a slash, so there it is
read as at the end of a text; and what is left behind a numeral decides nothing about it.
-/

namespace Stagecraft

variable {text more after left rest : List Char}

/-- The text ends, or goes on with a blank or with the slash of a comment. -/
def Halts (text : List Char) : Prop := ∀ c ∈ text.head?, isBlank c ∨ c = '/'

theorem Halts.stops (halts : Halts after) : ∀ c ∈ after.head?,
    isDecimalDigit c = false ∧ continuesName c = false ∧ c ∉ ['.', 'e', 'E', '+', '-'] := by
  intro c first
  rcases halts c first with blank | rfl
  · exact of_isBlank (p := fun c => isDecimalDigit c = false ∧ continuesName c = false ∧
      c ∉ ['.', 'e', 'E', '+', '-']) (by decide +kernel) blank
  · decide +kernel

section Spans

variable {test : Char → Bool}

theorem span_halt (text : List Char) (stops : ∀ c ∈ after.head?, test c = false) :
    (text ++ after).takeWhile test = text.takeWhile test ∧
      (text ++ after).dropWhile test = text.dropWhile test ++ after := by
  induction text with
  | nil =>
    cases after with
    | nil => exact ⟨rfl, rfl⟩
    | cons c after => simp [stops c rfl]
  | cons c text ih =>
    by_cases passed : test c
    · simpa only [List.cons_append, List.takeWhile_cons, List.dropWhile_cons, passed, if_true,
        List.cons.injEq, true_and] using ih
    · simp [passed]

/-- What is left has no part in where the span ends. -/
theorem span_cut (dropped : (text ++ rest).dropWhile test = left ++ rest) :
    text.takeWhile test = (text ++ rest).takeWhile test ∧ text.dropWhile test = left := by
  induction text with
  | nil =>
    have short := (List.dropWhile_suffix test (l := rest)).length_le
    rw [List.nil_append] at dropped
    rw [dropped, List.length_append] at short
    have empty : left = [] := List.length_eq_zero_iff.mp (by omega)
    subst empty
    have both := List.takeWhile_append_dropWhile (p := test) (l := rest)
    rw [dropped, List.nil_append, List.append_left_eq_self] at both
    exact ⟨both.symm, rfl⟩
  | cons c text ih =>
    by_cases passed : test c
    · rw [List.cons_append, List.dropWhile_cons_of_pos passed] at dropped
      obtain ⟨taken, behind⟩ := ih dropped
      rw [List.cons_append, List.takeWhile_cons_of_pos passed, List.takeWhile_cons_of_pos passed,
        List.dropWhile_cons_of_pos passed, taken]
      exact ⟨rfl, behind⟩
    · rw [List.cons_append, List.dropWhile_cons_of_neg passed, ← List.cons_append,
        List.append_cancel_right_eq] at dropped
      rw [List.cons_append, List.takeWhile_cons_of_neg passed, List.takeWhile_cons_of_neg passed,
        List.dropWhile_cons_of_neg passed]
      exact ⟨rfl, dropped⟩

/-- A line feed that is in the text ends the span there. -/
theorem span_append (test : Char → Bool) (more : List Char) (present : '\n' ∈ text)
    (stops : test '\n' = false) :
    (text ++ more).takeWhile test = text.takeWhile test ∧
      (text ++ more).dropWhile test = text.dropWhile test ++ more := by
  obtain ⟨front, back, rfl⟩ := List.append_of_mem present
  have ends (text : List Char) : ∀ c ∈ ('\n' :: text).head?, test c = false := by
    rintro _ ⟨⟩
    exact stops
  have short := span_halt front (ends back)
  have long := span_halt front (ends (back ++ more))
  rw [List.append_assoc, List.cons_append, short.1, short.2, long.1, long.2, List.append_assoc,
    List.cons_append]
  exact ⟨rfl, rfl⟩

end Spans

/-- A mark that numerals have in them leads what follows only where it led before. -/
theorem Halts.head?_append_ne {mark : Char} (halts : Halts after)
    (known : mark ∈ ['.', 'e', 'E', '+', '-']) (other : text.head? ≠ some mark) :
    (text ++ after).head? ≠ some mark := by
  cases text with
  | nil => exact fun first => (halts.stops mark first).2.2 known
  | cons c text => exact other

namespace Numeral

section Digits

variable {digits : List Char}

theorem takeDigits_halt (halts : Halts after) (taken : takeDigits text = (digits, rest)) :
    takeDigits (text ++ after) = (digits, rest ++ after) := by
  obtain ⟨rfl, rfl⟩ := Prod.mk.inj taken
  obtain ⟨same, behind⟩ := span_halt text fun c first => (halts.stops c first).1
  rw [takeDigits, same, behind]

theorem takeDigits_cut (taken : takeDigits (text ++ rest) = (digits, left ++ rest)) :
    takeDigits text = (digits, left) := by
  obtain ⟨rfl, dropped⟩ := Prod.mk.inj taken
  obtain ⟨same, behind⟩ := span_cut dropped
  rw [takeDigits, same, behind]

theorem takeDigits_cut_nil (taken : takeDigits (text ++ rest) = ([], left)) :
    takeDigits text = ([], text) := by
  cases text with
  | nil => rfl
  | cons c text =>
    have plain : ¬ isDecimalDigit c := by
      intro digit
      rw [takeDigits, List.cons_append, List.takeWhile_cons_of_pos digit] at taken
      cases taken
    rw [takeDigits, List.takeWhile_cons_of_neg plain, List.dropWhile_cons_of_neg plain]

theorem takeDigits_suffix (taken : takeDigits text = (digits, rest)) : rest <:+ text := by
  rw [← (Prod.mk.inj taken).2]
  exact List.dropWhile_suffix isDecimalDigit

end Digits

section Mantissa

variable {whole behind : List Char} {fraction : Option (List Char)}

theorem mantissa?_of_point (taken : takeDigits text = (whole, '.' :: behind)) :
    mantissa? text = if whole = [] ∧ (takeDigits behind).1 = [] then none
      else some (whole, some (takeDigits behind).1, (takeDigits behind).2) := by
  rw [mantissa?, taken]
  cases whole with
  | nil =>
    simp only
    cases takeDigits behind with
    | mk places rest => cases places <;> simp
  | cons c whole => simp

theorem mantissa?_of_plain (taken : takeDigits text = (whole, behind))
    (plain : behind.head? ≠ some '.') :
    mantissa? text = if whole = [] then none else some (whole, none, behind) := by
  rw [mantissa?, taken]
  cases behind with
  | nil => cases whole <;> rfl
  | cons c behind =>
    have other : c ≠ '.' := fun same => plain (by rw [same]; rfl)
    cases whole <;> simp [other]

theorem mantissa?_halt (halts : Halts after) :
    mantissa? (text ++ after) =
      (mantissa? text).map fun (whole, fraction, rest) => (whole, fraction, rest ++ after) := by
  cases taken : takeDigits text with
  | mk whole behind =>
    have taken' := takeDigits_halt halts taken
    by_cases point : behind.head? = some '.'
    · obtain ⟨more, rfl⟩ := List.head?_eq_some_iff.mp point
      cases places : takeDigits more with
      | mk digits last =>
        rw [List.cons_append] at taken'
        rw [mantissa?_of_point taken, mantissa?_of_point taken', places,
          takeDigits_halt halts places]
        split <;> rfl
    · rw [mantissa?_of_plain taken point,
        mantissa?_of_plain taken' (halts.head?_append_ne (by decide) point)]
      split <;> rfl

theorem mantissa?_cut (read : mantissa? (text ++ rest) = some (whole, fraction, left ++ rest)) :
    mantissa? text = some (whole, fraction, left) := by
  cases taken : takeDigits (text ++ rest) with
  | mk digits behind =>
    by_cases point : behind.head? = some '.'
    · obtain ⟨more, rfl⟩ := List.head?_eq_some_iff.mp point
      rw [mantissa?_of_point taken, Option.ite_none_left_eq_some, Option.some.injEq,
        Prod.mk.injEq, Prod.mk.injEq] at read
      obtain ⟨filled, rfl, rfl, last⟩ := read
      have inner : left ++ rest <:+ more := last ▸ List.dropWhile_suffix isDecimalDigit
      obtain ⟨front, rfl⟩ := (List.suffix_append left rest).trans inner
      have places : takeDigits (front ++ rest) =
          ((takeDigits (front ++ rest)).1, left ++ rest) := by rw [← last]
      have taken' : takeDigits text = (digits, '.' :: front) := takeDigits_cut taken
      rw [mantissa?_of_point taken', takeDigits_cut places, if_neg filled]
    · rw [mantissa?_of_plain taken point, Option.ite_none_left_eq_some, Option.some.injEq,
        Prod.mk.injEq, Prod.mk.injEq] at read
      obtain ⟨filled, rfl, rfl, rfl⟩ := read
      have plain : left.head? ≠ some '.' := by
        intro first
        rw [List.head?_append, first, Option.some_or] at point
        exact point rfl
      rw [mantissa?_of_plain (takeDigits_cut taken) plain, if_neg filled]

theorem mantissa?_suffix (read : mantissa? text = some (whole, fraction, rest)) :
    rest <:+ text := by
  cases taken : takeDigits text with
  | mk digits behind =>
    have later := takeDigits_suffix taken
    by_cases point : behind.head? = some '.'
    · obtain ⟨more, rfl⟩ := List.head?_eq_some_iff.mp point
      rw [mantissa?_of_point taken, Option.ite_none_left_eq_some] at read
      cases read.2
      exact ((List.dropWhile_suffix _).trans (List.suffix_cons _ _)).trans later
    · rw [mantissa?_of_plain taken point, Option.ite_none_left_eq_some] at read
      cases read.2
      exact later

end Mantissa

section Exponent

variable {mark : Char} {exponent : Int} {digits : List Char}

/-- Whether a minus stands in front, and what follows a sign. -/
def signOf (text : List Char) : Bool × List Char :=
  match text with
  | '-' :: rest => (true, rest)
  | '+' :: rest => (false, rest)
  | rest => (false, rest)

theorem exponent?_of_power (power : mark = 'e' ∨ mark = 'E')
    (taken : takeDigits (signOf text).2 = (digits, rest)) :
    exponent? (mark :: text) = if digits = [] then none
      else some (if (signOf text).1 then -(ofDigits digits : Int) else ofDigits digits, rest) := by
  unfold exponent?
  refine (if_pos power).trans ?_
  split
  next negative unsigned signs =>
    have signed : signOf text = (negative, unsigned) := signs
    rw [signed] at taken ⊢
    rw [taken]
    cases digits <;> rfl

theorem exponent?_of_other (other : ¬ (mark = 'e' ∨ mark = 'E')) :
    exponent? (mark :: text) = none := by
  unfold exponent?
  exact if_neg other

theorem signOf_cons (sign : Char) (text more : List Char) :
    signOf (sign :: text ++ more) =
      ((signOf (sign :: text)).1, (signOf (sign :: text)).2 ++ more) := by
  by_cases minus : sign = '-'
  · subst minus
    rfl
  · by_cases plus : sign = '+'
    · subst plus
      rfl
    · simp [signOf, minus, plus]

theorem signOf_halt (text : List Char) (halts : Halts after) :
    signOf (text ++ after) = ((signOf text).1, (signOf text).2 ++ after) := by
  cases text with
  | cons sign text => exact signOf_cons sign text after
  | nil =>
    cases after with
    | nil => rfl
    | cons c after =>
      obtain ⟨-, -, other⟩ := halts.stops c rfl
      simp only [List.mem_cons, not_or] at other
      simp [signOf, other]

theorem exponent?_halt (halts : Halts after) :
    exponent? (text ++ after) =
      (exponent? text).map fun (exponent, rest) => (exponent, rest ++ after) := by
  cases text with
  | nil =>
    cases after with
    | nil => rfl
    | cons c after =>
      obtain ⟨-, -, other⟩ := halts.stops c rfl
      simp only [List.mem_cons, not_or] at other
      exact exponent?_of_other (by simp [other])
  | cons mark text =>
    rw [List.cons_append]
    by_cases power : mark = 'e' ∨ mark = 'E'
    · cases taken : takeDigits (signOf text).2 with
      | mk digits rest =>
        have signed := signOf_halt text halts
        have taken' : takeDigits (signOf (text ++ after)).2 = (digits, rest ++ after) := by
          rw [signed, takeDigits_halt halts taken]
        rw [exponent?_of_power power taken, exponent?_of_power power taken', signed]
        split <;> rfl
    · rw [exponent?_of_other power, exponent?_of_other power]
      rfl

theorem exponent?_eq_some_iff :
    exponent? (mark :: text) = some (exponent, rest) ↔
      (mark = 'e' ∨ mark = 'E') ∧ ∃ digits, digits ≠ [] ∧
        takeDigits (signOf text).2 = (digits, rest) ∧
        exponent = if (signOf text).1 then -(ofDigits digits : Int) else ofDigits digits := by
  by_cases power : mark = 'e' ∨ mark = 'E'
  · cases taken : takeDigits (signOf text).2 with
    | mk digits behind =>
      rw [exponent?_of_power power taken, Option.ite_none_left_eq_some]
      simp only [power, true_and, Option.some.injEq, Prod.mk.injEq]
      constructor
      · rintro ⟨filled, rfl, rfl⟩
        exact ⟨digits, filled, ⟨rfl, rfl⟩, rfl⟩
      · rintro ⟨_, filled, ⟨rfl, rfl⟩, rfl⟩
        exact ⟨filled, rfl, rfl⟩
  · rw [exponent?_of_other power]
    simp [power]

theorem signOf_suffix (text : List Char) : (signOf text).2 <:+ text := by
  unfold signOf
  split
  · exact List.suffix_cons _ _
  · exact List.suffix_cons _ _
  · exact List.suffix_rfl

/-- An exponent has a digit behind its mark. -/
theorem exponent?_length_lt (read : exponent? (mark :: text) = some (exponent, rest)) :
    rest.length < text.length := by
  obtain ⟨-, digits, filled, taken, -⟩ := exponent?_eq_some_iff.mp read
  exact Nat.lt_of_lt_of_le (takeDigits_length_lt filled taken) (signOf_suffix text).length_le

theorem exponent?_suffix (read : exponent? text = some (exponent, rest)) : rest <:+ text := by
  cases text with
  | nil => cases read
  | cons mark text =>
    obtain ⟨-, digits, -, taken, -⟩ := exponent?_eq_some_iff.mp read
    exact ((takeDigits_suffix taken).trans (signOf_suffix text)).trans (List.suffix_cons _ _)

theorem exponent?_cut (read : exponent? (text ++ rest) = some (exponent, left ++ rest)) :
    exponent? text = some (exponent, left) := by
  cases text with
  | nil =>
    cases rest with
    | nil => cases read
    | cons mark more =>
      have short := exponent?_length_lt read
      simp only [List.length_append, List.length_cons] at short
      omega
  | cons mark text =>
    cases text with
    | nil =>
      have short : (left ++ rest).length < rest.length := exponent?_length_lt read
      rw [List.length_append] at short
      omega
    | cons sign text =>
      rw [List.cons_append, exponent?_eq_some_iff, signOf_cons] at read
      obtain ⟨power, digits, filled, taken, rfl⟩ := read
      exact exponent?_eq_some_iff.mpr ⟨power, digits, filled, takeDigits_cut taken, rfl⟩

theorem exponent?_cut_none (missing : exponent? (text ++ rest) = none) : exponent? text = none := by
  cases text with
  | nil => rfl
  | cons mark text =>
    by_cases power : mark = 'e' ∨ mark = 'E'
    · cases text with
      | nil => exact (exponent?_of_power power rfl).trans (if_pos rfl)
      | cons sign text =>
        cases taken : takeDigits (signOf (sign :: text ++ rest)).2 with
        | mk digits behind =>
          rw [List.cons_append, exponent?_of_power power taken] at missing
          have empty : digits = [] := by
            by_contra filled
            rw [if_neg filled] at missing
            cases missing
          subst empty
          rw [signOf_cons] at taken
          rw [exponent?_of_power power (takeDigits_cut_nil taken), if_pos rfl]
    · exact exponent?_of_other power

end Exponent

section Whole

variable {numeral : Numeral}

/-- A numeral whose sign has been read. -/
def unsigned? (negative : Bool) (text : List Char) : Option (Numeral × List Char) :=
  match mantissa? text with
  | none => none
  | some (whole, fraction, rest) =>
    match exponent? rest with
    | none => some (⟨negative, whole, fraction, none⟩, rest)
    | some (exponent, rest) => some (⟨negative, whole, fraction, some exponent⟩, rest)

theorem read?_of_unsigned {sign : Char} (unsigned : sign ≠ '-') :
    read? (sign :: text) = unsigned? false (sign :: text) := by
  unfold read?
  split
  next parts =>
    split at parts
    · next same => exact absurd (List.cons.inj same).1 unsigned
    · cases parts
      rfl

theorem read?_of_head {c : Char} (plain : isDecimalDigit c = false) (sign : c ≠ '-')
    (point : c ≠ '.') : read? (c :: rest) = none := by
  simp [read?, mantissa?, takeDigits, plain, sign, point]

variable {negative : Bool}

theorem unsigned?_halt (halts : Halts after) :
    unsigned? negative (text ++ after) =
      (unsigned? negative text).map fun (n, rest) => (n, rest ++ after) := by
  rw [unsigned?, unsigned?, mantissa?_halt halts]
  cases mantissa? text with
  | none => rfl
  | some parts =>
    obtain ⟨whole, fraction, rest⟩ := parts
    simp only [Option.map_some, exponent?_halt halts]
    cases exponent? rest <;> rfl

theorem unsigned?_cut (read : unsigned? negative (text ++ rest) = some (numeral, left ++ rest)) :
    unsigned? negative text = some (numeral, left) := by
  rw [unsigned?] at read
  split at read
  · cases read
  · next whole fraction behind found =>
    split at read
    · next missing =>
      cases read
      have missing' := exponent?_cut_none missing
      rw [unsigned?, mantissa?_cut found]
      simp only [missing']
    · next exponent last power =>
      cases read
      obtain ⟨front, rfl⟩ := (List.suffix_append left rest).trans (exponent?_suffix power)
      rw [unsigned?, mantissa?_cut found]
      simp only [exponent?_cut power]

theorem unsigned?_suffix (read : unsigned? negative text = some (numeral, rest)) :
    rest <:+ text := by
  rw [unsigned?] at read
  split at read
  · cases read
  · next found =>
    split at read
    · cases read
      exact mantissa?_suffix found
    · next power =>
      cases read
      exact (exponent?_suffix power).trans (mantissa?_suffix found)

theorem read?_suffix (read : read? text = some (numeral, rest)) : rest <:+ text := by
  cases text with
  | nil => cases read
  | cons sign text =>
    by_cases minus : sign = '-'
    · subst minus
      have inner : unsigned? true text = some (numeral, rest) := read
      exact (unsigned?_suffix inner).trans (List.suffix_cons _ _)
    · rw [read?_of_unsigned minus] at read
      exact unsigned?_suffix read

theorem read?_halt (halts : Halts after) :
    read? (text ++ after) = (read? text).map fun (n, rest) => (n, rest ++ after) := by
  cases text with
  | nil =>
    cases after with
    | nil => rfl
    | cons c after =>
      obtain ⟨plain, -, other⟩ := halts.stops c rfl
      simp only [List.mem_cons, not_or] at other
      exact read?_of_head plain other.2.2.2.2.1 other.1
  | cons sign text =>
    by_cases minus : sign = '-'
    · subst minus
      exact unsigned?_halt halts
    · rw [read?_of_unsigned minus, List.cons_append, read?_of_unsigned minus, ← List.cons_append]
      exact unsigned?_halt halts

theorem read?_append (more : List Char) (present : '\n' ∈ text) :
    read? (text ++ more) = (read? text).map fun (n, rest) => (n, rest ++ more) := by
  obtain ⟨front, back, rfl⟩ := List.append_of_mem present
  have feed (text : List Char) : Halts ('\n' :: text) := by
    rintro _ ⟨⟩
    exact .inl (by decide)
  rw [List.append_assoc, List.cons_append, read?_halt (feed _), read?_halt (feed _), Option.map_map]
  simp only [Function.comp_def, List.append_assoc, List.cons_append]

/-- What is left decides nothing about the numeral before it. -/
theorem read?_cut (read : read? (text ++ rest) = some (numeral, left ++ rest)) :
    read? text = some (numeral, left) := by
  cases text with
  | nil =>
    have short := read?_length read
    simp only [List.nil_append, List.length_append] at short
    omega
  | cons sign text =>
    by_cases minus : sign = '-'
    · subst minus
      exact unsigned?_cut read
    · rw [List.cons_append, read?_of_unsigned minus, ← List.cons_append] at read
      rw [read?_of_unsigned minus]
      exact unsigned?_cut read

end Whole

end Numeral
end Stagecraft
