/-!
Texts as sequences of codes. Most codes are characters; a single half of a surrogate pair, which an
escape can name, is none. In a text such a half is written in three characters: a mark and two
digits out of 64 private characters. The mark and the digits are written likewise where they stand
for themselves. So every sequence of codes has a text of its own, and a text is found in another one
only where its codes stand.
-/

namespace Stagecraft

def isSurrogate (code : Nat) : Bool := 0xd800 ≤ code && code ≤ 0xdfff

def escapeMark : Char := Char.ofNat 0x10ffff

/-- The code of the first digit. -/
def escapeZero : Nat := 0x10ff00

def escapeDigit (n : Nat) : Char := Char.ofNat (escapeZero + n)

def isEscapeDigit (c : Char) : Bool := escapeZero ≤ c.toNat && c.toNat < escapeZero + 64

/-- The number of a code that is escaped: the halves come first, then the digits and the mark. -/
def escapeNumber? (code : Nat) : Option Nat :=
  if isSurrogate code then some (code - 0xd800)
  else if escapeZero ≤ code ∧ code < escapeZero + 64 then some (code - escapeZero + 0x800)
  else if code = 0x10ffff then some 0x840
  else none

def escapedCode (n : Nat) : Nat :=
  if n < 0x800 then n + 0xd800 else if n < 0x840 then n - 0x800 + escapeZero else 0x10ffff

/-- A code as it stands in a text. -/
def codeChars (code : Nat) : List Char :=
  match escapeNumber? code with
  | some n => [escapeMark, escapeDigit (n / 64), escapeDigit (n % 64)]
  | none => [Char.ofNat code]

/-- The codes of a text. -/
def codes : List Char → List Nat
  | c :: high :: low :: rest =>
    if c = escapeMark then
      escapedCode ((high.toNat - escapeZero) * 64 + (low.toNat - escapeZero)) :: codes rest
    else c.toNat :: codes (high :: low :: rest)
  | c :: rest => c.toNat :: codes rest
  | [] => []

/-- The number of codes: the digits of an escape belong to its mark. -/
def codeCount (text : List Char) : Nat := text.countP (!isEscapeDigit ·)

def ofCodes (all : List Nat) : String := String.ofList (all.flatMap codeChars)

/-- The pieces of a text that stand for one code each. -/
def letters (text : String) : List String := (codes text.toList).map fun code => ofCodes [code]

/-- The first codes of a text. -/
def takeCodes (count : Nat) (text : String) : String :=
  ofCodes ((codes text.toList).take count)

/-- Texts in the order of their codes. -/
def codesLe (a b : String) : Bool := !(codes b.toList).lex (codes a.toList) Nat.blt

/-- A string of characters as a text. -/
def ofCharacters (s : String) : String := ofCodes (s.toList.map Char.toNat)

/-- Whether a text holds no single half of a pair. -/
def isWhole (text : String) : Bool := !(codes text.toList).any isSurrogate

/-- The characters of a whole text. -/
def toCharacters (text : String) : String :=
  String.ofList ((codes text.toList).map Char.ofNat)

theorem codes_cons {first : Char} (plain : first ≠ escapeMark) (rest : List Char) :
    codes (first :: rest) = first.toNat :: codes rest := by
  match rest with
  | [] => rfl
  | [_] => rfl
  | _ :: _ :: _ => rw [codes, if_neg plain]

theorem toNat_ofNat_of_lt {n : Nat} (bound : n < 0x110000) (whole : isSurrogate n = false) :
    (Char.ofNat n).toNat = n := by
  have valid : n.isValidChar := by
    simp only [isSurrogate, Bool.and_eq_false_iff, decide_eq_false_iff_not] at whole
    simp only [Nat.isValidChar]
    omega
  rw [Char.ofNat, dif_pos valid]
  rfl

theorem toNat_escapeDigit {n : Nat} (bound : n < 64) :
    (escapeDigit n).toNat = escapeZero + n := by
  apply toNat_ofNat_of_lt
  · simp only [escapeZero]
    omega
  · have above : ¬ escapeZero + n ≤ 0xdfff := by
      simp only [escapeZero]
      omega
    simp [isSurrogate, above]

theorem escapeNumber?_lt {code n : Nat} (escaped : escapeNumber? code = some n) : n < 0x841 := by
  simp only [escapeNumber?, isSurrogate, Bool.and_eq_true, decide_eq_true_eq] at escaped
  split at escaped
  · simp only [Option.some.injEq] at escaped; omega
  · split at escaped
    · simp only [Option.some.injEq] at escaped; omega
    · split at escaped
      · simp only [Option.some.injEq] at escaped; omega
      · simp at escaped

theorem escapedCode_escapeNumber? {code n : Nat} (escaped : escapeNumber? code = some n) :
    escapedCode n = code := by
  simp only [escapeNumber?, isSurrogate, Bool.and_eq_true, decide_eq_true_eq] at escaped
  simp only [escapedCode]
  split at escaped
  · simp only [Option.some.injEq] at escaped; split <;> omega
  · split at escaped
    · simp only [Option.some.injEq] at escaped
      split
      · omega
      · split <;> omega
    · split at escaped
      · simp only [Option.some.injEq] at escaped
        subst escaped
        simp
        omega
      · simp at escaped

theorem isSurrogate_of_escapeNumber? {code : Nat} (plain : escapeNumber? code = none) :
    isSurrogate code = false := by
  simp only [escapeNumber?] at plain
  split at plain <;> simp_all

/-- What is written is read back, whatever follows it. -/
theorem codes_codeChars {code : Nat} (bound : code < 0x110000) (rest : List Char) :
    codes (codeChars code ++ rest) = code :: codes rest := by
  simp only [codeChars]
  split
  · next n escaped =>
    have small := escapeNumber?_lt escaped
    simp only [List.cons_append, List.nil_append, codes, if_true,
      toNat_escapeDigit (show n / 64 < 64 by omega), toNat_escapeDigit (Nat.mod_lt n (by decide)),
      Nat.add_sub_cancel_left]
    rw [Nat.div_add_mod' n 64, escapedCode_escapeNumber? escaped]
  · next plain =>
    have whole := isSurrogate_of_escapeNumber? plain
    have other : Char.ofNat code ≠ escapeMark := by
      intro same
      have marks := congrArg Char.toNat same
      rw [toNat_ofNat_of_lt bound whole] at marks
      simp only [escapeMark, show (Char.ofNat 0x10ffff).toNat = 0x10ffff from by decide] at marks
      subst marks
      simp [escapeNumber?, isSurrogate, escapeZero] at plain
    rcases rest with _ | ⟨first, _ | ⟨second, rest⟩⟩ <;>
      simp [codes, toNat_ofNat_of_lt bound whole, other]

theorem codeCount_codeChars {code : Nat} (bound : code < 0x110000) :
    codeCount (codeChars code) = 1 := by
  simp only [codeChars]
  split
  · next n escaped =>
    have small := escapeNumber?_lt escaped
    have mark : isEscapeDigit escapeMark = false := by decide
    have high : isEscapeDigit (escapeDigit (n / 64)) = true := by
      simp only [isEscapeDigit, toNat_escapeDigit (show n / 64 < 64 by omega)]
      simp
      omega
    have low : isEscapeDigit (escapeDigit (n % 64)) = true := by
      simp only [isEscapeDigit, toNat_escapeDigit (Nat.mod_lt n (show 0 < 64 by decide))]
      simp
      omega
    simp [codeCount, mark, high, low]
  · next plain =>
    have other : isEscapeDigit (Char.ofNat code) = false := by
      simp only [isEscapeDigit, toNat_ofNat_of_lt bound (isSurrogate_of_escapeNumber? plain)]
      simp only [escapeNumber?] at plain
      split at plain
      · simp at plain
      · split at plain
        · simp at plain
        · simp_all
    simp [codeCount, other]

/-- A text has as many codes as were written into it. -/
theorem codeCount_flatMap_codeChars {all : List Nat} (bound : ∀ code ∈ all, code < 0x110000) :
    codeCount (all.flatMap codeChars) = all.length := by
  induction all with
  | nil => rfl
  | cons code all ih =>
    have first := codeCount_codeChars (bound code (by simp))
    have others := ih fun other member => bound other (List.mem_cons_of_mem code member)
    simp only [codeCount] at first others ⊢
    rw [List.flatMap_cons, List.countP_append, first, others, List.length_cons, Nat.add_comm]

/-- Each sequence of codes is read back from its text. -/
theorem codes_flatMap_codeChars {all : List Nat} (bound : ∀ code ∈ all, code < 0x110000) :
    codes (all.flatMap codeChars) = all := by
  induction all with
  | nil => rfl
  | cons code all ih =>
    rw [List.flatMap_cons, codes_codeChars (bound code (by simp)),
      ih fun other member => bound other (List.mem_cons_of_mem code member)]

end Stagecraft
