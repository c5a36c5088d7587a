/-!
Blank characters: the white space and separator characters of Unicode, with the four
information separators. `strip` cuts them off both ends of a text and nothing else.
-/

namespace Stagecraft

/-- The blank characters, in order. A zero-width space and a byte order mark are not among them. -/
def blankCodes : List Nat :=
  [0x09, 0x0a, 0x0b, 0x0c, 0x0d, 0x1c, 0x1d, 0x1e, 0x1f, 0x20, 0x85, 0xa0, 0x1680,
   0x2000, 0x2001, 0x2002, 0x2003, 0x2004, 0x2005, 0x2006, 0x2007, 0x2008, 0x2009, 0x200a,
   0x2028, 0x2029, 0x202f, 0x205f, 0x3000]

def isBlank (c : Char) : Bool := blankCodes.contains c.toNat

theorem isBlank_of_isWhitespace (c : Char) (white : c.isWhitespace = true) : isBlank c = true := by
  simp only [Char.isWhitespace, Bool.or_eq_true, decide_eq_true_eq] at white
  rcases white with ((rfl | rfl) | rfl) | rfl <;> decide

/-- The text after its leading blanks. -/
def skipBlanks (text : List Char) : List Char := text.dropWhile isBlank

def dropEndBlanks (text : List Char) : List Char := (text.reverse.dropWhile isBlank).reverse

def stripBlanks (text : List Char) : List Char := dropEndBlanks (skipBlanks text)

def strip (text : String) : String := String.ofList (stripBlanks text.toList)

def stripStart (text : String) : String := String.ofList (skipBlanks text.toList)

def stripEnd (text : String) : String := String.ofList (dropEndBlanks text.toList)

/-- The leading blanks of a line. -/
def indentOf (line : String) : String := String.ofList (line.toList.takeWhile isBlank)

/-- True of the empty text and of one that holds only blanks. -/
def isBlankText (text : String) : Bool := text.toList.all isBlank

theorem takeWhile_append_skipBlanks (text : List Char) :
    text.takeWhile isBlank ++ skipBlanks text = text :=
  List.takeWhile_append_dropWhile

theorem skipBlanks_length_le (text : List Char) : (skipBlanks text).length ≤ text.length :=
  (List.dropWhile_suffix isBlank).length_le

end Stagecraft
