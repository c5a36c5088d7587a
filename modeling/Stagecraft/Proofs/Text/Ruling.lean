import Mathlib.Data.List.Basic
import Stagecraft.Text.Scan

/-!
The lines of a text with the ends they have in it. Reading a text with one kind of line end leaves
the characters of every line, and of the ends only line feeds.
-/

namespace Stagecraft

/-- How a line ends: by a line feed, a carriage return, both, or with the text. -/
inductive LineEnd where
  | feed
  | carriage
  | both
  | text
  deriving DecidableEq, Repr

def LineEnd.chars : LineEnd → List Char
  | feed => ['\n']
  | carriage => ['\r']
  | both => ['\r', '\n']
  | text => []

structure RuledLine where
  chars : List Char
  ending : LineEnd
  deriving DecidableEq, Repr

namespace RuledLine

def text (line : RuledLine) : String := String.ofList line.chars

/-- Puts a character in front of the first line. -/
def into (c : Char) : List RuledLine → List RuledLine
  | [] => []
  | line :: rest => { line with chars := c :: line.chars } :: rest

end RuledLine

/-- The lines of a text; the last one ends with it. -/
def ruledFrom : List Char → List RuledLine
  | [] => [⟨[], .text⟩]
  | '\r' :: '\n' :: rest => ⟨[], .both⟩ :: ruledFrom rest
  | c :: rest =>
    if c = '\n' then ⟨[], .feed⟩ :: ruledFrom rest
    else if c = '\r' then ⟨[], .carriage⟩ :: ruledFrom rest
    else RuledLine.into c (ruledFrom rest)

def ruled (text : String) : List RuledLine := ruledFrom text.toList

section Ruled

variable {text : List Char}

theorem ruledFrom_ne_nil (text : List Char) : ruledFrom text ≠ [] := by
  fun_induction ruledFrom text with
  | case5 c rest _ _ _ ih =>
    obtain ⟨line, others, split⟩ := List.exists_cons_of_ne_nil ih
    rw [split]
    exact List.cons_ne_nil _ _
  | _ => exact List.cons_ne_nil _ _

/-- The lines with their ends make up the text. -/
theorem ruledFrom_chars (text : List Char) :
    (ruledFrom text).flatMap (fun line => line.chars ++ line.ending.chars) = text := by
  fun_induction ruledFrom text with
  | case1 => rfl
  | case2 rest ih =>
    rw [List.flatMap_cons, ih]
    rfl
  | case3 rest _ ih =>
    rw [List.flatMap_cons, ih]
    rfl
  | case4 rest _ _ ih =>
    rw [List.flatMap_cons, ih]
    rfl
  | case5 c rest _ _ _ ih =>
    obtain ⟨line, others, split⟩ := List.exists_cons_of_ne_nil (ruledFrom_ne_nil rest)
    rw [split, List.flatMap_cons] at ih
    rw [split, RuledLine.into, List.flatMap_cons, List.cons_append, List.cons_append, ih]

/-- The characters of the lines are those that are read. -/
theorem ruledFrom_lineChars (text : List Char) :
    (ruledFrom text).map RuledLine.chars = lineChars (unifyNewlines text) := by
  fun_induction ruledFrom text with
  | case1 => rfl
  | case2 rest ih =>
    rw [List.map_cons, ih, unifyNewlines, lineChars, if_pos rfl]
  | case3 rest _ ih =>
    rw [List.map_cons, ih]
    rfl
  | case4 rest other _ ih =>
    rw [List.map_cons, ih, unifyNewlines.eq_3 _ _ other, if_pos rfl, lineChars, if_pos rfl]
  | case5 c rest other feed carriage ih =>
    rw [unifyNewlines.eq_3 _ _ other, if_neg carriage, lineChars, if_neg feed, ← ih]
    obtain ⟨line, others, split⟩ := List.exists_cons_of_ne_nil (ruledFrom_ne_nil rest)
    rw [split]
    rfl

/-- Only the last line ends with the text. -/
theorem ruledFrom_ends (text : List Char) :
    ∃ above last, ruledFrom text = above ++ [last] ∧ last.ending = .text ∧
      ∀ line ∈ above, line.ending ≠ .text := by
  have below {first : RuledLine} {rest : List RuledLine} (ended : first.ending ≠ .text)
      (ih : ∃ above last, rest = above ++ [last] ∧ last.ending = .text ∧
        ∀ line ∈ above, line.ending ≠ .text) :
      ∃ above last, first :: rest = above ++ [last] ∧ last.ending = .text ∧
        ∀ line ∈ above, line.ending ≠ .text := by
    obtain ⟨above, last, rfl, ends, others⟩ := ih
    refine ⟨first :: above, last, rfl, ends, ?_⟩
    intro line member
    rcases List.mem_cons.mp member with rfl | later
    · exact ended
    · exact others line later
  fun_induction ruledFrom text with
  | case1 => exact ⟨[], _, rfl, rfl, fun _ absent => absurd absent List.not_mem_nil⟩
  | case2 rest ih => exact below (by decide) ih
  | case3 rest _ ih => exact below (by decide) ih
  | case4 rest _ _ ih => exact below (by decide) ih
  | case5 c rest _ _ _ ih =>
    obtain ⟨above, last, split, ends, others⟩ := ih
    rw [split]
    cases above with
    | nil => exact ⟨[], _, rfl, ends, fun _ absent => absurd absent List.not_mem_nil⟩
    | cons first above =>
      refine ⟨{ first with chars := c :: first.chars } :: above, last, rfl, ends, ?_⟩
      intro line member
      rcases List.mem_cons.mp member with rfl | later
      · exact others first (List.mem_cons_self ..)
      · exact others line (List.mem_cons_of_mem _ later)

/-- A line holds neither a line feed nor a carriage return. -/
theorem plain_of_mem_ruledFrom (text : List Char) :
    ∀ line ∈ ruledFrom text, ∀ c ∈ line.chars, c ≠ '\n' ∧ c ≠ '\r' := by
  have below {first : RuledLine} {rest : List RuledLine}
      (plain : ∀ c ∈ first.chars, c ≠ '\n' ∧ c ≠ '\r')
      (ih : ∀ line ∈ rest, ∀ c ∈ line.chars, c ≠ '\n' ∧ c ≠ '\r') :
      ∀ line ∈ first :: rest, ∀ c ∈ line.chars, c ≠ '\n' ∧ c ≠ '\r' := by
    intro line member
    rcases List.mem_cons.mp member with rfl | later
    · exact plain
    · exact ih line later
  fun_induction ruledFrom text with
  | case1 => exact below (by simp) (by simp)
  | case2 rest ih => exact below (by simp) ih
  | case3 rest _ ih => exact below (by simp) ih
  | case4 rest _ _ ih => exact below (by simp) ih
  | case5 c rest _ feed carriage ih =>
    obtain ⟨first, others, split⟩ := List.exists_cons_of_ne_nil (ruledFrom_ne_nil rest)
    rw [split] at ih ⊢
    apply below _ fun line later => ih line (List.mem_cons_of_mem _ later)
    intro other member
    rcases List.mem_cons.mp member with rfl | later
    · exact ⟨feed, carriage⟩
    · exact ih first (List.mem_cons_self ..) other later

/-- All lines but the last end with line feeds just where the text holds no carriage return. -/
theorem ends_feed_iff (text : String) :
    (∀ line ∈ (ruled text).dropLast, line.ending = .feed) ↔ '\r' ∉ text.toList := by
  obtain ⟨above, last, split, ends, ended⟩ := ruledFrom_ends text.toList
  have whole := ruledFrom_chars text.toList
  have free := plain_of_mem_ruledFrom text.toList
  rw [split] at whole free
  rw [ruled, split, List.dropLast_concat, ← whole]
  constructor
  · intro fed present
    obtain ⟨line, member, here⟩ := List.mem_flatMap.mp present
    rcases List.mem_append.mp here with inside | final
    · exact (free line member _ inside).2 rfl
    · rcases List.mem_append.mp member with upper | lowest
      · rw [fed line upper] at final
        exact absurd final (by decide)
      · rw [List.mem_singleton.mp lowest, ends] at final
        cases final
  · intro none line member
    have absent : '\r' ∉ line.ending.chars := by
      intro final
      apply none
      exact List.mem_flatMap.mpr ⟨line, List.mem_append_left _ member,
        List.mem_append_right _ final⟩
    cases ending : line.ending with
    | feed => rfl
    | text => exact absurd ending (ended line member)
    | carriage =>
      rw [ending] at absent
      exact absurd (List.mem_cons_self ..) absent
    | both =>
      rw [ending] at absent
      exact absurd (List.mem_cons_self ..) absent

end Ruled

section Behind

variable {chars text : List Char}

/-- A line is read up to its line feed. -/
theorem ruledFrom_fed (plain : ∀ c ∈ chars, c ≠ '\n' ∧ c ≠ '\r') :
    ruledFrom (chars ++ '\n' :: text) = ⟨chars, .feed⟩ :: ruledFrom text := by
  induction chars with
  | nil => rw [List.nil_append, ruledFrom.eq_3 _ _ (by simp), if_pos rfl]
  | cons c chars ih =>
    obtain ⟨feed, carriage⟩ := plain c (List.mem_cons_self ..)
    rw [List.cons_append, ruledFrom.eq_3 _ _ (fun _ same _ => carriage same), if_neg feed,
      if_neg carriage, ih fun other member => plain other (List.mem_cons_of_mem _ member)]
    rfl

/-- What stands behind a line feed is read as it is read alone. -/
theorem ruledFrom_behind (front text : List Char) :
    ∃ line above, ruledFrom (front ++ '\n' :: text) = line :: (above ++ ruledFrom text) := by
  fun_induction ruledFrom front with
  | case1 => exact ⟨_, [], ruledFrom_fed (by simp)⟩
  | case2 rest ih =>
    obtain ⟨line, above, read⟩ := ih
    refine ⟨⟨[], .both⟩, line :: above, ?_⟩
    rw [List.cons_append, List.cons_append, ruledFrom, read]
    rfl
  | case3 rest other ih =>
    obtain ⟨line, above, read⟩ := ih
    refine ⟨⟨[], .feed⟩, line :: above, ?_⟩
    rw [List.cons_append, ruledFrom.eq_3 _ _ (by simp), if_pos rfl, read]
    rfl
  | case4 rest other _ ih =>
    cases rest with
    | nil => exact ⟨⟨[], .both⟩, [], rfl⟩
    | cons next rest =>
      obtain ⟨line, above, read⟩ := ih
      refine ⟨⟨[], .carriage⟩, line :: above, ?_⟩
      rw [List.cons_append, ruledFrom.eq_3, if_neg (by decide), if_pos rfl, read]
      · rfl
      · intro later _ same
        exact other rest rfl (by rw [List.cons_append, List.cons.injEq] at same; rw [same.1])
  | case5 c rest other feed carriage ih =>
    obtain ⟨line, above, read⟩ := ih
    refine ⟨{ line with chars := c :: line.chars }, above, ?_⟩
    rw [List.cons_append, ruledFrom.eq_3 _ _ (fun _ same _ => carriage same), if_neg feed,
      if_neg carriage, read]
    rfl

end Behind

/-- The lines with their ends make up the text. -/
theorem ruled_text (text : String) :
    String.ofList ((ruled text).flatMap fun line => line.chars ++ line.ending.chars) = text := by
  rw [ruled, ruledFrom_chars, String.ofList_toList]

/-- A text read with one kind of line end has the lines it had. -/
theorem linesOf_unified (text : String) :
    linesOf (unifiedNewlines text) = (ruled text).map RuledLine.text := by
  rw [linesOf, unifiedNewlines, String.toList_ofList, ← ruledFrom_lineChars, List.map_map, ruled]
  rfl

end Stagecraft
