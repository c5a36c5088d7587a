import Mathlib.Data.List.TakeWhile
import Stagecraft.Proofs.Record.Depth

/-!
Depth character by character. Lines are counted as a whole, so a line may hold the place where a
region closes and be open again at its end. Where no mark follows the one that closes, on its line,
the scan of the characters and the count of the lines end on the same line, and the region is open
behind every line above it.
-/

namespace Stagecraft

variable {marks : Brackets} {text behind : List Char} {texts : List (List Char)}
  {lines : List String} {line : String} {depth : Int} {index start stop found : Nat}

/-- What a character adds to the depth. -/
def charDelta (marks : Brackets) (c : Char) : Int :=
  if marks.opening.toList = [c] then 1 else if marks.closing.toList = [c] then -1 else 0

def textDelta (marks : Brackets) : List Char → Int
  | [] => 0
  | c :: rest => charDelta marks c + textDelta marks rest

/-- What follows the first character behind which the depth is zero. -/
def behindReturn? (marks : Brackets) (depth : Int) : List Char → Option (List Char)
  | [] => none
  | c :: rest =>
    if depth + charDelta marks c = 0 then some rest
    else behindReturn? marks (depth + charDelta marks c) rest

/-- The first of the texts in which the depth comes back to zero, and what follows there; the first
text is number `index`. -/
def returnFrom (marks : Brackets) (depth : Int) (index : Nat) :
    List (List Char) → Option (Nat × List Char)
  | [] => none
  | text :: rest =>
    match behindReturn? marks depth text with
    | some behind => some (index, behind)
    | none => returnFrom marks (depth + textDelta marks text) (index + 1) rest

/-- A line from its first mark on. -/
def fromMark (marks : Brackets) (line : String) : List Char :=
  line.toList.dropWhile (charDelta marks · == 0)

/-- The first mark of the line is an opening one. -/
def startsOpen (marks : Brackets) (line : String) : Prop :=
  ∃ rest c, fromMark marks line = c :: rest ∧ charDelta marks c = 1

/-- Scans the characters from the first mark of line `start` on: the line on which the depth comes
back to zero, and what follows on it. -/
def returnOf? (marks : Brackets) (lines : List String) (start : Nat) :
    Option (Nat × List Char) :=
  match lines.drop start with
  | [] => none
  | line :: rest => returnFrom marks 0 start (fromMark marks line :: rest.map String.toList)

/-- The marks are two different characters. -/
def Brackets.Single (marks : Brackets) : Prop :=
  ∃ a b, marks.opening.toList = [a] ∧ marks.closing.toList = [b] ∧ a ≠ b

theorem Brackets.single_square : Brackets.Single .square :=
  ⟨'[', ']', rfl, rfl, by decide⟩

section Deltas

theorem charDelta_le (marks : Brackets) (c : Char) :
    -1 ≤ charDelta marks c ∧ charDelta marks c ≤ 1 := by
  rw [charDelta]
  split
  · omega
  · split <;> omega

theorem textDelta_append (marks : Brackets) (first second : List Char) :
    textDelta marks (first ++ second) = textDelta marks first + textDelta marks second := by
  induction first with
  | nil => simp [textDelta]
  | cons c rest ih => simp only [List.cons_append, textDelta, ih, Int.add_assoc]

theorem textDelta_eq_zero (unmarked : ∀ c ∈ text, charDelta marks c = 0) :
    textDelta marks text = 0 := by
  induction text with
  | nil => rfl
  | cons c rest ih =>
    rw [textDelta, unmarked c (by simp), ih fun d member => unmarked d (by simp [member])]
    rfl

/-- A line counts as much as its characters do. -/
theorem lineDelta_eq_textDelta (single : marks.Single) (line : String) :
    lineDelta marks line = textDelta marks line.toList := by
  obtain ⟨a, b, opens, closes, other⟩ := single
  rw [lineDelta, opens, closes, occurrences_singleton, occurrences_singleton]
  induction line.toList with
  | nil => rfl
  | cons c rest ih =>
    rw [textDelta, ← ih, charDelta, opens, closes, List.count_cons, List.count_cons]
    by_cases first : c = a
    · subst first
      simp only [beq_self_eq_true, if_true, beq_iff_eq, other, if_false]
      omega
    · by_cases second : c = b
      · subst second
        simp only [beq_self_eq_true, if_true, beq_iff_eq, first, if_false, List.cons.injEq,
          and_true, Ne.symm first]
        omega
      · simp only [beq_iff_eq, first, second, if_false, List.cons.injEq, and_true, Ne.symm first,
          Ne.symm second]
        omega

theorem totalDelta_eq_textDelta (single : marks.Single) (lines : List String) :
    totalDelta marks lines = textDelta marks (lines.map String.toList).flatten := by
  induction lines with
  | nil => rfl
  | cons line rest ih =>
    rw [totalDelta, ih, lineDelta_eq_textDelta single, List.map_cons, List.flatten_cons,
      textDelta_append]

/-- What stands in front of the first mark does not count. -/
theorem lineDelta_eq_fromMark (single : marks.Single) (line : String) :
    lineDelta marks line = textDelta marks (fromMark marks line) := by
  have lead : textDelta marks (line.toList.takeWhile (charDelta marks · == 0)) = 0 := by
    apply textDelta_eq_zero
    intro c member
    exact beq_iff_eq.mp (List.mem_takeWhile_imp (p := (charDelta marks · == 0)) member)
  have whole := textDelta_append marks (line.toList.takeWhile (charDelta marks · == 0))
    (fromMark marks line)
  rw [fromMark, List.takeWhile_append_dropWhile, lead, Int.zero_add] at whole
  rw [lineDelta_eq_textDelta single, whole, fromMark]

end Deltas

section Scan

/-- What was scanned has brought the depth to zero. -/
theorem depth_of_behindReturn (returns : behindReturn? marks depth text = some behind) :
    depth + textDelta marks text = textDelta marks behind := by
  induction text generalizing depth with
  | nil => cases returns
  | cons c rest ih =>
    rw [behindReturn?] at returns
    rw [textDelta, ← Int.add_assoc]
    split at returns
    · next zero =>
      obtain rfl := Option.some.inj returns
      rw [zero, Int.zero_add]
    · exact ih returns

/-- The depth changes by one at most, so without a return it stays above zero. -/
theorem open_of_no_return (deep : 1 ≤ depth) (stays : behindReturn? marks depth text = none) :
    1 ≤ depth + textDelta marks text := by
  induction text generalizing depth with
  | nil => simpa [textDelta] using deep
  | cons c rest ih =>
    rw [behindReturn?] at stays
    rw [textDelta, ← Int.add_assoc]
    split at stays
    · cases stays
    · next zero =>
      have bound := (charDelta_le marks c).1
      exact ih (by omega) stays

/-- Behind the text in which the depth comes back to zero it is zero, if no mark follows in it, and
behind those before it is not. -/
theorem depth_of_returnFrom (deep : 1 ≤ depth)
    (returns : returnFrom marks depth index texts = some (found, behind))
    (clean : ∀ c ∈ behind, charDelta marks c = 0) :
    ∃ count, count < texts.length ∧ found = index + count ∧
      depth + textDelta marks (texts.take (count + 1)).flatten = 0 ∧
      ∀ early < count, 1 ≤ depth + textDelta marks (texts.take (early + 1)).flatten := by
  induction texts generalizing depth index with
  | nil => cases returns
  | cons text rest ih =>
    have parts (count : Nat) : depth + textDelta marks ((text :: rest).take (count + 1)).flatten =
        depth + textDelta marks text + textDelta marks (rest.take count).flatten := by
      rw [List.take_succ_cons, List.flatten_cons, textDelta_append, Int.add_assoc]
    simp only [parts]
    rw [returnFrom] at returns
    cases here : behindReturn? marks depth text with
    | some after =>
      rw [here] at returns
      obtain ⟨rfl, rfl⟩ := Prod.mk.inj (Option.some.inj returns)
      have zero := depth_of_behindReturn here
      rw [textDelta_eq_zero clean] at zero
      refine ⟨0, by simp, rfl, by simpa [textDelta] using zero, ?_⟩
      intro early low
      omega
    | none =>
      rw [here] at returns
      have still := open_of_no_return deep here
      obtain ⟨count, inside, rfl, zero, before⟩ := ih still returns
      refine ⟨count + 1, by simpa using inside, by omega, zero, ?_⟩
      intro early low
      cases early with
      | zero => simpa [textDelta] using still
      | succ early => exact before early (by omega)

/-- The scan goes on behind the opening mark. -/
theorem returnFrom_opened {c : Char} {rest : List Char} {others : List (List Char)}
    (one : charDelta marks c = 1) :
    returnFrom marks 0 index ((c :: rest) :: others) =
      returnFrom marks 1 index (rest :: others) := by
  rw [returnFrom, returnFrom, behindReturn?, textDelta, one, if_neg (by omega), Int.zero_add,
    Int.zero_add]

/-- Where no mark follows the one that closes, the lines close where the characters do. -/
theorem matchingClose_of_returnOf (single : marks.Single) (present : lines[start]? = some line)
    (opens : startsOpen marks line) (returns : returnOf? marks lines start = some (found, behind))
    (clean : ∀ c ∈ behind, charDelta marks c = 0) (window : found < stop) :
    matchingClose marks lines start stop = some found ∧
      depthAt marks lines start (found + 1) = 0 ∧
      ∀ number, start ≤ number → number < found → 1 ≤ depthAt marks lines start (number + 1) := by
  obtain ⟨inside, rfl⟩ := List.getElem?_eq_some_iff.mp present
  obtain ⟨rest, c, split, one⟩ := opens
  rw [returnOf?, List.drop_eq_getElem_cons inside] at returns
  simp only [split, returnFrom_opened one] at returns
  obtain ⟨count, within, rfl, zero, before⟩ := depth_of_returnFrom (Int.le_refl 1) returns clean
  have first := lineDelta_eq_fromMark single lines[start]
  rw [split, textDelta, one] at first
  have depths (offset : Nat) : depthAt marks lines start (start + offset + 1) =
      1 + textDelta marks
        ((rest :: (lines.drop (start + 1)).map String.toList).take (offset + 1)).flatten := by
    rw [Nat.add_assoc, depthAt, List.drop_take, Nat.add_sub_cancel_left,
      List.drop_eq_getElem_cons inside, List.take_succ_cons, totalDelta, first,
      totalDelta_eq_textDelta single, List.map_take, List.take_succ_cons, List.flatten_cons,
      textDelta_append, Int.add_assoc]
  have open' : ∀ number, start ≤ number → number < start + count →
      1 ≤ depthAt marks lines start (number + 1) := by
    intro number low high
    obtain ⟨offset, rfl⟩ := Nat.exists_eq_add_of_le low
    rw [depths]
    exact before offset (by omega)
  rw [← depths] at zero
  have present' : start + count < lines.length := by
    simp only [List.length_cons, List.length_map, List.length_drop] at within
    omega
  refine ⟨matchingClose_eq_some_iff.mpr ⟨by omega, window, present', zero, ?_⟩, zero, open'⟩
  intro early low high
  have deep := open' (early - 1) (by omega) (by omega)
  rw [Nat.sub_add_cancel (by omega)] at deep
  omega

/-- Arrays open and close on every line; the outermost one closes on line 3. -/
def braidedLines : List String := ["steps: [ [", "] [ ], [", "[]", "] ] // end", "]"]

theorem matchingClose_of_returnOf_braided :
    startsOpen .square "steps: [ [" ∧
      returnOf? .square braidedLines 0 = some (3, " // end".toList) ∧
      matchingClose .square braidedLines 0 5 = some 3 ∧
      depthAt .square braidedLines 0 4 = 0 ∧
      ∀ number, 0 ≤ number → number < 3 → 1 ≤ depthAt .square braidedLines 0 (number + 1) := by
  have opens : startsOpen .square "steps: [ [" := ⟨" [".toList, '[', by decide, by decide⟩
  have returns : returnOf? .square braidedLines 0 = some (3, " // end".toList) := by decide
  have unmarked : " // end".toList.all (charDelta .square · == 0) = true := by decide
  have clean : ∀ c ∈ " // end".toList, charDelta .square c = 0 :=
    fun c member => beq_iff_eq.mp (List.all_eq_true.mp unmarked c member)
  exact ⟨opens, returns, matchingClose_of_returnOf Brackets.single_square rfl opens returns clean
    (by decide)⟩

end Scan

end Stagecraft
