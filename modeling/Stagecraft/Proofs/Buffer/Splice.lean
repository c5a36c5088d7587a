import Mathlib.Data.List.Basic
import Stagecraft.Buffer

/-!
Cutting lines out of a list and putting lines into it, piece by piece. A cut of two pieces is a cut
of each of them, lines are put into the piece that holds the place, and the length of what a cut
leaves is the shifted position that spans move to.
-/

namespace Stagecraft

section Splice

variable {α β : Type}

/-- The lines without those from `start` up to `stop`. -/
def cutLines (start stop : Nat) (lines : List α) : List α := lines.take start ++ lines.drop stop

/-- The lines with more of them in front of line `index`. -/
def putLines (index : Nat) (more lines : List α) : List α :=
  lines.take index ++ more ++ lines.drop index

theorem length_cutLines {start stop : Nat} (forward : start < stop) (lines : List α) :
    (cutLines start stop lines).length = Span.shiftBack start stop lines.length := by
  simp only [cutLines, Span.shiftBack, List.length_append, List.length_take, List.length_drop]
  split
  · omega
  · split <;> omega

theorem cutLines_append {start stop : Nat} (forward : start ≤ stop) (first second : List α) :
    cutLines start stop (first ++ second) =
      cutLines start stop first ++
        cutLines (start - first.length) (stop - first.length) second := by
  simp only [cutLines, List.take_append, List.drop_append, List.append_assoc]
  by_cases inside : start ≤ first.length
  · simp [Nat.sub_eq_zero_of_le inside]
  · have behind : first.drop stop = [] := List.drop_eq_nil_of_le (by omega)
    simp [behind]

theorem cutLines_map (f : α → β) (start stop : Nat) (lines : List α) :
    (cutLines start stop lines).map f = cutLines start stop (lines.map f) := by
  simp [cutLines, List.map_take, List.map_drop]

theorem cutLines_sublist {start stop : Nat} (forward : start ≤ stop) (lines : List α) :
    (cutLines start stop lines).Sublist lines := by
  have behind : (lines.drop stop).Sublist (lines.drop start) :=
    List.drop_sublist_drop_left lines forward
  have whole := behind.append_left (lines.take start)
  rwa [List.take_append_drop] at whole

theorem putLines_append_left {index : Nat} {first : List α} (inside : index ≤ first.length)
    (more second : List α) :
    putLines index more (first ++ second) = putLines index more first ++ second := by
  simp [putLines, List.take_append_of_le_length inside, List.drop_append_of_le_length inside]

theorem putLines_append_right {index : Nat} {first : List α} (behind : first.length ≤ index)
    (more second : List α) :
    putLines index more (first ++ second) =
      first ++ putLines (index - first.length) more second := by
  simp [putLines, List.take_append, List.drop_append, List.take_of_length_le behind,
    List.drop_eq_nil_of_le behind]

theorem putLines_map (f : α → β) (index : Nat) (more lines : List α) :
    (putLines index more lines).map f = putLines index (more.map f) (lines.map f) := by
  simp [putLines, List.map_take, List.map_drop]

theorem putLines_nil (index : Nat) (lines : List α) : putLines index [] lines = lines := by
  simp [putLines]

theorem putLines_perm (index : Nat) (more lines : List α) :
    (putLines index more lines).Perm (more ++ lines) := by
  have front : (putLines index more lines).Perm (more ++ lines.take index ++ lines.drop index) :=
    List.Perm.append_right _ List.perm_append_comm
  rwa [List.append_assoc, List.take_append_drop] at front

theorem length_putLines (index : Nat) (more lines : List α) :
    (putLines index more lines).length = lines.length + more.length := by
  rw [(putLines_perm index more lines).length_eq, List.length_append, Nat.add_comm]

theorem mem_putLines {index : Nat} {more lines : List α} {line : α} :
    line ∈ putLines index more lines ↔ line ∈ more ∨ line ∈ lines := by
  rw [(putLines_perm index more lines).mem_iff, List.mem_append]

end Splice

namespace Span

theorem shiftBack_eq_min (start stop position : Nat) :
    shiftBack start stop position =
      if stop ≤ position then position - (stop - start) else min start position := by
  simp only [shiftBack]
  split
  · rfl
  · split <;> omega

theorem shiftBack_mono {start stop first second : Nat} (forward : start < stop)
    (order : first ≤ second) : shiftBack start stop first ≤ shiftBack start stop second := by
  rw [shiftBack_eq_min, shiftBack_eq_min]
  split <;> split <;> omega

theorem shiftBack_of_le {start stop position : Nat} (forward : start < stop)
    (front : position ≤ start) : shiftBack start stop position = position := by
  rw [shiftBack_eq_min]
  split <;> omega

/-- A span that loses lines of its own starts where it did and ends that much higher. -/
theorem afterDelete_inside {span : Span} {start stop : Nat} (low : span.start ≤ start)
    (forward : start < stop) (high : stop ≤ span.stop) (revision : Nat) :
    (span.afterDelete start stop revision).start = span.start ∧
      (span.afterDelete start stop revision).stop = span.stop - (stop - start) :=
  ⟨shiftBack_of_le forward low, if_pos high⟩

end Span

section Clasps

variable {α : Type} {member other : α → Prop} {lines : List α} {first last : Nat}

/-- The members stand together, from place `first` up to place `last`; or there is none left, and
no place either. -/
def Clasps (member : α → Prop) (lines : List α) (first last : Nat) : Prop :=
  ∃ above inside below, lines = above ++ inside ++ below ∧
    (∀ line ∈ above, ¬ member line) ∧ (∀ line ∈ inside, member line) ∧
    (∀ line ∈ below, ¬ member line) ∧
    (first = above.length ∧ last = above.length + inside.length ∨ inside = [] ∧ last ≤ first)

namespace Clasps

theorem slice_eq_filter [DecidablePred member] (clasps : Clasps member lines first last) :
    (lines.take last).drop first = lines.filter member := by
  obtain ⟨above, inside, below, rfl, outer, inner, lower, place⟩ := clasps
  have none {part : List α} (free : ∀ line ∈ part, ¬ member line) : part.filter member = [] := by
    simpa [List.filter_eq_nil_iff] using free
  have all : inside.filter member = inside := by simpa [List.filter_eq_self] using inner
  rw [List.filter_append, List.filter_append, none outer, none lower, all]
  rcases place with ⟨rfl, rfl⟩ | ⟨rfl, order⟩
  · rw [List.take_left' (by simp), List.drop_left' rfl]
    simp
  · rw [List.drop_eq_nil_of_le (Nat.le_trans (List.length_take_le _ _) order)]
    rfl

theorem free (clasps : Clasps member lines first last) (empty : last ≤ first) :
    ∀ line ∈ lines, ¬ member line := by
  obtain ⟨above, inside, below, rfl, outer, inner, lower, place⟩ := clasps
  have gone : inside = [] := by
    rcases place with ⟨rfl, rfl⟩ | ⟨gone, -⟩
    · exact List.eq_nil_of_length_eq_zero (by omega)
    · exact gone
  subst gone
  intro line present
  simp only [List.append_nil, List.mem_append] at present
  rcases present with high | low
  · exact outer line high
  · exact lower line low

theorem of_free (empty : last ≤ first) (free : ∀ line ∈ lines, ¬ member line) :
    Clasps member lines first last :=
  ⟨lines, [], [], by simp, free, by simp, by simp, .inr ⟨rfl, empty⟩⟩

/-- What holds of the names of the lines holds of the lines. -/
theorem of_map {β : Type} {f : β → α} {named : List β}
    (clasps : Clasps member (named.map f) first last) :
    Clasps (member <| f ·) named first last := by
  obtain ⟨above, inside, below, split, outer, inner, lower, place⟩ := clasps
  obtain ⟨front, back, rfl, upper, rfl⟩ := List.map_eq_append_iff.mp split
  obtain ⟨high, middle, rfl, rfl, rfl⟩ := List.map_eq_append_iff.mp upper
  refine ⟨high, middle, back, rfl, ?_, ?_, ?_, ?_⟩
  · exact fun line present => outer _ (List.mem_map_of_mem present)
  · exact fun line present => inner _ (List.mem_map_of_mem present)
  · exact fun line present => lower _ (List.mem_map_of_mem present)
  · simpa using place

/-- Other names for the members of the list make no difference. -/
theorem congr (clasps : Clasps member lines first last)
    (same : ∀ line ∈ lines, (other line ↔ member line)) : Clasps other lines first last := by
  obtain ⟨above, inside, below, rfl, outer, inner, lower, place⟩ := clasps
  refine ⟨above, inside, below, rfl, ?_, ?_, ?_, place⟩
  · intro line present
    rw [same line (by simp [present])]
    exact outer line present
  · intro line present
    rw [same line (by simp [present])]
    exact inner line present
  · intro line present
    rw [same line (by simp [present])]
    exact lower line present

theorem cut (clasps : Clasps member lines first last) {start stop : Nat} (forward : start < stop) :
    Clasps member (cutLines start stop lines) (Span.shiftBack start stop first)
      (Span.shiftBack start stop last) := by
  obtain ⟨above, inside, below, rfl, outer, inner, lower, place⟩ := clasps
  have order := Nat.le_of_lt forward
  have kept {part : List α} {a b : Nat} (ordered : a ≤ b) {line : α}
      (present : line ∈ cutLines a b part) : line ∈ part :=
    (cutLines_sublist ordered part).subset present
  have lengths := length_cutLines forward (above ++ inside)
  rw [cutLines_append order (above ++ inside), cutLines_append order above]
  rw [cutLines_append order above] at lengths
  refine ⟨_, _, _, rfl, ?_, ?_, ?_, ?_⟩
  · exact fun line present => outer line (kept order present)
  · exact fun line present => inner line (kept (Nat.sub_le_sub_right order _) present)
  · exact fun line present => lower line (kept (Nat.sub_le_sub_right order _) present)
  · rcases place with ⟨rfl, rfl⟩ | ⟨rfl, empty⟩
    · left
      rw [List.length_append, length_cutLines forward, List.length_append] at lengths
      rw [length_cutLines forward, lengths]
      exact ⟨rfl, rfl⟩
    · right
      exact ⟨by simp [cutLines], Span.shiftBack_mono forward empty⟩

/-- A cut behind the members moves nothing. -/
theorem cut_behind (clasps : Clasps member lines first last) {start stop : Nat}
    (forward : start < stop) (behind : last ≤ start) :
    Clasps member (cutLines start stop lines) first last := by
  by_cases order : first ≤ last
  · have moved := clasps.cut forward
    rwa [Span.shiftBack_of_le forward (Nat.le_trans order behind),
      Span.shiftBack_of_le forward behind] at moved
  · have empty : last ≤ first := by omega
    apply of_free empty
    intro line present
    exact clasps.free empty line ((cutLines_sublist (Nat.le_of_lt forward) lines).subset present)

/-- Lines of others put behind the members move nothing. -/
theorem put_behind (clasps : Clasps member lines first last) {index : Nat} {more : List α}
    (foreign : ∀ line ∈ more, ¬ member line) (behind : last ≤ index) :
    Clasps member (putLines index more lines) first last := by
  by_cases empty : last ≤ first
  · apply of_free empty
    intro line present
    rcases mem_putLines.mp present with new | old
    · exact foreign line new
    · exact clasps.free empty line old
  · obtain ⟨above, inside, below, rfl, outer, inner, lower, ⟨rfl, rfl⟩ | ⟨rfl, order⟩⟩ := clasps
    · rw [putLines_append_right (by simpa using behind)]
      refine ⟨above, inside, _, rfl, outer, inner, ?_, .inl ⟨rfl, rfl⟩⟩
      intro line present
      rcases mem_putLines.mp present with new | old
      · exact foreign line new
      · exact lower line old
    · exact absurd order empty

/-- Lines of others put in front of the members push them down. -/
theorem put_front (clasps : Clasps member lines first last) {index : Nat} {more : List α}
    (foreign : ∀ line ∈ more, ¬ member line) (front : index ≤ first) :
    Clasps member (putLines index more lines) (first + more.length)
      (if index < last then last + more.length else last) := by
  by_cases empty : last ≤ first
  · apply of_free
    · split <;> omega
    · intro line present
      rcases mem_putLines.mp present with new | old
      · exact foreign line new
      · exact clasps.free empty line old
  · obtain ⟨above, inside, below, rfl, outer, inner, lower, ⟨rfl, rfl⟩ | ⟨rfl, order⟩⟩ := clasps
    · rw [if_pos (by omega), List.append_assoc, putLines_append_left front, ← List.append_assoc]
      refine ⟨_, inside, below, rfl, ?_, inner, lower, .inl ⟨?_, ?_⟩⟩
      · intro line present
        rcases mem_putLines.mp present with new | old
        · exact foreign line new
        · exact outer line old
      · rw [length_putLines]
      · rw [length_putLines]
        omega
    · exact absurd order empty

/-- Members put strictly inside stay with the others. -/
theorem put_inside (clasps : Clasps member lines first last) {index : Nat} {more : List α}
    (joined : ∀ line ∈ more, member line) (after : first < index) (before : index < last) :
    Clasps member (putLines index more lines) first (last + more.length) := by
  obtain ⟨above, inside, below, rfl, outer, inner, lower, ⟨rfl, rfl⟩ | ⟨rfl, empty⟩⟩ := clasps
  · rw [putLines_append_left (by simp; omega), putLines_append_right (Nat.le_of_lt after)]
    refine ⟨above, _, below, rfl, outer, ?_, lower, .inl ⟨rfl, ?_⟩⟩
    · intro line present
      rcases mem_putLines.mp present with new | old
      · exact joined line new
      · exact inner line old
    · rw [length_putLines, Nat.add_assoc]
  · omega

end Clasps

end Clasps

end Stagecraft
