import Stagecraft.Proofs.Buffer.Splice
import Stagecraft.Proofs.Edit.Removal

/-!
What the passes at one record leave alone. A span that is still good has only seen deletions behind
it, so its lines and those above them are the same; and nothing is deleted behind the steps of the
record the passes are at.
-/

namespace Stagecraft

variable {first buffer : Buffer} {site : Site} {span : Span} {top front back : List String}

/-- The lines have only been deleted from, and a place that every deletion lies behind has the same
lines above it as before. -/
structure Trail (first buffer : Buffer) : Prop where
  later : first.revision ≤ buffer.revision
  kept : ∀ place, (∀ index ∈ buffer.edits.drop first.revision, place ≤ index) →
    buffer.lines.take place = first.lines.take place ∧
      (buffer.lines.drop place).Sublist (first.lines.drop place)

theorem Trail.refl (buffer : Buffer) : Trail buffer buffer :=
  ⟨Nat.le_refl _, fun _ _ => ⟨rfl, .refl _⟩⟩

theorem cutLines_behind {start stop place : Nat} (order : start < stop) (behind : place ≤ start)
    (lines : List String) :
    (cutLines start stop lines).take place = lines.take place ∧
      ((cutLines start stop lines).drop place).Sublist (lines.drop place) := by
  have short : (lines.take place).length ≤ start := by
    rw [List.length_take]
    omega
  have whole : cutLines start stop (lines.take place) = lines.take place := by
    rw [cutLines, List.take_of_length_le short, List.drop_eq_nil_of_le (by omega), List.append_nil]
  have split := cutLines_append (Nat.le_of_lt order) (lines.take place) (lines.drop place)
  rw [List.take_append_drop, whole] at split
  rw [split]
  by_cases inside : place ≤ lines.length
  · have front : (lines.take place).length = place := List.length_take_of_le inside
    rw [List.take_left' front, List.drop_left' front]
    exact ⟨rfl, cutLines_sublist (by omega) _⟩
  · have none : lines.drop place = [] := List.drop_eq_nil_of_le (by omega)
    simp [none, cutLines, List.take_take]

theorem edits_deleteLines (later : first.revision ≤ buffer.revision) (start stop : Nat) :
    (buffer.deleteLines start stop).edits.drop first.revision =
      buffer.edits.drop first.revision ++ [start] :=
  List.drop_append_of_le_length later

theorem Trail.cut (trail : Trail first buffer) {start stop : Nat} (order : start < stop) :
    Trail first (buffer.deleteLines start stop) := by
  constructor
  · have later := trail.later
    rw [Buffer.revision_deleteLines]
    omega
  · intro place behind
    rw [edits_deleteLines trail.later] at behind
    obtain ⟨same, part⟩ := trail.kept place fun index member =>
      behind index (List.mem_append_left _ member)
    have low : place ≤ start := behind start (by simp)
    obtain ⟨same', part'⟩ := cutLines_behind order low buffer.lines
    exact ⟨same'.trans same, part'.trans part⟩

theorem trail_upkeep (first : Buffer) :
    Upkeep (fun (_ : Unit) site => Trail first site.buffer) (fun _ _ => True) where
  fits_of_removable _ _ := trivial
  cut trail _ order := ⟨(), trail.cut order, fun _ _ _ => trivial⟩

/-- The lines in `back` stand below `front`, which is left of the lines above them, and a place
that every deletion lies behind is still one of those above. -/
structure Front (first : Buffer) (top back front : List String) (buffer : Buffer) : Prop where
  lines : buffer.lines = front ++ back
  fewer : front.Sublist top
  later : first.revision ≤ buffer.revision
  holds : ∀ place ≤ top.length, (∀ index ∈ buffer.edits.drop first.revision, place ≤ index) →
    place ≤ front.length

theorem Front.cut (held : Front first top back front buffer) {start stop : Nat}
    (order : start < stop) (above : stop ≤ front.length) :
    Front first top back (cutLines start stop front) (buffer.deleteLines start stop) := by
  have length := length_cutLines order front
  constructor
  · change cutLines start stop buffer.lines = _
    rw [held.lines, cutLines_append (Nat.le_of_lt order), Nat.sub_eq_zero_of_le above,
      Nat.sub_eq_zero_of_le (by omega)]
    rfl
  · exact (cutLines_sublist (Nat.le_of_lt order) front).trans held.fewer
  · have later := held.later
    rw [Buffer.revision_deleteLines]
    omega
  · intro place inside behind
    rw [edits_deleteLines held.later] at behind
    have low : place ≤ start := behind start (by simp)
    rw [length, Span.shiftBack, if_pos above]
    omega

/-- Passes at steps that end above `back` stay above it. -/
theorem front_upkeep (first : Buffer) (top back : List String) :
    Upkeep (fun front site => Front first top back front site.buffer ∧
        site.steps.stop ≤ front.length)
      (fun front span => span.stop ≤ front.length) where
  fits_of_removable held removable := by
    have bounds := removable.bounds
    exact Nat.le_trans (by omega) held.2
  cut := by
    rintro front site span ⟨held, ends⟩ above order
    have length := length_cutLines order front
    refine ⟨cutLines span.start span.stop front, ⟨held.cut order above, ?_⟩, ?_⟩
    · rw [length]
      exact Span.shiftBack_mono order ends
    · intro other low _
      rw [length, Span.shiftBack, if_pos above]
      omega

end Stagecraft
