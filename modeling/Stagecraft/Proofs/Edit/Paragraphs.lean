import Stagecraft.Proofs.Edit.Removal
import Stagecraft.Proofs.Record.Layout
import Stagecraft.Record.Around

/-!
The passes at a record that is laid out in paragraphs. The depth is the same above each paragraph,
so a step-level line in one of them is seen from within it; what a pass removes there is the
paragraph, and what is left is laid out as before.
-/

namespace Stagecraft

variable {marks : Brackets} {above below paragraph : List String}
  {paragraphs rest : List (List String)} {found stop : Nat}

/-- What a pass may take from a paragraph is all of it. -/
structure Solid (paragraph : List String) : Prop where
  balanced : totalDelta .square paragraph = 0
  block : ∀ line ∈ levelOneFrom 1 0 paragraph, startsBlock (paragraph.getD line "") = true →
    line = 0 ∧ matchingClose .curly paragraph 0 paragraph.length = some (paragraph.length - 1)
  directive : ∀ line ∈ levelOneFrom 1 0 paragraph,
    (spreadDirective? (paragraph.getD line "")).isSome = true → line = 0 ∧ paragraph.length = 1

instance : DecidablePred Solid := fun paragraph =>
  decidable_of_iff (totalDelta .square paragraph = 0 ∧
      (∀ line ∈ levelOneFrom 1 0 paragraph, startsBlock (paragraph.getD line "") = true →
        line = 0 ∧
          matchingClose .curly paragraph 0 paragraph.length = some (paragraph.length - 1)) ∧
      ∀ line ∈ levelOneFrom 1 0 paragraph,
        (spreadDirective? (paragraph.getD line "")).isSome = true →
          line = 0 ∧ paragraph.length = 1)
    ⟨fun ⟨balanced, block, directive⟩ => ⟨balanced, block, directive⟩,
      fun ⟨balanced, block, directive⟩ => ⟨balanced, block, directive⟩⟩

/-- A region closes in place when it closes by itself. -/
theorem matchingClose_inside (below : List String) (room : above.length + paragraph.length ≤ stop)
    (closes : matchingClose marks paragraph 0 paragraph.length = some found) :
    matchingClose marks (above ++ paragraph ++ below) above.length stop =
      some (found + above.length) := by
  have slice : ((above ++ paragraph ++ below).take stop).drop above.length =
      paragraph ++ below.take (stop - (above.length + paragraph.length)) := by
    rw [List.take_append, List.take_append, List.take_of_length_le (by omega : above.length ≤ stop),
      List.take_of_length_le (by omega : paragraph.length ≤ stop - above.length),
      List.append_assoc, List.drop_left, List.length_append]
  have here : closeFrom marks 0 above.length paragraph = some (found + above.length) := by
    rw [matchingClose, List.take_length, List.drop_zero] at closes
    rw [← Nat.add_zero above.length, closeFrom_add, closes, Option.map_some, Nat.add_zero,
      Nat.add_comm]
  rw [matchingClose, slice, closeFrom_append, here, Option.some_or]

theorem depthAt_between (marks : Brackets) (above middle below : List String) :
    depthAt marks (above ++ middle ++ below) above.length (above.length + middle.length) =
      totalDelta marks middle := by
  rw [depthAt, ← List.length_append, List.take_left, List.drop_left]

theorem totalDelta_flatten (solid : ∀ paragraph ∈ paragraphs, Solid paragraph) :
    totalDelta .square paragraphs.flatten = 0 := by
  induction paragraphs with
  | nil => rfl
  | cons paragraph paragraphs ih =>
    rw [List.flatten_cons, totalDelta_append, (solid paragraph (by simp)).balanced,
      ih fun other member => solid other (List.mem_cons_of_mem _ member), Int.add_zero]

/-- A line of the steps is a line of one of the paragraphs. -/
theorem exists_paragraph {offset : Nat} (inside : offset < paragraphs.flatten.length) :
    ∃ before paragraph after place, paragraphs = before ++ paragraph :: after ∧
      place < paragraph.length ∧ offset = before.flatten.length + place := by
  induction paragraphs generalizing offset with
  | nil => cases inside
  | cons first paragraphs ih =>
    by_cases here : offset < first.length
    · exact ⟨[], first, paragraphs, offset, rfl, here, by simp⟩
    · rw [List.flatten_cons, List.length_append] at inside
      obtain ⟨before, paragraph, after, place, rfl, low, same⟩ :=
        ih (show offset - first.length < paragraphs.flatten.length by omega)
      refine ⟨first :: before, paragraph, after, place, rfl, low, ?_⟩
      rw [List.flatten_cons, List.length_append]
      omega

/-- The span is that of a paragraph; the first paragraph starts on line `base`. -/
def Spans (base : Nat) (paragraphs : List (List String)) (span : Span) : Prop :=
  ∃ before paragraph after, paragraphs = before ++ paragraph :: after ∧
    span.start = base + before.flatten.length ∧ span.stop = span.start + paragraph.length

/-- A paragraph that ends above another one is among those before it. -/
theorem exists_paragraphs_above {before after before' after' : List (List String)}
    {paragraph' : List String}
    (split : before ++ paragraph :: after = before' ++ paragraph' :: after')
    (upper : before'.flatten.length + paragraph'.length ≤ before.flatten.length)
    (filled : 0 < paragraph.length) : ∃ more, before = before' ++ paragraph' :: more := by
  rcases List.append_eq_append_iff.mp split with ⟨more, rfl, behind⟩ | ⟨more, rfl, behind⟩
  · -- the other paragraph is this one or a later one, and does not end above it
    cases more with
    | nil =>
      obtain ⟨rfl, rfl⟩ := List.cons.inj behind
      simp only [List.append_nil] at upper
      omega
    | cons first more =>
      obtain ⟨rfl, rfl⟩ := List.cons.inj behind
      simp only [List.flatten_append, List.flatten_cons, List.length_append] at upper
      omega
  · cases more with
    | nil =>
      obtain ⟨rfl, rfl⟩ := List.cons.inj behind
      simp only [List.append_nil] at upper
      omega
    | cons first more =>
      obtain ⟨rfl, rfl⟩ := List.cons.inj behind
      exact ⟨more, rfl⟩

/-- The record stands in the buffer with these paragraphs. -/
structure Standing (above below : List String) (layout : Layout) (paragraphs : List (List String))
    (site : Site) : Prop where
  fewer : paragraphs.Sublist layout.paragraphs
  lines : site.buffer.lines =
    above ++ layout.head ++ paragraphs.flatten ++ (layout.tail ++ below)
  opening : site.steps.start + 1 = (above ++ layout.head).length
  closing : site.steps.stop = (above ++ layout.head).length + paragraphs.flatten.length + 1

namespace Standing

variable {layout : Layout} {site : Site} {span : Span}

theorem lines_around {before after : List (List String)}
    (standing : Standing above below layout (before ++ paragraph :: after) site) :
    site.buffer.lines = above ++ layout.head ++ before.flatten ++ paragraph ++
      (after.flatten ++ (layout.tail ++ below)) := by
  rw [standing.lines, List.flatten_append, List.flatten_cons]
  simp only [List.append_assoc]

/-- A step-level line is one of its paragraph. -/
theorem exists_level {line : Nat} (standing : Standing above below layout paragraphs site)
    (opens : layout.head.getLast?.map (lineDelta .square) = some 1)
    (solid : ∀ paragraph ∈ layout.paragraphs, Solid paragraph)
    (level : LevelAt site.buffer.lines site.steps.start (site.steps.stop - 1) line) :
    ∃ before paragraph after place, paragraphs = before ++ paragraph :: after ∧
      line = (above ++ layout.head).length + before.flatten.length + place ∧
      place < paragraph.length ∧ place ∈ levelOneFrom 1 0 paragraph ∧
      lineAt site.buffer line = paragraph.getD place "" := by
  obtain ⟨low, high, one⟩ := level
  have start := standing.opening
  have stop := standing.closing
  have base : (above ++ layout.head).length ≤ line := by omega
  obtain ⟨offset, rfl⟩ := Nat.exists_eq_add_of_le base
  have short : offset < paragraphs.flatten.length := by omega
  obtain ⟨before, paragraph, after, place, rfl, inside, rfl⟩ := exists_paragraph short
  refine ⟨before, paragraph, after, place, rfl, (Nat.add_assoc _ _ _).symm, inside, ?_, ?_⟩
  · obtain ⟨opening, ends, delta⟩ := Option.map_eq_some_iff.mp opens
    obtain ⟨head, split⟩ := List.getLast?_eq_some_iff.mp ends
    have lines : site.buffer.lines = above ++ head ++
        ([opening] ++ before.flatten ++ paragraph.take place) ++
        (paragraph.drop place ++ after.flatten ++ (layout.tail ++ below)) := by
      rw [standing.lines, split, List.flatten_append, List.flatten_cons]
      conv_lhs => rw [← List.take_append_drop place paragraph]
      simp only [List.append_assoc]
    have first : site.steps.start = (above ++ head).length := by
      rw [split, ← List.append_assoc, List.length_append] at start
      simpa using start
    have last : (above ++ layout.head).length + (before.flatten.length + place) =
        (above ++ head).length + ([opening] ++ before.flatten ++ paragraph.take place).length := by
      rw [split]
      simp only [List.length_append, List.length_take, List.length_singleton]
      omega
    have flat : totalDelta .square before.flatten = 0 := by
      apply totalDelta_flatten
      intro other member
      exact solid other (standing.fewer.subset (List.mem_append_left _ member))
    rw [lines, first, last, depthAt_between, totalDelta_append, totalDelta_append, flat] at one
    refine mem_levelOneFrom.mpr ⟨place, inside, (Nat.zero_add _).symm, ?_⟩
    simpa [totalDelta, delta] using one
  · rw [lineAt, Buffer.line?, standing.lines_around, List.append_assoc,
      List.getElem?_append_right (by simp; omega), List.getElem?_append_left (by simp; omega),
      List.getD_eq_getElem?_getD]
    congr 2
    simp only [List.length_append]
    omega

/-- What may be removed is a paragraph. -/
theorem fits (standing : Standing above below layout paragraphs site)
    (opens : layout.head.getLast?.map (lineDelta .square) = some 1)
    (solid : ∀ paragraph ∈ layout.paragraphs, Solid paragraph)
    (removable : Removable site.buffer site.steps span) :
    Spans (above ++ layout.head).length paragraphs span := by
  cases removable with
  | block level starts closes =>
    obtain ⟨before, paragraph, after, place, rfl, rfl, inside, member, text⟩ :=
      standing.exists_level opens solid level
    rw [text] at starts
    have here := solid paragraph (standing.fewer.subset (by simp))
    obtain ⟨rfl, whole⟩ := here.block place member starts
    have lines := standing.lines_around
    have stop := standing.closing
    simp only [List.flatten_append, List.flatten_cons, List.length_append] at stop
    have above' : (above ++ layout.head ++ before.flatten).length =
        (above ++ layout.head).length + before.flatten.length + 0 := by
      simp only [List.length_append, Nat.add_zero]
    have room : (above ++ layout.head ++ before.flatten).length + paragraph.length ≤
        site.steps.stop - 1 := by
      simp only [List.length_append]
      omega
    have found := matchingClose_inside (after.flatten ++ (layout.tail ++ below)) room whole
    rw [← lines, above', closes, Option.some.injEq] at found
    refine ⟨before, paragraph, after, rfl, rfl, ?_⟩
    simp only [Buffer.span]
    omega
  | directive level spreads =>
    obtain ⟨before, paragraph, after, place, rfl, rfl, inside, member, text⟩ :=
      standing.exists_level opens solid level
    rw [text] at spreads
    have here := solid paragraph (standing.fewer.subset (by simp))
    obtain ⟨rfl, single⟩ := here.directive place member spreads
    exact ⟨before, paragraph, after, rfl, rfl, by simp [Buffer.span, single]⟩

/-- Without one of its paragraphs the record stands as before. -/
theorem without {before after : List (List String)}
    (standing : Standing above below layout (before ++ paragraph :: after) site)
    (start : span.start = (above ++ layout.head).length + before.flatten.length)
    (stop : span.stop = span.start + paragraph.length) (order : span.start < span.stop) :
    Standing above below layout (before ++ after) (site.cut span.start span.stop) := by
  have lines := standing.lines_around
  have opening := standing.opening
  have closing := standing.closing
  have front : span.start = (above ++ layout.head ++ before.flatten).length := by
    rw [start, ← List.length_append]
  simp only [List.flatten_append, List.flatten_cons, List.length_append] at start closing
  constructor
  · exact ((List.sublist_cons_self paragraph after).append_left before).trans standing.fewer
  · have cut : (site.cut span.start span.stop).buffer.lines =
        site.buffer.lines.take span.start ++ site.buffer.lines.drop span.stop := rfl
    rw [cut, stop, front, ← List.length_append, lines, List.drop_left,
      List.append_assoc _ paragraph, List.take_left, List.flatten_append]
    simp only [List.append_assoc]
  · have kept : (site.cut span.start span.stop).steps.start = site.steps.start :=
      Span.shiftBack_of_le order (by simp only [List.length_append] at opening; omega)
    rw [kept, opening]
  · have moved : (site.cut span.start span.stop).steps.stop =
        site.steps.stop - (span.stop - span.start) :=
      if_pos (by omega)
    simp only [moved, closing, List.flatten_append, List.length_append]
    omega

theorem cut (standing : Standing above below layout paragraphs site)
    (spans : Spans (above ++ layout.head).length paragraphs span)
    (order : span.start < span.stop) :
    ∃ paragraphs', Standing above below layout paragraphs' (site.cut span.start span.stop) ∧
      ∀ other : Span, other.stop ≤ span.start →
        Spans (above ++ layout.head).length paragraphs other →
        Spans (above ++ layout.head).length paragraphs' other := by
  obtain ⟨before, paragraph, after, rfl, start, stop⟩ := spans
  refine ⟨before ++ after, standing.without start stop order, ?_⟩
  rintro other early ⟨before', paragraph', after', split, start', stop'⟩
  obtain ⟨more, rfl⟩ := exists_paragraphs_above split (by omega) (by omega)
  exact ⟨before', paragraph', more ++ after, List.append_assoc .., start', stop'⟩

end Standing

theorem standing_upkeep {layout : Layout}
    (opens : layout.head.getLast?.map (lineDelta .square) = some 1)
    (solid : ∀ paragraph ∈ layout.paragraphs, Solid paragraph) :
    Upkeep (Standing above below layout) (Spans (above ++ layout.head).length) where
  fits_of_removable standing removable := standing.fits opens solid removable
  cut standing spans order := standing.cut spans order

end Stagecraft
