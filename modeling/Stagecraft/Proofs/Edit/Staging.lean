import Stagecraft.Proofs.Edit.EntranceTokens
import Stagecraft.Proofs.Edit.WholeSteps
import Stagecraft.Proofs.Edit.Woven

/-!
Records whose runs stand among whole elements of their steps. With each run merged, such a record
is the same vignette but for the steps of its runs, which are regrouped.
-/

namespace Stagecraft

/-- Lines of other elements, and a run below them. -/
structure Act where
  others : List String
  run : List Entrance

namespace Act

def lines (old : List String) (act : Act) : List String := act.others ++ runLines old act.run

/-- The lines with the run merged. -/
def merged (old : List String) (act : Act) : List String := act.others ++ mergedLines old act.run

def paragraphs (old : List String) (act : Act) : List (List String) :=
  [act.others, runLines old act.run]

def mergedParagraphs (old : List String) (act : Act) : List (List String) :=
  [act.others, mergedLines old act.run]

/-- The run stands in the lines of the file, and they hold its names as they are. -/
structure Sound (old : List String) (act : Act) : Prop where
  isRun : IsRun old act.run
  plain : ∀ entrance ∈ act.run, entrance.Plain
  whole : ∀ line ∈ runLines old act.run, '\n' ∉ line.toList

end Act

section Lines

variable {old back : List String} {run : List Entrance} {runs : List (List Entrance)}
  {start middle stop : Nat} {site after : Site} {u : Unit}

/-- The lines from one to the one before another. -/
def linesFrom (lines : List String) (start stop : Nat) : List String :=
  (lines.take stop).drop start

/-- The runs as acts, each with the lines between it and the one above. -/
def actsFrom (old : List String) (start : Nat) : List (List Entrance) → List Act
  | [] => []
  | run :: runs => ⟨linesFrom old start (startOf run), run⟩ :: actsFrom old (stopOf run) runs

/-- The line behind the last of the runs. -/
def lineBehind (start : Nat) : List (List Entrance) → Nat
  | [] => start
  | run :: runs => lineBehind (stopOf run) runs

/-- The runs have lines, and stand one below the other from a line on. -/
def Descend (start : Nat) : List (List Entrance) → Prop
  | [] => True
  | run :: runs => start ≤ startOf run ∧ startOf run < stopOf run ∧ Descend (stopOf run) runs

theorem linesFrom_append (old : List String) (low : start ≤ middle) (high : middle ≤ stop) :
    linesFrom old start middle ++ linesFrom old middle stop = linesFrom old start stop := by
  have size : stop - start = (middle - start) + (stop - middle) := by omega
  have next : old.drop middle = (old.drop start).drop (middle - start) := by
    rw [List.drop_drop, Nat.add_sub_cancel' low]
  rw [linesFrom, linesFrom, linesFrom, List.drop_take, List.drop_take, List.drop_take, size,
    List.take_add, next]

theorem take_append_linesFrom (order : start ≤ stop) :
    old.take start ++ linesFrom old start stop = old.take stop := by
  have joined := linesFrom_append old (Nat.zero_le start) order
  exact joined

theorem descend_of_pairwise (apart : runs.Pairwise fun above below => stopOf above ≤ startOf below)
    (each : ∀ run ∈ runs, start ≤ startOf run ∧ startOf run < stopOf run) :
    Descend start runs := by
  induction runs generalizing start with
  | nil => trivial
  | cons run runs ih =>
    obtain ⟨below, apart'⟩ := List.pairwise_cons.mp apart
    obtain ⟨low, order⟩ := each run (List.mem_cons_self ..)
    refine ⟨low, order, ih apart' ?_⟩
    intro other member
    exact ⟨below other member, (each other (List.mem_cons_of_mem _ member)).2⟩

theorem Descend.start_le (descend : Descend start runs) : start ≤ lineBehind start runs := by
  induction runs generalizing start with
  | nil => exact Nat.le_refl start
  | cons run runs ih =>
    obtain ⟨low, order, descend'⟩ := descend
    have rest := ih descend'
    rw [lineBehind]
    omega

theorem lineBehind_le (low : start ≤ stop) (high : ∀ run ∈ runs, stopOf run ≤ stop) :
    lineBehind start runs ≤ stop := by
  induction runs generalizing start with
  | nil => exact low
  | cons run runs ih =>
    exact ih (high run (List.mem_cons_self ..)) fun other member =>
      high other (List.mem_cons_of_mem _ member)

theorem runs_actsFrom (old : List String) (start : Nat) (runs : List (List Entrance)) :
    (actsFrom old start runs).map Act.run = runs := by
  induction runs generalizing start with
  | nil => rfl
  | cons run runs ih => rw [actsFrom, List.map_cons, ih]

/-- The acts take up all lines down to the end of the last run. -/
theorem lines_actsFrom (descend : Descend start runs) :
    (actsFrom old start runs).flatMap (Act.lines old) =
      linesFrom old start (lineBehind start runs) := by
  induction runs generalizing start with
  | nil => simp [actsFrom, lineBehind, linesFrom]
  | cons run runs ih =>
    obtain ⟨low, order, descend'⟩ := descend
    have behind := descend'.start_le
    have here : Act.lines old ⟨linesFrom old start (startOf run), run⟩ =
        linesFrom old start (stopOf run) := linesFrom_append old low (Nat.le_of_lt order)
    rw [actsFrom, List.flatMap_cons, here, ih descend', lineBehind,
      linesFrom_append old (Nat.le_trans low (Nat.le_of_lt order)) behind]

/-- Merging runs leaves the lines of the acts, each with its run merged. -/
theorem mergeEach_lines (descend : Descend start runs) (inside : lineBehind start runs ≤ old.length)
    (lines : site.buffer.lines = old.take (lineBehind start runs) ++ back)
    (ran : mergeEach runs.reverse site = .ok u after) :
    after.buffer.lines =
      old.take start ++ ((actsFrom old start runs).flatMap (Act.merged old) ++ back) := by
  induction runs generalizing start back after u with
  | nil =>
    obtain ⟨-, rfl⟩ := pure_ran.mp ran
    exact lines
  | cons run runs ih =>
    obtain ⟨low, order, descend'⟩ := descend
    rw [List.reverse_cons] at ran
    obtain ⟨middle, ran', same⟩ := mergeEach_concat_ran order ran
    have behind := descend'.start_le
    rw [lineBehind] at inside
    rw [same, lines_merged (ih descend' inside lines ran') order (Nat.le_trans behind inside),
      ← take_append_linesFrom low, actsFrom, List.flatMap_cons, Act.merged]
    simp only [List.append_assoc]

end Lines

variable {old : List String} {acts : List Act} {values : List Value}

section Elements

variable {paragraph : List String} {paragraphs : List (List String)}

/-- The first of the paragraphs; only the very last may lack its comma. -/
theorem paragraphElements?_cons
    (elements : paragraphElements? (paragraph :: paragraphs) = some values) :
    ∃ first others, lastElements? paragraph = some first ∧
      (paragraphs ≠ [] → wholeElements? paragraph = some first) ∧
      paragraphElements? paragraphs = some others ∧ values = first ++ others := by
  cases paragraphs with
  | nil =>
    exact ⟨values, [], elements, fun filled => absurd rfl filled, rfl, (List.append_nil _).symm⟩
  | cons next rest =>
    rw [paragraphElements?] at elements
    obtain ⟨first, whole, elements⟩ := Option.bind_eq_some_iff.mp elements
    obtain ⟨others, behind, made⟩ := Option.bind_eq_some_iff.mp elements
    cases made
    exact ⟨first, others, lastElements?_of_whole whole, fun _ => whole, behind, rfl⟩

theorem elementsAmong_cons (whole : wholeElements? paragraph = some values)
    (paragraphs : List (List String)) : Seams.elementsAmong (paragraph :: paragraphs) =
      values ++ Seams.elementsAmong paragraphs := by
  rw [Seams.elementsAmong, List.flatMap_cons, whole, Option.getD_some]
  rfl

/-- With the runs merged, the paragraphs hold whole elements, which are those before but that a
group stands for each run. -/
theorem recast_acts (sound : ∀ act ∈ acts, act.Sound old)
    (elements : paragraphElements? (acts.flatMap (Act.paragraphs old)) = some values) :
    (∀ paragraph ∈ acts.flatMap (Act.mergedParagraphs old), (wholeElements? paragraph).isSome) ∧
      Recast values (Seams.elementsAmong (acts.flatMap (Act.mergedParagraphs old)))
        (acts.map Act.run) := by
  induction acts generalizing values with
  | nil =>
    cases elements
    exact ⟨fun paragraph absent => absurd absent List.not_mem_nil, .done⟩
  | cons act acts ih =>
    obtain ⟨isRun, plain, whole⟩ := sound act (List.mem_cons_self ..)
    have parted : (act :: acts).flatMap (Act.paragraphs old) = act.others ::
        runLines old act.run :: acts.flatMap (Act.paragraphs old) := rfl
    rw [parted] at elements
    obtain ⟨others, behind, -, first, elements', rfl⟩ := paragraphElements?_cons elements
    obtain ⟨brought, rest, last, -, below, rfl⟩ := paragraphElements?_cons elements'
    obtain ⟨wholes, recast⟩ := ih (fun act member => sound act (by simp [member])) below
    have here := first (List.cons_ne_nil _ _)
    have brings := brings_of_lastElements isRun plain whole last
    obtain ⟨entrance, run, filled⟩ := List.exists_cons_of_ne_nil isRun.filled
    have group : wholeElements? (mergedLines old act.run) =
        some [groupElement entrance.side act.run] := by
      rw [filled] at plain whole ⊢
      exact wholeElements?_merged plain whole
    have named : ∀ other ∈ act.run, other.target ≠ "" := by
      intro other member
      obtain ⟨-, line, -, read⟩ := entranceAt?_eq_some.mp (isRun.read other member)
      exact target_ne_empty read
    have sided : FromSide entrance.side act.run := by
      refine ⟨isRun.filled, ?_⟩
      rw [filled] at isRun ⊢
      exact isRun.side_eq
    have split : (act :: acts).flatMap (Act.mergedParagraphs old) = act.others ::
        mergedLines old act.run :: acts.flatMap (Act.mergedParagraphs old) := rfl
    rw [split, elementsAmong_cons here, elementsAmong_cons group, List.map_cons]
    constructor
    · intro paragraph member
      rcases List.mem_cons.mp member with rfl | member
      · rw [here]
        rfl
      · rcases List.mem_cons.mp member with rfl | later
        · rw [group]
          rfl
        · exact wholes paragraph later
    · exact .keeps others (.merge sided named brings recast)

/-- Whole paragraphs hold the elements of their concatenation. -/
theorem paragraphElements?_of_whole
    (whole : ∀ paragraph ∈ paragraphs, (wholeElements? paragraph).isSome) :
    paragraphElements? paragraphs = some (Seams.elementsAmong paragraphs) := by
  induction paragraphs using paragraphElements?.induct with
  | case1 => rfl
  | case2 last =>
    obtain ⟨values, elements⟩ := Option.isSome_iff_exists.mp (whole last (by simp))
    rw [paragraphElements?, lastElements?_of_whole elements, elementsAmong_cons elements]
    simp [Seams.elementsAmong]
  | case3 paragraph next rest ih =>
    obtain ⟨values, elements⟩ := Option.isSome_iff_exists.mp (whole paragraph (by simp))
    have others := ih fun other member => whole other (List.mem_cons_of_mem _ member)
    rw [paragraphElements?, elements, others, elementsAmong_cons elements]
    rfl

end Elements

section Records

variable {lines : List String} {record : Span} {top : Nat} {runs : List (List Entrance)}
  {value : Value} {vignette : Vignette} {elements elements' : List Value}

/-- A record cut around its runs, the first of which has elements above it from a line on. -/
def seamsOf (lines : List String) (record : Span) (top : Nat) (runs : List (List Entrance)) :
    Seams where
  front := linesFrom lines record.start top
  paragraphs := (actsFrom lines top runs).flatMap (Act.paragraphs lines)
  back := linesFrom lines (lineBehind top runs) record.stop

/-- The lines of the record with its runs merged. -/
def mergedRecord (lines : List String) (record : Span) (top : Nat)
    (runs : List (List Entrance)) : List String :=
  linesFrom lines record.start top ++ (actsFrom lines top runs).flatMap (Act.merged lines) ++
    linesFrom lines (lineBehind top runs) record.stop

/-- The runs are whole elements of the steps of the record, and so are the lines between them, from
the line `top` on. Behind the last run come further elements, or the end of the steps. -/
structure Staged (lines : List String) (record : Span) (top : Nat) (runs : List (List Entrance)) :
    Prop where
  low : record.start ≤ top
  high : ∀ run ∈ runs, top ≤ startOf run
  leads : (seamsOf lines record top runs).led?.isSome
  elements : (∀ paragraph ∈ (seamsOf lines record top runs).paragraphs,
      (wholeElements? paragraph).isSome) ∨
    (paragraphElements? (seamsOf lines record top runs).paragraphs).isSome ∧
      Seams.closesList (seamsOf lines record top runs).back
  settled : (seamsOf lines record top runs).behind?.any fun members =>
    members.all fun member => !member.sets "steps"
  plain : ∀ run ∈ runs, ∀ entrance ∈ run, entrance.Plain
  whole : ∀ run ∈ runs, ∀ line ∈ runLines lines run, '\n' ∉ line.toList

theorem flatten_paragraphs (old : List String) (acts : List Act) :
    (acts.flatMap (Act.paragraphs old)).flatten = acts.flatMap (Act.lines old) ∧
      (acts.flatMap (Act.mergedParagraphs old)).flatten = acts.flatMap (Act.merged old) := by
  induction acts with
  | nil => exact ⟨rfl, rfl⟩
  | cons act acts ih =>
    simp [Act.paragraphs, Act.mergedParagraphs, Act.lines, Act.merged, ih.1, ih.2]

theorem lines_seamsOf (descend : Descend top runs) (low : record.start ≤ top)
    (high : lineBehind top runs ≤ record.stop) :
    (seamsOf lines record top runs).lines = linesFrom lines record.start record.stop := by
  have behind := descend.start_le
  rw [Seams.lines, seamsOf, (flatten_paragraphs _ _).1, lines_actsFrom descend,
    linesFrom_append lines low behind, linesFrom_append lines (Nat.le_trans low behind) high]

/-- The lines of a record with its runs merged are its own, and the calls of the groups. -/
theorem mem_mergedRecord {line : String} (descend : Descend top runs) (low : record.start ≤ top)
    (high : lineBehind top runs ≤ record.stop)
    (member : line ∈ mergedRecord lines record top runs) :
    line ∈ linesFrom lines record.start record.stop ∨ ∃ run ∈ runs, line = callOf lines run := by
  have among (held : line ∈ (actsFrom lines top runs).flatMap (Act.merged lines)) :
      line ∈ (actsFrom lines top runs).flatMap (Act.lines lines) ∨
        ∃ run ∈ runs, line = callOf lines run := by
    obtain ⟨act, present, held⟩ := List.mem_flatMap.mp held
    rcases List.mem_append.mp held with other | held
    · exact .inl (List.mem_flatMap.mpr ⟨act, present, List.mem_append_left _ other⟩)
    · rcases List.mem_append.mp held with comment | call
      · have inside := (List.mem_filter.mp comment).1
        exact .inl (List.mem_flatMap.mpr ⟨act, present, List.mem_append_right _ inside⟩)
      · right
        refine ⟨act.run, ?_, List.mem_singleton.mp call⟩
        rw [← runs_actsFrom lines top runs]
        exact List.mem_map_of_mem present
  rw [← lines_seamsOf descend low high, Seams.lines, seamsOf, (flatten_paragraphs _ _).1]
  rcases List.mem_append.mp member with upper | behind
  · rcases List.mem_append.mp upper with front | held
    · exact .inl (by simp [front])
    · exact (among held).imp_left fun inside => by simp [inside]
  · exact .inl (by simp [behind])

theorem ofFields_recast {before behind : List Member}
    (free : ∀ member ∈ behind, member.sets "steps" = false)
    (recast : Recast elements elements' runs)
    (made : Vignette.ofFields (fieldsOf (objectOf
      (before ++ .entry "steps" (.list elements) :: behind))) = .ok vignette) :
    ∃ steps, Regrouped vignette.steps steps runs ∧
      Vignette.ofFields (fieldsOf (objectOf
        (before ++ .entry "steps" (.list elements') :: behind))) =
          .ok { vignette with steps := steps } := by
  obtain ⟨reading, read, rfl⟩ := ofFields_iff.mp made
  rw [elementsOf_objectOf free] at read
  obtain ⟨steps, read', regrouped⟩ := readElements_recast recast read
  refine ⟨steps, regrouped, ?_⟩
  rw [← elementsOf_objectOf free elements'] at read'
  rw [ofFields_steps (Agree.of_members before behind).others made read']
  simp only [get?_steps before free, itemsOrName_list]

/-- The record with its runs merged is read as the same vignette but for the steps of its runs,
which are regrouped. -/
theorem read_staged (staged : Staged lines record top runs)
    (sound : ∀ run ∈ runs, IsRun lines run) (descend : Descend top runs)
    (high : lineBehind top runs < record.stop) (inside : record.stop ≤ lines.length)
    (read : readLiteral (recordText (join "\n" (linesFrom lines record.start record.stop))) =
      .ok value)
    (made : Vignette.ofFields (fieldsOf value) = .ok vignette) :
    ∃ value' steps,
      readLiteral (recordText (join "\n" (mergedRecord lines record top runs))) = .ok value' ∧
      Regrouped vignette.steps steps runs ∧
      Vignette.ofFields (fieldsOf value') = .ok { vignette with steps := steps } := by
  have acts : ∀ act ∈ actsFrom lines top runs, act.Sound lines := by
    intro act member
    have known : act.run ∈ runs := by
      rw [← runs_actsFrom lines top runs]
      exact List.mem_map_of_mem member
    exact ⟨sound _ known, staged.plain _ known, staged.whole _ known⟩
  obtain ⟨values, elements⟩ : ∃ values,
      paragraphElements? (seamsOf lines record top runs).paragraphs = some values ∧
        Seams.Holds (seamsOf lines record top runs).paragraphs.flatten values
          (seamsOf lines record top runs).back := by
    rcases staged.elements with whole | ⟨known, closes⟩
    · exact ⟨_, paragraphElements?_of_whole whole, Seams.holds_of_whole whole _⟩
    · obtain ⟨values, elements⟩ := Option.isSome_iff_exists.mp known
      exact ⟨values, elements, Seams.holds_of_bracket elements closes⟩
  obtain ⟨elements, holds⟩ := elements
  obtain ⟨whole', recast⟩ := recast_acts acts elements
  have ends : (seamsOf lines record top runs).back ≠ [] := by
    intro none
    have length : (linesFrom lines (lineBehind top runs) record.stop).length = 0 :=
      congrArg List.length none
    rw [linesFrom, List.length_drop, List.length_take] at length
    omega
  have merged : mergedRecord lines record top runs = (seamsOf lines record top runs).front ++
      ((actsFrom lines top runs).flatMap (Act.mergedParagraphs lines)).flatten ++
        (seamsOf lines record top runs).back := by
    rw [(flatten_paragraphs _ _).2]
    rfl
  rw [← lines_seamsOf descend staged.low (Nat.le_of_lt high)] at read
  obtain ⟨first, last, before, behind, free, rfl, read'⟩ :=
    Seams.read_exchange staged.leads staged.settled ends holds (Seams.holds_of_whole whole' _) read
  rw [runs_actsFrom] at recast
  obtain ⟨steps, regrouped, made'⟩ :=
    ofFields_recast free ((recast.keeps_end last).keeps first) made
  refine ⟨_, steps, ?_, regrouped, made'⟩
  rw [merged]
  exact read'

end Records

end Stagecraft
