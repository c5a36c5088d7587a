import Mathlib.Data.List.Nodup
import Mathlib.Logic.Function.Iterate
import Stagecraft.Buffer.Marks
import Stagecraft.Proofs.Buffer.Splice

/-!
What a span holds after any edits. Every line gets an identity that a deletion removes, an
insertion creates and a replacement keeps. As long as a span is good, it holds just the lines that
belong to it, in their order: those it was made for that are left, and those that were put strictly
inside it by insertions that carried it along.
-/

namespace Stagecraft

/-- A call that changes the lines, with the names of the spans that it carries along. -/
inductive Edit where
  | delete (start stop : Nat) (tracked : List String)
  | insert (index : Nat) (texts : List String) (tracked : List String)
  | replace (index : Nat) (text : String)

namespace Edit

def tracked : Edit → List String
  | delete _ _ names | insert _ _ names => names
  | replace _ _ => []

def apply (marked : MarkedBuffer) : Edit → Except Fault MarkedBuffer
  | delete start stop names => (marked.delete start stop names).map (·.1)
  | insert index texts names => (marked.insert index texts names).map (·.1)
  | replace index text => marked.replace index text

end Edit

/-- A line and its identity. -/
structure NamedLine where
  id : Nat
  text : String

/-- New lines, with identities from `fresh` on. -/
def nameLines (fresh : Nat) (texts : List String) : List NamedLine :=
  (texts.zipIdx fresh).map fun (text, id) => ⟨id, text⟩

/-- A buffer whose lines have identities below `fresh`; `members` are the identities of the lines
that belong to the span under watch. -/
structure Watch where
  marked : MarkedBuffer
  lines : List NamedLine
  fresh : Nat
  members : List Nat

namespace Watch

variable (name : String)

/-- The span is made for the lines from `start` up to `stop`. -/
def begin (marked : MarkedBuffer) (start stop : Nat) : Watch :=
  ⟨marked.mark name start stop, nameLines 0 marked.buffer.lines, marked.buffer.lines.length,
    List.range' start (stop - start)⟩

def span? (watch : Watch) : Option Span := watch.marked.marks.lookup name

def relabel (watch : Watch) : Edit → List NamedLine
  | .delete start stop _ => if stop ≤ start then watch.lines else cutLines start stop watch.lines
  | .insert index texts _ => putLines index (nameLines watch.fresh texts) watch.lines
  | .replace index text => watch.lines.modify index fun line => { line with text }

def created (watch : Watch) : Edit → List Nat
  | .insert _ texts _ => List.range' watch.fresh texts.length
  | .delete _ _ _ | .replace _ _ => []

/-- The insertion carries the span along and puts its lines strictly inside. -/
def isInside (watch : Watch) : Edit → Bool
  | .insert index _ names =>
    names.contains name &&
      (watch.span? name).any fun span => span.start < index && index < span.stop
  | .delete _ _ _ | .replace _ _ => false

/-- An edit that is refused changes nothing. -/
def step (watch : Watch) (edit : Edit) : Watch :=
  match edit.apply watch.marked with
  | .error _ => watch
  | .ok marked =>
    ⟨marked, watch.relabel edit, watch.fresh + (watch.created edit).length,
      watch.members ++ if watch.isInside name edit then watch.created edit else []⟩

def run (watch : Watch) (edits : List Edit) : Watch := edits.foldl (step name) watch

def ids (watch : Watch) : List Nat := watch.lines.map (·.id)

/-- The lines at the places of a span. -/
def slice (watch : Watch) (span : Span) : List NamedLine :=
  (watch.lines.take span.stop).drop span.start

/-- The lines that belong to the span, from top to bottom. -/
def belonging (watch : Watch) : List NamedLine :=
  watch.lines.filter fun line => watch.members.contains line.id

/-- The names stand for the lines of the buffer, and each for one of them. -/
structure Names (watch : Watch) : Prop where
  texts : watch.lines.map (·.text) = watch.marked.buffer.lines
  distinct : watch.ids.Nodup
  below : ∀ id ∈ watch.ids, id < watch.fresh
  members_below : ∀ id ∈ watch.members, id < watch.fresh

/-- As long as the span is good, the members are the lines at its places. -/
structure Keeps (watch : Watch) (span : Span) : Prop where
  found : watch.span? name = some span
  known : span.revision ≤ watch.marked.buffer.revision
  clasped : watch.marked.buffer.isValid span →
    Clasps (· ∈ watch.members) watch.ids span.start span.stop

end Watch

namespace Buffer

theorem isValid_record {lines later : List String} {edits : List Nat} {span : Span} {place : Nat}
    (known : span.revision ≤ edits.length) :
    (⟨later, edits ++ [place]⟩ : Buffer).isValid span =
      ((⟨lines, edits⟩ : Buffer).isValid span && decide (span.stop ≤ place)) := by
  simp [isValid, List.drop_append_of_le_length known]

end Buffer

namespace MarkedBuffer

variable {marked after : MarkedBuffer} {name : String} {names : List String}

theorem lookup_map (marks : Entries Span) (move : String → Span → Span) (name : String) :
    (marks.map fun entry => (entry.1, move entry.1 entry.2)).lookup name =
      (marks.lookup name).map (move name) := by
  induction marks with
  | nil => rfl
  | cons entry others ih =>
    obtain ⟨key, span⟩ := entry
    simp only [List.map_cons, List.lookup_cons]
    by_cases here : name = key
    · subst here
      simp
    · simpa [beq_eq_false_iff_ne.mpr here] using ih

theorem lookup_shift (marks : Entries Span) (move : Span → Span) (names : List String)
    (name : String) :
    (shift marks move names).lookup name = (marks.lookup name).map (move^[names.count name]) := by
  induction names generalizing marks with
  | nil => simp [shift]
  | cons first rest ih =>
    have moved := lookup_map marks (fun key span => if key = first then move span else span) name
    simp only [shift, List.foldl_cons] at ih ⊢
    rw [ih, moved, Option.map_map, List.count_cons]
    congr 1
    funext span
    by_cases same : first = name
    · subst same
      simp
    · have other : ¬ name = first := fun h => same h.symm
      simp [same, other]

theorem find_eq_ok {span : Span} :
    marked.find name = .ok span ↔ marked.marks.lookup name = some span := by
  cases found : marked.marks.lookup name <;> simp [find, found]

/-- Reading the spans of names succeeds when all names are known. -/
theorem mapM_find_eq_ok {spans : List Span} :
    names.mapM marked.find = .ok spans ↔
      names.map (fun name => marked.marks.lookup name) = spans.map some := by
  induction names generalizing spans with
  | nil => cases spans <;> simp [pure, Except.pure]
  | cons first rest ih =>
    rw [List.mapM_cons, List.map_cons]
    cases head : marked.marks.lookup first with
    | none =>
      have absent : marked.find first = .error (.misuse .unknownKey) := by simp [find, head]
      cases spans <;> simp [absent, bind, Except.bind]
    | some span =>
      rw [find_eq_ok.mpr head]
      cases spans with
      | nil => cases tail : rest.mapM marked.find <;> simp [bind, Except.bind, pure, Except.pure]
      | cons other others =>
        rw [List.map_cons, List.cons.injEq, ← ih]
        cases tail : rest.mapM marked.find <;> simp [bind, Except.bind, pure, Except.pure]

end MarkedBuffer

namespace Buffer

variable {buffer : Buffer} {spans : List Span}

theorem require_eq_ok {span : Span} :
    buffer.require span = .ok () ↔ buffer.isValid span = true := by
  simp only [require]
  split <;> simp_all

theorem requireAll_eq_ok :
    buffer.requireAll spans = .ok () ↔ ∀ span ∈ spans, buffer.isValid span = true := by
  induction spans with
  | nil => simp [requireAll]
  | cons span rest ih =>
    rw [List.forall_mem_cons, ← ih, ← require_eq_ok, requireAll]
    cases buffer.require span <;> simp [bind, Except.bind]

end Buffer

namespace MarkedBuffer

variable {marked : MarkedBuffer} {names : List String}

/-- Names that are all known have their spans. -/
theorem exists_spans (known : ∀ name ∈ names, (marked.marks.lookup name).isSome) :
    ∃ spans, names.mapM marked.find = .ok spans := by
  induction names with
  | nil => exact ⟨[], rfl⟩
  | cons first rest ih =>
    obtain ⟨span, found⟩ := Option.isSome_iff_exists.mp (known first (by simp))
    obtain ⟨spans, read⟩ := ih fun name present => known name (List.mem_cons_of_mem first present)
    refine ⟨span :: spans, mapM_find_eq_ok.mpr ?_⟩
    rw [List.map_cons, found, mapM_find_eq_ok.mp read, List.map_cons]

theorem requireAll_of_mapM {spans : List Span} (read : names.mapM marked.find = .ok spans) :
    marked.requireAll names = liftFault .stale (marked.buffer.requireAll spans) := by
  simp [requireAll, read, bind, Except.bind]

theorem valid_of_requireAll (checked : marked.requireAll names = .ok ()) {name : String}
    (present : name ∈ names) {span : Span} (found : marked.marks.lookup name = some span) :
    marked.buffer.isValid span = true := by
  cases read : names.mapM marked.find with
  | error fault => simp [requireAll, read, bind, Except.bind] at checked
  | ok spans =>
    rw [requireAll_of_mapM read] at checked
    have good : marked.buffer.requireAll spans = .ok () := by
      cases all : marked.buffer.requireAll spans with
      | error stale => simp [all, liftFault] at checked
      | ok _ => rfl
    have listed : some span ∈ spans.map some := by
      rw [← mapM_find_eq_ok.mp read, ← found]
      exact List.mem_map_of_mem present
    exact Buffer.requireAll_eq_ok.mp good span (by simpa using listed)

/-- A stale span among those that an edit names makes it fail. -/
theorem requireAll_stale (known : ∀ name ∈ names, (marked.marks.lookup name).isSome)
    {name : String} (present : name ∈ names) {span : Span}
    (found : marked.marks.lookup name = some span) (stale : marked.buffer.isValid span = false) :
    ∃ fault, marked.requireAll names = .error (.stale fault) := by
  obtain ⟨spans, read⟩ := exists_spans known
  rw [requireAll_of_mapM read]
  cases all : marked.buffer.requireAll spans with
  | error fault => exact ⟨fault, rfl⟩
  | ok _ =>
    have good := valid_of_requireAll (by rw [requireAll_of_mapM read, all]; rfl) present found
    rw [stale] at good
    cases good

end MarkedBuffer

namespace Edit

variable {marked after : MarkedBuffer} {start stop index : Nat} {texts names : List String}
  {text : String}

theorem delete_ok (done : (delete start stop names).apply marked = .ok after) :
    marked.requireAll names = .ok () ∧
      after = if stop ≤ start then marked else
        ⟨marked.buffer.deleteLines start stop, MarkedBuffer.shift marked.marks
          (·.afterDelete start stop (marked.buffer.revision + 1)) names⟩ := by
  simp only [apply, MarkedBuffer.delete] at done
  cases checked : marked.requireAll names with
  | error fault => simp [checked, bind, Except.bind, Except.map] at done
  | ok _ =>
    refine ⟨rfl, ?_⟩
    by_cases empty : stop ≤ start <;>
      simp [checked, empty, bind, Except.bind, Except.map, pure, Except.pure] at done ⊢ <;>
      exact done.symm

theorem insert_ok (done : (insert index texts names).apply marked = .ok after) :
    marked.requireAll names = .ok () ∧
      after = if texts.isEmpty then marked else
        ⟨marked.buffer.insertLines index texts, MarkedBuffer.shift marked.marks
          (·.afterInsert index texts.length (marked.buffer.revision + 1)) names⟩ := by
  simp only [apply, MarkedBuffer.insert] at done
  cases checked : marked.requireAll names with
  | error fault => simp [checked, bind, Except.bind, Except.map] at done
  | ok _ =>
    refine ⟨rfl, ?_⟩
    cases empty : texts.isEmpty <;>
      simp [checked, empty, bind, Except.bind, Except.map, pure, Except.pure] at done ⊢ <;>
      exact done.symm

theorem replace_ok (done : (replace index text).apply marked = .ok after) :
    after = { marked with buffer := marked.buffer.replace index text } := by
  simp only [apply, MarkedBuffer.replace] at done
  cases present : marked.line index <;> simp_all [bind, Except.bind, pure, Except.pure]

/-- An edit that names a stale span fails. -/
theorem apply_stale {edit : Edit} {name : String} {span : Span}
    (known : ∀ name ∈ edit.tracked, (marked.marks.lookup name).isSome)
    (present : name ∈ edit.tracked) (found : marked.marks.lookup name = some span)
    (stale : marked.buffer.isValid span = false) :
    ∃ fault, edit.apply marked = .error (.stale fault) := by
  obtain ⟨fault, refused⟩ := MarkedBuffer.requireAll_stale known present found stale
  refine ⟨fault, ?_⟩
  cases edit with
  | delete start stop names =>
    simp only [tracked] at refused
    simp [apply, MarkedBuffer.delete, refused, bind, Except.bind, Except.map]
  | insert index texts names =>
    simp only [tracked] at refused
    simp [apply, MarkedBuffer.insert, refused, bind, Except.bind, Except.map]
  | replace index text => simp [tracked] at present

end Edit

namespace Watch

variable {name : String} {watch : Watch}

theorem map_text_nameLines (fresh : Nat) (texts : List String) :
    (nameLines fresh texts).map (·.text) = texts := by
  simp [nameLines, List.map_map, Function.comp_def, ← List.unzip_fst]

theorem map_id_nameLines (fresh : Nat) (texts : List String) :
    (nameLines fresh texts).map (·.id) = List.range' fresh texts.length := by
  simp [nameLines, List.map_map, Function.comp_def]

theorem step_of_ok {edit : Edit} {after : MarkedBuffer}
    (done : edit.apply watch.marked = .ok after) :
    watch.step name edit =
      ⟨after, watch.relabel edit, watch.fresh + (watch.created edit).length,
        watch.members ++ if watch.isInside name edit then watch.created edit else []⟩ := by
  simp only [step, done]

theorem step_of_error {edit : Edit} {fault : Fault}
    (refused : edit.apply watch.marked = .error fault) : watch.step name edit = watch := by
  simp only [step, refused]

/-- What is created has identities from `fresh` on. -/
theorem mem_created {edit : Edit} {id : Nat} (new : id ∈ watch.created edit) :
    watch.fresh ≤ id ∧ id < watch.fresh + (watch.created edit).length := by
  cases edit with
  | insert index texts names =>
    simp only [created, List.mem_range'_1, List.length_range'] at new ⊢
    exact new
  | delete start stop names => simp [created] at new
  | replace index text => simp [created] at new

theorem map_text_modify (index : Nat) (text : String) (lines : List NamedLine) :
    (lines.modify index fun line => { line with text }).map (·.text) =
      (lines.map (·.text)).set index text := by
  induction lines generalizing index with
  | nil => simp
  | cons line rest ih => cases index <;> simp [ih]

theorem map_id_modify (index : Nat) (text : String) (lines : List NamedLine) :
    (lines.modify index fun line => { line with text }).map (·.id) = lines.map (·.id) := by
  induction lines generalizing index with
  | nil => simp
  | cons line rest ih => cases index <;> simp [ih]

theorem texts_relabel (names : Names watch) {edit : Edit} {after : MarkedBuffer}
    (done : edit.apply watch.marked = .ok after) :
    (watch.relabel edit).map (·.text) = after.buffer.lines := by
  cases edit with
  | delete start stop tracked =>
    obtain ⟨-, rfl⟩ := Edit.delete_ok done
    by_cases empty : stop ≤ start
    · simpa [relabel, empty] using names.texts
    · simp only [relabel, empty, if_false, cutLines_map, names.texts]
      rfl
  | insert index texts tracked =>
    obtain ⟨-, rfl⟩ := Edit.insert_ok done
    simp only [relabel, putLines_map, map_text_nameLines, names.texts]
    by_cases empty : texts = []
    · simp [empty, putLines_nil]
    · simp only [List.isEmpty_iff, empty, if_false]
      rfl
  | replace index text =>
    rw [Edit.replace_ok done]
    simp only [relabel, map_text_modify, names.texts]
    rfl

/-- The identities after an edit: some are cut out, or new ones are put in. -/
def idsAfter (watch : Watch) (edit : Edit) : List Nat :=
  match edit with
  | .delete start stop _ => if stop ≤ start then watch.ids else cutLines start stop watch.ids
  | .insert index _ _ => putLines index (watch.created edit) watch.ids
  | .replace _ _ => watch.ids

theorem map_id_relabel (watch : Watch) (edit : Edit) :
    (watch.relabel edit).map (·.id) = watch.idsAfter edit := by
  cases edit with
  | delete start stop tracked =>
    simp only [relabel, idsAfter, ids]
    split
    · rfl
    · rw [cutLines_map]
  | insert index texts tracked =>
    simp only [relabel, idsAfter, ids, created, putLines_map, map_id_nameLines]
  | replace index text => simp only [relabel, idsAfter, ids, map_id_modify]

/-- An edit keeps the identities apart. -/
theorem nodup_idsAfter (names : Names watch) (edit : Edit) : (watch.idsAfter edit).Nodup := by
  cases edit with
  | delete start stop tracked =>
    simp only [idsAfter]
    split
    · exact names.distinct
    · exact names.distinct.sublist (cutLines_sublist (by omega) _)
  | insert index texts tracked =>
    simp only [idsAfter]
    rw [(putLines_perm _ _ _).nodup_iff, List.nodup_append]
    refine ⟨by simp [created, List.nodup_range'], names.distinct, ?_⟩
    rintro id new other old rfl
    exact absurd (names.below id old) (Nat.not_lt.mpr (mem_created new).1)
  | replace index text => exact names.distinct

theorem mem_idsAfter {edit : Edit} {id : Nat} (present : id ∈ watch.idsAfter edit) :
    id ∈ watch.created edit ∨ id ∈ watch.ids := by
  cases edit with
  | delete start stop tracked =>
    simp only [idsAfter] at present
    split at present
    · exact .inr present
    · exact .inr ((cutLines_sublist (by omega) _).subset present)
  | insert index texts tracked => exact mem_putLines.mp present
  | replace index text => exact .inr present

theorem names_step (names : Names watch) (edit : Edit) : Names (watch.step name edit) := by
  cases done : edit.apply watch.marked with
  | error fault => rwa [step_of_error done]
  | ok after =>
    rw [step_of_ok done]
    refine ⟨texts_relabel names done, ?_, ?_, ?_⟩
    · rw [ids, map_id_relabel]
      exact nodup_idsAfter names edit
    · intro id present
      rw [ids, map_id_relabel] at present
      rcases mem_idsAfter present with new | old
      · exact (mem_created new).2
      · exact Nat.lt_add_right _ (names.below id old)
    · intro id member
      rcases List.mem_append.mp member with old | new
      · exact Nat.lt_add_right _ (names.members_below id old)
      · split at new
        · exact (mem_created new).2
        · cases new

theorem created_foreign (names : Names watch) (edit : Edit) :
    ∀ id ∈ watch.created edit, ¬ id ∈ watch.members := by
  intro id new member
  exact absurd (names.members_below id member) (Nat.not_lt.mpr (mem_created new).1)

/-- New members make no difference for the lines that were there. -/
theorem clasps_created (names : Names watch) {first last : Nat} (edit : Edit)
    (clasps : Clasps (· ∈ watch.members) watch.ids first last) :
    Clasps (· ∈ watch.members ++ watch.created edit) watch.ids first last := by
  apply clasps.congr
  intro id present
  have absent : id ∉ watch.created edit := fun new =>
    absurd (names.below id present) (Nat.not_lt.mpr (mem_created new).1)
  simp [absent]

/-- What the marks say of the span after an edit with one move. -/
theorem lookup_shift_once (move : Span → Span) {marks : Entries Span} {tracked : List String}
    {span : Span} (found : marks.lookup name = some span) (once : tracked.count name ≤ 1) :
    (MarkedBuffer.shift marks move tracked).lookup name =
      some (if name ∈ tracked then move span else span) := by
  rw [MarkedBuffer.lookup_shift, found, Option.map_some]
  by_cases carried : name ∈ tracked
  · have one : tracked.count name = 1 := by
      have positive := List.count_pos_iff.mpr carried
      omega
    simp [carried, one]
  · simp [carried, List.count_eq_zero_of_not_mem carried]

theorem keeps_delete {span : Span} (keeps : Keeps name watch span)
    {start stop : Nat} {tracked : List String} {after : MarkedBuffer}
    (once : tracked.count name ≤ 1)
    (done : (Edit.delete start stop tracked).apply watch.marked = .ok after) :
    ∃ moved, Keeps name (watch.step name (.delete start stop tracked)) moved := by
  have same : watch.members ++
      (if watch.isInside name (.delete start stop tracked) then
        watch.created (.delete start stop tracked) else []) = watch.members := by
    simp [isInside]
  have ids := map_id_relabel watch (.delete start stop tracked)
  rw [step_of_ok done, same]
  obtain ⟨checked, rfl⟩ := Edit.delete_ok done
  by_cases empty : stop ≤ start
  · simp only [empty, if_true]
    simp only [idsAfter, empty, if_true] at ids
    exact ⟨span, keeps.found, keeps.known, fun valid => by
      simpa only [Watch.ids, ids] using keeps.clasped valid⟩
  · have forward : start < stop := Nat.lt_of_not_le empty
    simp only [empty, if_false]
    simp only [idsAfter, empty, if_false] at ids
    have marks := lookup_shift_once
      (·.afterDelete start stop (watch.marked.buffer.revision + 1)) keeps.found once
    by_cases carried : name ∈ tracked
    · rw [if_pos carried] at marks
      have good := MarkedBuffer.valid_of_requireAll checked carried keeps.found
      refine ⟨_, marks, by simp [Span.afterDelete], fun _ => ?_⟩
      simp only [Watch.ids, ids]
      exact (keeps.clasped good).cut forward
    · rw [if_neg carried] at marks
      refine ⟨_, marks, by simpa using Nat.le_succ_of_le keeps.known, fun valid => ?_⟩
      rw [Buffer.deleteLines, Buffer.isValid_record keeps.known, Bool.and_eq_true,
        decide_eq_true_eq] at valid
      simp only [Watch.ids, ids]
      exact (keeps.clasped valid.1).cut_behind forward valid.2

theorem keeps_insert (names : Names watch) {span : Span} (keeps : Keeps name watch span)
    {index : Nat} {texts tracked : List String} {after : MarkedBuffer}
    (once : tracked.count name ≤ 1)
    (done : (Edit.insert index texts tracked).apply watch.marked = .ok after) :
    ∃ moved, Keeps name (watch.step name (.insert index texts tracked)) moved := by
  have ids := map_id_relabel watch (.insert index texts tracked)
  have size : (watch.created (.insert index texts tracked)).length = texts.length := by
    simp [created]
  have foreign := created_foreign names (.insert index texts tracked)
  simp only [idsAfter] at ids
  rw [step_of_ok done]
  generalize joined : (if watch.isInside name (.insert index texts tracked) then
    watch.created (.insert index texts tracked) else []) = more
  obtain ⟨checked, rfl⟩ := Edit.insert_ok done
  by_cases empty : texts = []
  · have none : watch.created (.insert index texts tracked) = [] := by simp [created, empty]
    have same : more = [] := by
      rw [← joined, none]
      split <;> rfl
    rw [none, putLines_nil] at ids
    simp only [List.isEmpty_iff, empty, if_true] at ids ⊢
    exact ⟨span, keeps.found, keeps.known, fun valid => by
      simpa only [Watch.ids, ids, same, List.append_nil] using keeps.clasped valid⟩
  · simp only [List.isEmpty_iff, empty, if_false]
    have marks := lookup_shift_once
      (·.afterInsert index texts.length (watch.marked.buffer.revision + 1)) keeps.found once
    by_cases carried : name ∈ tracked
    · rw [if_pos carried] at marks
      have good := MarkedBuffer.valid_of_requireAll checked carried keeps.found
      refine ⟨_, marks, by simp [Span.afterInsert], fun _ => ?_⟩
      simp only [Watch.ids, ids, Span.afterInsert]
      have inner : watch.isInside name (.insert index texts tracked) =
          (decide (span.start < index) && decide (index < span.stop)) := by
        simp [isInside, carried, keeps.found]
      by_cases inside : span.start < index ∧ index < span.stop
      · have all : more = watch.created (.insert index texts tracked) := by
          rw [← joined, inner]
          simp [inside.1, inside.2]
        subst all
        have clasps := clasps_created names (.insert index texts tracked) (keeps.clasped good)
        rw [if_neg (Nat.not_le.mpr inside.1), if_pos inside.2, ← size]
        apply clasps.put_inside _ inside.1 inside.2
        intro id new
        exact List.mem_append_right _ new
      · have none : more = [] := by
          rw [← joined, inner]
          simp only [Bool.and_eq_true, decide_eq_true_eq, inside, if_false]
        rw [none, List.append_nil]
        by_cases front : index ≤ span.start
        · rw [if_pos front, ← size]
          exact (keeps.clasped good).put_front foreign front
        · have behind : span.stop ≤ index := by omega
          rw [if_neg front, if_neg (Nat.not_lt.mpr behind)]
          exact (keeps.clasped good).put_behind foreign behind
    · rw [if_neg carried] at marks
      have none : more = [] := by
        rw [← joined]
        simp [isInside, carried]
      rw [none, List.append_nil]
      refine ⟨_, marks, by simpa using Nat.le_succ_of_le keeps.known, fun valid => ?_⟩
      rw [Buffer.insertLines, Buffer.isValid_record keeps.known, Bool.and_eq_true,
        decide_eq_true_eq] at valid
      simp only [Watch.ids, ids]
      exact (keeps.clasped valid.1).put_behind foreign valid.2

theorem keeps_replace {span : Span} (keeps : Keeps name watch span) {index : Nat} {text : String}
    {after : MarkedBuffer} (done : (Edit.replace index text).apply watch.marked = .ok after) :
    Keeps name (watch.step name (.replace index text)) span := by
  have ids := map_id_relabel watch (.replace index text)
  rw [step_of_ok done, Edit.replace_ok done]
  refine ⟨keeps.found, keeps.known, fun valid => ?_⟩
  simpa [Watch.ids, ids, idsAfter, isInside] using keeps.clasped valid

theorem keeps_step (names : Names watch) {span : Span} (keeps : Keeps name watch span)
    {edit : Edit} (once : edit.tracked.count name ≤ 1) :
    ∃ moved, Keeps name (watch.step name edit) moved := by
  cases done : edit.apply watch.marked with
  | error fault =>
    rw [step_of_error done]
    exact ⟨span, keeps⟩
  | ok after =>
    cases edit with
    | delete start stop tracked => exact keeps_delete keeps once done
    | insert index texts tracked => exact keeps_insert names keeps once done
    | replace index text => exact ⟨span, keeps_replace keeps done⟩

theorem keeps_run (names : Names watch) {span : Span} (keeps : Keeps name watch span)
    {edits : List Edit} (once : ∀ edit ∈ edits, edit.tracked.count name ≤ 1) :
    Names (watch.run name edits) ∧ ∃ moved, Keeps name (watch.run name edits) moved := by
  induction edits generalizing watch span with
  | nil => exact ⟨names, span, keeps⟩
  | cons edit rest ih =>
    obtain ⟨moved, next⟩ := keeps_step names keeps (once edit (by simp))
    exact ih (names_step names edit) next fun other later =>
      once other (List.mem_cons_of_mem edit later)

theorem names_begin (name : String) (marked : MarkedBuffer) {start stop : Nat}
    (within : stop ≤ marked.buffer.lines.length) : Names (begin name marked start stop) := by
  have ids : (begin name marked start stop).ids = List.range' 0 marked.buffer.lines.length :=
    map_id_nameLines 0 _
  refine ⟨map_text_nameLines 0 _, ?_, ?_, ?_⟩
  · rw [ids]
    exact List.nodup_range'
  · intro id present
    rw [ids, List.mem_range'_1] at present
    simpa [begin] using present.2
  · intro id member
    simp only [begin, List.mem_range'_1] at member ⊢
    omega

theorem keeps_begin (name : String) (marked : MarkedBuffer) {start stop : Nat}
    (filled : start < stop)
    (within : stop ≤ marked.buffer.lines.length) :
    Keeps name (begin name marked start stop) (marked.buffer.span start stop) := by
  refine ⟨by simp [span?, begin, MarkedBuffer.mark, Entries.lookup_put], Nat.le_refl _,
    fun _ => ?_⟩
  have ids : (begin name marked start stop).ids = List.range' 0 start ++
      List.range' start (stop - start) ++
        List.range' stop (marked.buffer.lines.length - stop) := by
    have whole : (begin name marked start stop).ids = List.range' 0 marked.buffer.lines.length :=
      map_id_nameLines 0 _
    have upper := @List.range'_append_1 0 start (stop - start)
    have all := @List.range'_append_1 0 stop (marked.buffer.lines.length - stop)
    rw [Nat.zero_add, Nat.add_sub_cancel' (Nat.le_of_lt filled)] at upper
    rw [Nat.zero_add, Nat.add_sub_cancel' within] at all
    rw [whole, upper, all]
  refine ⟨_, _, _, ids, ?_, ?_, ?_, .inl ⟨by simp [Buffer.span], ?_⟩⟩
  · intro id present member
    simp only [begin, List.mem_range'_1] at present member
    omega
  · exact fun id present => present
  · intro id present member
    simp only [begin, List.mem_range'_1] at present member
    omega
  · simp only [Buffer.span, List.length_range']
    omega

/-- The first lines that are left stand in the order they had. -/
theorem sorted_step (name : String) {first : Nat} (early : first ≤ watch.fresh)
    (sorted : (watch.ids.filter (· < first)).Pairwise (· < ·)) (edit : Edit) :
    first ≤ (watch.step name edit).fresh ∧
      ((watch.step name edit).ids.filter (· < first)).Pairwise (· < ·) := by
  cases done : edit.apply watch.marked with
  | error fault => rw [step_of_error done]; exact ⟨early, sorted⟩
  | ok after =>
    rw [step_of_ok done]
    refine ⟨Nat.le_add_right_of_le early, ?_⟩
    rw [ids, map_id_relabel]
    cases edit with
    | delete start stop tracked =>
      simp only [idsAfter]
      split
      · exact sorted
      · exact sorted.sublist ((cutLines_sublist (by omega) _).filter _)
    | insert index texts tracked =>
      have none : (watch.created (.insert index texts tracked)).filter (· < first) = [] := by
        rw [List.filter_eq_nil_iff]
        intro id new
        have late := (mem_created new).1
        simpa using Nat.le_trans early late
      simp only [idsAfter, putLines, List.filter_append, none, List.append_nil]
      rwa [← List.filter_append, List.take_append_drop]
    | replace index text => exact sorted

theorem sorted_run (name : String) {first : Nat} (early : first ≤ watch.fresh)
    (sorted : (watch.ids.filter (· < first)).Pairwise (· < ·)) (edits : List Edit) :
    ((watch.run name edits).ids.filter (· < first)).Pairwise (· < ·) := by
  induction edits generalizing watch with
  | nil => exact sorted
  | cons edit rest ih =>
    obtain ⟨still, next⟩ := sorted_step name early sorted edit
    exact ih still next

/-- A span that is good after any edits holds just the lines that belong to it, in their order; and
an edit that names a span which is not good fails and changes nothing. No call names the span
under watch twice: it would move twice. -/
theorem slice_eq_belonging (name : String) (marked : MarkedBuffer) {start stop : Nat}
    (filled : start < stop) (within : stop ≤ marked.buffer.lines.length) (edits : List Edit)
    (once : ∀ edit ∈ edits, edit.tracked.count name ≤ 1) :
    let watch := (begin name marked start stop).run name edits
    (watch.lines.map (·.text) = watch.marked.buffer.lines ∧ watch.ids.Nodup ∧
      (watch.ids.filter (· < marked.buffer.lines.length)).Pairwise (· < ·)) ∧
    (∃ span, watch.span? name = some span ∧ (watch.marked.buffer.isValid span = true →
      watch.slice span = watch.belonging ∧
        watch.marked.buffer.spanLines span = watch.belonging.map (·.text))) ∧
    ∀ (edit : Edit) (other : String) (stale : Span),
      (∀ known ∈ edit.tracked, (watch.span? known).isSome) → other ∈ edit.tracked →
      watch.span? other = some stale → watch.marked.buffer.isValid stale = false →
      ∃ fault, edit.apply watch.marked = .error (.stale fault) ∧ watch.step name edit = watch := by
  intro watch
  obtain ⟨names, span, keeps⟩ :=
    keeps_run (names_begin name marked within) (keeps_begin name marked filled within) once
  refine ⟨⟨names.texts, names.distinct, ?_⟩, ⟨span, keeps.found, fun valid => ?_⟩, ?_⟩
  · have ids : (begin name marked start stop).ids = List.range' 0 marked.buffer.lines.length :=
      map_id_nameLines 0 _
    have sorted : ((begin name marked start stop).ids.filter
        (· < marked.buffer.lines.length)).Pairwise (· < ·) := by
      rw [ids]
      exact List.Pairwise.filter _ List.pairwise_lt_range'
    exact sorted_run name (Nat.le_refl marked.buffer.lines.length) sorted edits
  · have slice : watch.slice span = watch.belonging := by
      have held := (keeps.clasped valid).of_map.slice_eq_filter
      simpa [Watch.slice, Watch.belonging] using held
    refine ⟨slice, ?_⟩
    rw [← slice, Watch.slice, List.map_drop, List.map_take, names.texts]
    rfl
  · intro edit other stale known present found outdated
    obtain ⟨fault, refused⟩ := Edit.apply_stale known present found outdated
    exact ⟨fault, refused, step_of_error refused⟩

theorem slice_eq_belonging_mixed :
    let edits : List Edit :=
      [.insert 2 ["x", "y"] ["scene"], .delete 0 2 ["scene"], .insert 9 ["z"] []]
    let watch := (begin "scene" ⟨⟨["a", "b", "c", "d"], []⟩, []⟩ 1 3).run "scene" edits
    (∀ edit ∈ edits, edit.tracked.count "scene" ≤ 1) ∧
      watch.marked.buffer.isValid ⟨0, 3, 2⟩ = true ∧
        watch.marked.buffer.spanLines ⟨0, 3, 2⟩ = watch.belonging.map (·.text) := by
  intro edits watch
  have once : ∀ edit ∈ edits, edit.tracked.count "scene" ≤ 1 := by decide
  have good : watch.marked.buffer.isValid ⟨0, 3, 2⟩ = true := by decide
  obtain ⟨-, ⟨span, found, held⟩, -⟩ := slice_eq_belonging "scene"
    ⟨⟨["a", "b", "c", "d"], []⟩, []⟩ (by decide : 1 < 3) (by decide) edits once
  have moved : watch.span? "scene" = some ⟨0, 3, 2⟩ := by decide
  obtain rfl : span = ⟨0, 3, 2⟩ := Option.some.inj (found.symm.trans moved)
  exact ⟨once, good, (held good).2⟩

end Watch

end Stagecraft
