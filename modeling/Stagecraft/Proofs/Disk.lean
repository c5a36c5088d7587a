import Mathlib.Data.List.TakeWhile
import Stagecraft.Plan
import Stagecraft.Proofs.Edit.Steps

/-!
A file that was written is read back: the path leads to the same place as before, since there is no
directory on it that the file took the place of. Plans come apart at their binds.
-/

namespace Stagecraft

namespace Disk

variable {disk later : Disk} {place target start : Place} {node : Node} {path text : String}
  {segments : List String}

theorem node?_put_self (free : disk.node? target ≠ some .directory) :
    (disk.put target node).node? target = some node := by
  have inside : ¬ (isAbove target || target == root) = true := by
    intro special
    rw [node?, if_pos special] at free
    exact free rfl
  rw [node?, if_neg inside, put, List.lookup_cons, beq_self_eq_true]

theorem lookup_filter_ne (apart : place ≠ target) (nodes : List (Place × Node)) :
    (nodes.filter (·.1 != target)).lookup place = nodes.lookup place := by
  induction nodes with
  | nil => rfl
  | cons entry rest ih =>
    obtain ⟨other, node⟩ := entry
    rw [List.filter_cons, List.lookup_cons]
    by_cases same : other = target
    · have foreign : (place == other) = false := by
        rw [same]
        exact beq_eq_false_iff_ne.mpr apart
      rw [same, bne_self_eq_false, if_neg Bool.false_ne_true, ih, ← same, foreign]
    · have kept : (other != target) = true := bne_iff_ne.mpr same
      rw [kept, if_pos rfl, List.lookup_cons, ih]

theorem node?_put_ne (apart : place ≠ target) :
    (disk.put target node).node? place = disk.node? place := by
  have foreign : (place == target) = false := beq_eq_false_iff_ne.mpr apart
  rw [node?, node?, put, List.lookup_cons, foreign, lookup_filter_ne apart]

theorem requireDirectory_ok {u : Unit} :
    disk.requireDirectory place = .ok u ↔ disk.node? place = some .directory := by
  rw [requireDirectory]
  cases disk.node? place with
  | none => simp
  | some node => cases node <;> simp

/-- A way through directories does not change when a file is put where there is none. -/
theorem walk_put (free : disk.node? target ≠ some .directory)
    (walked : disk.walk start segments = .ok place) :
    (disk.put target node).walk start segments = .ok place := by
  induction segments generalizing start with
  | nil => exact walked
  | cons segment rest ih =>
    rw [walk] at walked ⊢
    cases required : disk.requireDirectory start with
    | error fault =>
      rw [required] at walked
      cases walked
    | ok u =>
      have here := requireDirectory_ok.mp required
      have apart : start ≠ target := by
        intro same
        exact free (same ▸ here)
      have required' : (disk.put target node).requireDirectory start = .ok u := by
        rw [requireDirectory_ok, node?_put_ne apart, here]
      rw [required] at walked
      rw [required']
      by_cases long : nameLimit < Path.byteCount segment
      · simp only [long, bind, Except.bind, if_true] at walked
        cases walked
      · simp only [long, bind, Except.bind, if_false] at walked ⊢
        exact ih walked

theorem placeForFile_ok (placed : disk.placeForFile path = .ok place) :
    disk.locate path = .ok place ∧ disk.node? place ≠ some .directory := by
  rw [placeForFile] at placed
  split at placed
  · obtain ⟨_, -, placed⟩ := Except.bind_ran.mp placed
    obtain ⟨_, -, placed⟩ := Except.bind_ran.mp placed
    obtain ⟨_, -, placed⟩ := Except.bind_ran.mp placed
    cases placed
  · obtain ⟨found, located, placed⟩ := Except.bind_ran.mp placed
    by_cases directory : disk.node? found = some .directory
    · simp [directory, bind, Except.bind, throw, throwThe, MonadExceptOf.throw] at placed
    · have other : (disk.node? found == some .directory) = false :=
        beq_eq_false_iff_ne.mpr directory
      rw [other] at placed
      cases placed
      exact ⟨located, directory⟩

/-- What was written is what is read. -/
theorem read_of_write (written : disk.write path text = .ok later) :
    later.read path = .ok text := by
  obtain ⟨place, placed, made⟩ := Except.bind_ran.mp written
  cases made
  obtain ⟨located, free⟩ := placeForFile_ok placed
  obtain ⟨_, required, walked⟩ := Except.bind_ran.mp located
  have again : (disk.put place (.file text)).locate path = .ok place :=
    Except.bind_ran.mpr ⟨(), required, walk_put free walked⟩
  refine Except.bind_ran.mpr ⟨place, again, ?_⟩
  rw [node?_put_self free]
  rfl

end Disk

namespace Plan

variable {α β : Type} {world : World}

theorem run_bind (plan : Plan α) (f : α → Plan β) :
    (plan.bind f).run world = (f (plan.run world).1).run (plan.run world).2 := by
  induction plan generalizing world with
  | done value => rfl
  | ask request next ih => exact ih _

end Plan

namespace Shell

variable {α β : Type} {x : Shell α} {f : α → Shell β} {world after : World} {a : α} {b : β}

/-- The answer of a command on a world, and the world it leaves. -/
def on (x : Shell α) (world : World) : Except Fault α × World := Plan.run x.run world

theorem bind_on_eq :
    (x >>= f).on world = (ExceptT.bindCont f (x.on world).1).run (x.on world).2 :=
  Plan.run_bind _ _

theorem bind_on_of_ok (ran : x.on world = (.ok a, after)) :
    (x >>= f).on world = (f a).on after := by
  rw [bind_on_eq, ran]
  rfl

theorem bind_on : (x >>= f).on world = (.ok b, after) ↔
    ∃ a middle, x.on world = (.ok a, middle) ∧ (f a).on middle = (.ok b, after) := by
  rw [bind_on_eq]
  cases x.on world with
  | mk answer middle =>
    cases answer with
    | error fault =>
      constructor
      · intro ran
        cases ran
      · intro ran
        obtain ⟨_, _, same, -⟩ := ran
        cases same
    | ok a =>
      constructor
      · intro ran
        exact ⟨a, middle, rfl, ran⟩
      · intro ran
        obtain ⟨_, _, same, ran⟩ := ran
        cases same
        exact ran

theorem pure_on {other : α} :
    (pure a : Shell α).on world = (.ok other, after) ↔ a = other ∧ world = after := by
  change ((Except.ok a : Except Fault α), world) = (.ok other, after) ↔ _
  rw [Prod.mk.injEq, Except.ok.injEq]

theorem read_on {path text : String} : (read path).on world = (.ok text, after) ↔
    world.disk.read path = .ok text ∧ after = world := by
  have answer : (read path).on world = ((world.disk.read path).mapError Fault.path, world) := rfl
  rw [answer]
  cases world.disk.read path with
  | error fault => simp [Except.mapError]
  | ok found => simp [Except.mapError, eq_comm]

/-- All parts can be written just when each of them can. -/
theorem writable_snd (parts : List String) : (writable parts).2 = parts.all isWhole := by
  rw [writable, Bool.eq_iff_iff, beq_iff_eq, List.all_eq_true, ← List.takeWhile_eq_self_iff]
  constructor
  · exact (List.takeWhile_prefix isWhole).eq_of_length
  · exact congrArg List.length

/-- All parts are written, unless one cannot be. -/
theorem writable_complete {parts : List String} {text : String}
    (complete : writable parts = (text, true)) : text = Stagecraft.join "" parts := by
  rw [writable, Prod.mk.injEq, beq_iff_eq] at complete
  obtain ⟨written, short⟩ := complete
  have whole : parts.takeWhile isWhole = parts :=
    (List.takeWhile_prefix isWhole).eq_of_length short
  rw [← written, whole]

/-- What a command writes is there afterwards. -/
theorem read_of_writeParts_on {path : String} {parts : List String} {u : Unit}
    (ran : (writeParts path parts).on world = (.ok u, after)) :
    after.disk.read path = .ok (Stagecraft.join "" parts) := by
  rw [writeParts] at ran
  cases shape : writable parts with
  | mk text complete =>
    rw [shape] at ran
    obtain ⟨_, middle, wrote, ends⟩ := bind_on.mp ran
    cases complete with
    | false => cases ends
    | true =>
      obtain ⟨-, rfl⟩ := pure_on.mp ends
      rw [← writable_complete shape]
      have answer : (ofAnswer (Plan.request (.write path text))).on world =
          ((world.update (·.write path text)).1.mapError Fault.path,
            (world.update (·.write path text)).2) := rfl
      rw [answer, World.update] at wrote
      cases written : world.disk.write path text with
      | error fault =>
        rw [written] at wrote
        cases wrote
      | ok disk =>
        rw [written] at wrote
        cases wrote
        exact Disk.read_of_write written

theorem read_of_write_on {path text : String} {u : Unit}
    (ran : (write path text).on world = (.ok u, after)) : after.disk.read path = .ok text := by
  have single : Stagecraft.join "" [text] = text := by simp [Stagecraft.join]
  rw [← single]
  exact read_of_writeParts_on ran

end Shell

end Stagecraft
