import Stagecraft.Edit.Work

/-!
What an edit at a record does when it is not refused: it leaves the buffer as the plain edit leaves
it, with both spans carried along. Work and jobs come apart at their binds.
-/

namespace Stagecraft

section Bind

variable {ε σ α β : Type} {x : EStateM ε σ α} {f : α → EStateM ε σ β} {s t : σ} {b : β}

theorem bind_ran : (x >>= f) s = .ok b t ↔ ∃ a u, x s = .ok a u ∧ f a u = .ok b t := by
  change EStateM.bind x f s = .ok b t ↔ _
  rw [EStateM.bind]
  cases x s with
  | ok a u =>
    constructor
    · intro ran
      exact ⟨a, u, rfl, ran⟩
    · rintro ⟨_, _, same, ran⟩
      cases same
      exact ran
  | error e u => simp

theorem pure_ran {a : β} : (pure a : EStateM ε σ β) s = .ok b t ↔ b = a ∧ t = s := by
  change EStateM.Result.ok a s = .ok b t ↔ _
  simp only [EStateM.Result.ok.injEq]
  exact ⟨fun ⟨h, k⟩ => ⟨h.symm, k.symm⟩, fun ⟨h, k⟩ => ⟨h.symm, k.symm⟩⟩

theorem get_bind_ran {f : σ → EStateM ε σ β} :
    ((get : EStateM ε σ σ) >>= f) s = .ok b t ↔ f s s = .ok b t := by
  rfl

theorem modify_ran {g : σ → σ} {u : PUnit} :
    (modify g : EStateM ε σ PUnit) s = .ok u t ↔ t = g s := by
  change EStateM.Result.ok PUnit.unit (g s) = .ok u t ↔ _
  simp only [EStateM.Result.ok.injEq, true_and]
  exact eq_comm

end Bind

theorem Except.bind_ran {ε α β : Type} {x : Except ε α} {f : α → Except ε β} {b : β} :
    (x >>= f) = .ok b ↔ ∃ a, x = .ok a ∧ f a = .ok b := by
  cases x <;> simp [bind, Except.bind]

theorem Except.bind_failed {ε α β : Type} {x : Except ε α} {f : α → Except ε β} {e : ε} :
    (x >>= f) = .error e ↔ x = .error e ∨ ∃ a, x = .ok a ∧ f a = .error e := by
  cases x <;> simp [bind, Except.bind]

theorem Except.bind_failed_of_ok {ε α β : Type} {x : Except ε α} {f : α → Except ε β} {a : α}
    {e : ε} (known : x = .ok a) : (x >>= f) = .error e ↔ f a = .error e := by
  rw [known]
  rfl

theorem Except.mem_mapM {ε α β : Type} {f : α → Except ε β} {inputs : List α} {outputs : List β}
    (mapped : inputs.mapM f = .ok outputs) {output : β} (member : output ∈ outputs) :
    ∃ input ∈ inputs, f input = .ok output := by
  induction inputs generalizing outputs with
  | nil =>
    cases mapped
    cases member
  | cons input inputs ih =>
    rw [List.mapM_cons] at mapped
    obtain ⟨first, here, mapped⟩ := bind_ran.mp mapped
    obtain ⟨others, behind, made⟩ := bind_ran.mp mapped
    cases made
    rcases List.mem_cons.mp member with rfl | later
    · exact ⟨input, by simp, here⟩
    · obtain ⟨other, present, same⟩ := ih behind later
      exact ⟨other, List.mem_cons_of_mem _ present, same⟩

namespace Site

/-- Neither span is out of date. -/
def Valid (site : Site) : Prop :=
  site.buffer.isValid site.record = true ∧ site.buffer.isValid site.steps = true

def put (site : Site) (index : Nat) (lines : List String) : Site :=
  let buffer := site.buffer.insertLines index lines
  ⟨buffer, site.record.afterInsert index lines.length buffer.revision,
    site.steps.afterInsert index lines.length buffer.revision⟩

def cut (site : Site) (start stop : Nat) : Site :=
  let buffer := site.buffer.deleteLines start stop
  ⟨buffer, site.record.afterDelete start stop buffer.revision,
    site.steps.afterDelete start stop buffer.revision⟩

theorem Valid.put (site : Site) (index : Nat) (lines : List String) :
    (site.put index lines).Valid :=
  ⟨Buffer.isValid_of_current rfl, Buffer.isValid_of_current rfl⟩

theorem Valid.cut (site : Site) (start stop : Nat) : (site.cut start stop).Valid :=
  ⟨Buffer.isValid_of_current rfl, Buffer.isValid_of_current rfl⟩

end Site

theorem Buffer.require_ran {buffer : Buffer} {span : Span} :
    buffer.require span = .ok () ↔ buffer.isValid span = true := by
  rw [Buffer.require]
  split <;> simp_all

theorem liftFault_require_ran {buffer : Buffer} {span : Span} :
    liftFault .stale (buffer.require span) = .ok () ↔ buffer.isValid span = true := by
  rw [← Buffer.require_ran]
  cases buffer.require span <;> simp [liftFault]

namespace Work

variable {site after : Site} {index start stop : Nat} {lines : List String} {α : Type}

theorem ofExcept_ran {answer : Except Fault α} {value : α} :
    ofExcept answer site = .ok value after ↔ answer = .ok value ∧ after = site := by
  cases answer with
  | ok other => simp [ofExcept, eq_comm]
  | error fault => simp [ofExcept]

theorem ofExcept_bind_ran {β : Type} {answer : Except Fault α} {f : α → Work β} {b : β} :
    (ofExcept answer >>= f) site = .ok b after ↔
      ∃ value, answer = .ok value ∧ f value site = .ok b after := by
  rw [bind_ran]
  constructor
  · rintro ⟨value, _, asked, ran⟩
    obtain ⟨known, rfl⟩ := ofExcept_ran.mp asked
    exact ⟨value, known, ran⟩
  · rintro ⟨value, known, ran⟩
    exact ⟨value, site, ofExcept_ran.mpr ⟨known, rfl⟩, ran⟩

theorem requireSite_ran {u : Unit} :
    requireSite site = .ok u after ↔ site.Valid ∧ after = site := by
  rw [requireSite, Site.Valid]
  simp only [Buffer.requireAll]
  cases first : site.buffer.require site.record with
  | error stale =>
    have invalid : ¬ site.buffer.isValid site.record = true := by
      rw [← Buffer.require_ran, first]
      simp
    simp [bind, Except.bind, invalid]
  | ok u =>
    have valid := Buffer.require_ran.mp first
    cases second : site.buffer.require site.steps with
    | error stale =>
      have invalid : ¬ site.buffer.isValid site.steps = true := by
        rw [← Buffer.require_ran, second]
        simp
      simp [bind, Except.bind, invalid]
    | ok u => simp [bind, Except.bind, valid, Buffer.require_ran.mp second, eq_comm]

theorem insert_ran {u : Unit} :
    insert index lines site = .ok u after ↔
      site.Valid ∧ after = if lines = [] then site else site.put index lines := by
  rw [insert, bind_ran]
  have rest (place : Site) : (if !lines.isEmpty then modify (·.put index lines) else pure () :
      Work Unit) place = .ok u after ↔
        after = if lines = [] then place else place.put index lines := by
    cases lines with
    | nil => simp [pure_ran]
    | cons line rest => simp [modify_ran]
  constructor
  · rintro ⟨_, place, required, ran⟩
    obtain ⟨valid, rfl⟩ := requireSite_ran.mp required
    exact ⟨valid, (rest _).mp ran⟩
  · rintro ⟨valid, same⟩
    exact ⟨(), site, requireSite_ran.mpr ⟨valid, rfl⟩, (rest _).mpr same⟩

theorem delete_ran {u : Unit} :
    delete start stop site = .ok u after ↔
      site.Valid ∧ after = if start < stop then site.cut start stop else site := by
  rw [delete, bind_ran]
  have rest (place : Site) : (if start < stop then modify (·.cut start stop) else pure () :
      Work Unit) place = .ok u after ↔
        after = if start < stop then place.cut start stop else place := by
    by_cases order : start < stop
    · simp [order, modify_ran]
    · simp [order, pure_ran]
  constructor
  · rintro ⟨_, place, required, ran⟩
    obtain ⟨valid, rfl⟩ := requireSite_ran.mp required
    exact ⟨valid, (rest _).mp ran⟩
  · rintro ⟨valid, same⟩
    exact ⟨(), site, requireSite_ran.mpr ⟨valid, rfl⟩, (rest _).mpr same⟩

end Work

namespace Job

variable {bench after : Bench} {α : Type}

theorem ofExcept_ran {answer : Except Fault α} {value : α} :
    ofExcept answer bench = .ok value after ↔ answer = .ok value ∧ after = bench := by
  cases answer with
  | ok other => simp [ofExcept, eq_comm]
  | error fault => simp [ofExcept]

theorem ofExcept_bind_ran {β : Type} {answer : Except Fault α} {f : α → Job β} {b : β} :
    (ofExcept answer >>= f) bench = .ok b after ↔
      ∃ value, answer = .ok value ∧ f value bench = .ok b after := by
  rw [bind_ran]
  constructor
  · rintro ⟨value, _, asked, ran⟩
    obtain ⟨known, rfl⟩ := ofExcept_ran.mp asked
    exact ⟨value, known, ran⟩
  · rintro ⟨value, known, ran⟩
    exact ⟨value, bench, ofExcept_ran.mpr ⟨known, rfl⟩, ran⟩

theorem note_bind_ran {β : Type} {message : String} {f : Unit → Job β} {b : β} :
    (note message >>= f) bench = .ok b after ↔
      f () { bench with log := bench.log ++ [message] } = .ok b after := by
  rfl

theorem site_ran {location moved : Location} {work : Work α} {value : α} :
    site location work bench = .ok (moved, value) after ↔
      ∃ steps place, location.steps = some steps ∧
        work ⟨bench.buffer, location.record, steps⟩ = .ok value place ∧
        moved = { location with record := place.record, steps := some place.steps } ∧
        after = { bench with buffer := place.buffer } := by
  rw [site]
  cases stepped : location.steps with
  | none => simp
  | some steps =>
    cases ran : work ⟨bench.buffer, location.record, steps⟩ with
    | ok other place =>
      simp only [ran]
      constructor
      · intro same
        cases same
        exact ⟨steps, place, rfl, ran, rfl, rfl⟩
      · rintro ⟨_, _, same, ran', rfl, rfl⟩
        cases same
        rw [ran] at ran'
        cases ran'
        rfl
    | error fault place => simp [ran]

end Job

end Stagecraft
