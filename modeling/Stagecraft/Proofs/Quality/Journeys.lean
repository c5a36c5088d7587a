import Stagecraft.Proofs.Entries
import Stagecraft.Proofs.Quality.Wording

/-!
Who goes where, and how often. Moves are counted by the values of two fields, whether these are
there or not: so each destination that one character goes to three times is found, with its number,
and beside it the moves of nobody are found as if they were the moves of one.
-/

namespace Stagecraft

variable {scene : Scene} {action : Action} {least : Nat}

section Counting

variable {α β : Type} {same : β → β → Bool} {alike : α → α → Bool} {write : α → β}

theorem length_filter_lt_cons (keep : α → Bool) (item : α) (items : List α) :
    (items.filter keep).length < (item :: items).length :=
  Nat.lt_succ_of_le (List.length_filter_le _ _)

theorem eraseDupsBy_map (agrees : ∀ a b, same (write a) (write b) = alike a b)
    (items : List α) :
    (items.map write).eraseDupsBy same = (items.eraseDupsBy alike).map write := by
  match items with
  | [] => rfl
  | item :: items =>
    have others : (items.map write).filter (fun b => decide (same b (write item) = false)) =
        (items.filter fun b => decide (alike b item = false)).map write := by
      simp only [List.filter_map, Function.comp_def, agrees]
    rw [List.map_cons, List.eraseDupsBy_cons, List.eraseDupsBy_cons, List.map_cons, others,
      eraseDupsBy_map agrees]
termination_by items.length
decreasing_by exact length_filter_lt_cons _ _ _

/-- Counting does not depend on how the items are written. -/
theorem frequent_map (agrees : ∀ a b, same (write a) (write b) = alike a b) (items : List α) :
    frequent same least (items.map write) =
      (frequent alike least items).map (Prod.map write id) := by
  have number (a : α) : (items.map write).countP (same (write a)) = items.countP (alike a) := by
    simp only [List.countP_map, Function.comp_def, agrees]
  rw [frequent, frequent, tally, tally, eraseDupsBy_map agrees, List.map_map, List.filter_map,
    List.filter_map, List.map_map]
  simp only [Function.comp_def, number, Prod.map, id]

variable [BEq α] [LawfulBEq α] {items : List α}

theorem eraseDups_filter (keep : α → Bool) (items : List α) :
    (items.filter keep).eraseDups = items.eraseDups.filter keep := by
  match items with
  | [] => rfl
  | item :: items =>
    have others : ((items.filter fun b => !b == item).eraseDups).filter keep =
        ((items.filter keep).filter fun b => !b == item).eraseDups := by
      rw [← eraseDups_filter keep, List.filter_filter, List.filter_filter]
      simp only [Bool.and_comm]
    rw [List.eraseDups_cons, List.filter_cons, List.filter_cons]
    split
    · next kept =>
      rw [List.eraseDups_cons, others]
    · next left =>
      -- An item that is left out is no item of the others.
      have absent : (items.filter keep).filter (fun b => !b == item) = items.filter keep := by
        apply List.filter_eq_self.mpr
        intro b member
        have other : b ≠ item := by
          rintro rfl
          exact left (List.mem_filter.mp member).2
        simp [other]
      rw [others, absent]
termination_by items.length
decreasing_by exact length_filter_lt_cons _ _ _

theorem frequent_eq (items : List α) : frequent (· == ·) least items =
    (items.eraseDups.filter (least ≤ items.count ·)).map fun item => (item, items.count item) := by
  have number (item : α) : items.countP (item == ·) = items.count item :=
    List.countP_congr fun other _ => by rw [beq_iff_eq, beq_iff_eq, eq_comm]
  rw [frequent, tally, List.filter_map]
  simp only [Function.comp_def, number, List.eraseDups]

theorem mem_frequent_iff {entry : α × Nat} :
    entry ∈ frequent (· == ·) least items ↔
      entry.1 ∈ items ∧ entry.2 = items.count entry.1 ∧ least ≤ entry.2 := by
  obtain ⟨item, number⟩ := entry
  simp only [frequent_eq, List.mem_map, List.mem_filter, List.mem_eraseDups, decide_eq_true_eq,
    Prod.mk.injEq]
  constructor
  · rintro ⟨_, ⟨member, many⟩, rfl, rfl⟩
    exact ⟨member, rfl, many⟩
  · rintro ⟨member, rfl, many⟩
    exact ⟨item, ⟨member, many⟩, rfl, rfl⟩

/-- How often an item occurs does not depend on the other items. -/
theorem frequent_filter (keep : α → Bool) (items : List α) :
    frequent (· == ·) least (items.filter keep) =
      (frequent (· == ·) least items).filter (keep ·.1) := by
  have number : ∀ item ∈ items.eraseDups.filter keep,
      (items.filter keep).count item = items.count item := by
    intro item member
    exact List.count_filter (List.mem_filter.mp member).2
  calc
    frequent (· == ·) least (items.filter keep)
      = ((items.eraseDups.filter keep).filter (least ≤ (items.filter keep).count ·)).map
          fun item => (item, (items.filter keep).count item) := by
        rw [frequent_eq, eraseDups_filter]
    _ = ((items.eraseDups.filter keep).filter (least ≤ items.count ·)).map
          fun item => (item, items.count item) := by
        have often : (items.eraseDups.filter keep).filter (least ≤ (items.filter keep).count ·) =
            (items.eraseDups.filter keep).filter (least ≤ items.count ·) :=
          List.filter_congr fun item member => by rw [number item member]
        rw [often]
        apply List.map_congr_left
        intro item member
        rw [number item (List.mem_filter.mp member).1]
    _ = (frequent (· == ·) least items).filter (keep ·.1) := by
        rw [frequent_eq, List.filter_map, List.filter_filter, List.filter_filter]
        simp only [Function.comp_def, Bool.and_comm]

end Counting

section Words

/-- The text of a field that is a text. -/
def Action.word? (action : Action) (key : String) : Option String :=
  match Fields.get? action key with
  | some (.str text) => some text
  | _ => none

/-- Every field of the action is a text. -/
def Action.IsTextual (action : Action) : Prop := ∀ entry ∈ action, ∃ text, entry.2 = .str text

instance (value : Value) : Decidable (∃ text, value = .str text) :=
  match value with
  | .str text => isTrue ⟨text, rfl⟩
  | .null | .bool _ | .int _ | .float _ | .list _ | .object _ | .name _ | .call _ _ | .spread _ =>
    isFalse fun ⟨_, same⟩ => nomatch same

instance (action : Action) : Decidable action.IsTextual := List.decidableBAll _ _

/-- The value of a field that is a text if it is there. -/
def Value.ofWord : Option String → Value
  | none => .null
  | some text => .str text

theorem Value.same_ofWord (a b : Option String) :
    (Value.ofWord a).same (Value.ofWord b) = (a == b) := by
  cases a with
  | none => cases b <;> rfl
  | some a =>
    cases b with
    | none => rfl
    | some b => simp [ofWord, Value.same]

theorem Action.IsTextual.get?_eq (textual : action.IsTextual) (key : String) :
    (Fields.get? action key).getD .null = .ofWord (action.word? key) := by
  rw [Action.word?]
  cases found : Fields.get? action key with
  | none => rfl
  | some value =>
    obtain ⟨text, rfl⟩ := textual (key, value) (Entries.mem_of_lookup found)
    rfl

end Words

namespace Scene

/-- The mover and the destination of each move, as far as they are given. -/
def travels (scene : Scene) : List (Option String × Option String) :=
  (scene.ofKind "move").map fun action => (action.word? "character", action.word? "to")

/-- A character goes to a place. -/
def trip? : Option String × Option String → Option (String × String)
  | (some who, some target) => if who = "" then none else some (who, target)
  | _ => none

/-- Each move of a character, with the place that it goes to. -/
def trips (scene : Scene) : List (String × String) := scene.travels.filterMap trip?

/-- The trips that are made three times or more, each once, with their numbers. -/
def repeatedTrips (scene : Scene) : List ((String × String) × Nat) :=
  (scene.trips.eraseDups.filter (3 ≤ scene.trips.count ·)).map fun trip =>
    (trip, scene.trips.count trip)

/-- How a mover and a destination are shown. -/
def shown (travel : Option String × Option String) : String × String :=
  ((Value.ofWord travel.1).text, (Value.ofWord travel.2).text)

theorem shown_of_trip {travel : Option String × Option String} {trip : String × String}
    (made : trip? travel = some trip) : trip.1 ≠ "" ∧ travel = (some trip.1, some trip.2) := by
  match travel with
  | (some who, some target) =>
    rw [trip?] at made
    split at made
    · cases made
    · next named =>
      obtain rfl := Option.some.inj made
      exact ⟨named, rfl⟩

theorem isSome_trip_iff {travel : Option String × Option String} : (trip? travel).isSome ↔
    ∃ who target, who ≠ "" ∧ travel = (some who, some target) := by
  constructor
  · intro made
    obtain ⟨trip, made⟩ := Option.isSome_iff_exists.mp made
    exact ⟨trip.1, trip.2, shown_of_trip made⟩
  · rintro ⟨who, target, named, rfl⟩
    simp [trip?, named]

/-- A trip as a travel. -/
def ofTrip (trip : String × String) : Option String × Option String := (some trip.1, some trip.2)

/-- The trips are the travels of which the mover and the destination are given. -/
theorem trips_map_ofTrip (scene : Scene) :
    scene.trips.map ofTrip = scene.travels.filter fun travel => (trip? travel).isSome := by
  have back (travel : Option String × Option String) :
      (trip? travel).map ofTrip = Option.guard (fun travel => (trip? travel).isSome) travel := by
    cases made : trip? travel with
    | none => simp [Option.guard, made]
    | some trip => simp [Option.guard, made, ofTrip, ← (shown_of_trip made).2]
  rw [trips, List.map_filterMap, ← List.filterMap_eq_filter]
  exact congrArg (List.filterMap · _) (funext back)

theorem repeatedTrips_eq (scene : Scene) : scene.repeatedTrips =
    ((frequent (· == ·) 3 scene.travels).filter fun entry => (trip? entry.1).isSome).map
      (Prod.map shown id) := by
  have again (entries : List ((String × String) × Nat)) :
      (entries.map (Prod.map ofTrip id)).map (Prod.map shown id) = entries := by
    rw [List.map_map]
    exact List.map_id _
  have alike (a b : String × String) : (ofTrip a == ofTrip b) = (a == b) := rfl
  calc
    scene.repeatedTrips = frequent (· == ·) 3 scene.trips := (frequent_eq _).symm
    _ = ((frequent (· == ·) 3 scene.trips).map (Prod.map ofTrip id)).map (Prod.map shown id) :=
      (again _).symm
    _ = _ := by rw [← frequent_map alike, trips_map_ofTrip, frequent_filter]

section Textual

variable (textual : ∀ action ∈ scene.actions, action.IsTextual)

include textual

/-- Moves are pooled by the mover and the destination, given or not. -/
theorem repeatedMoves_eq : scene.repeatedMoves =
    .ok ((frequent (· == ·) 3 scene.travels).map (Prod.map shown id)) := by
  let write (travel : Option String × Option String) : Value × Value :=
    (.ofWord travel.1, .ofWord travel.2)
  have moves : (scene.ofKind "move").map (fun action =>
      ((Fields.get? action "character").getD .null, (Fields.get? action "to").getD .null)) =
        scene.travels.map write := by
    rw [travels, List.map_map]
    apply List.map_congr_left
    intro action member
    have words := textual action (mem_ofKind.mp member).1
    simp only [words.get?_eq, Function.comp_apply, write]
  have keys : Value.areKeys ((scene.travels.map write).flatMap
      fun travel => [travel.1, travel.2]) = true := by
    have key (word : Option String) : (Value.ofWord word).isKey = true := by cases word <;> rfl
    simp only [areKeys_iff, List.forall_mem_flatMap, List.forall_mem_map, List.forall_mem_cons,
      write, key]
    simp
  have agrees (a b : Option String × Option String) :
      ((write a).1.same (write b).1 && (write a).2.same (write b).2) = (a == b) := by
    simp only [write, Value.same_ofWord]
    rfl
  rw [repeatedMoves, moves]
  simp only [asKeys, keys, if_true]
  exact congrArg Except.ok (by rw [frequent_map agrees, List.map_map]; rfl)

end Textual

/-- Each trip that is made three times or more is listed, in the order of the first ones and with
its number. Nothing else is listed just when no moves without a mover, or without a destination,
come up three times or more: such moves are pooled as if they had one. -/
theorem repeatedMoves_trips_iff (textual : ∀ action ∈ scene.actions, action.IsTextual) :
    ∃ found, scene.repeatedMoves = .ok found ∧ scene.repeatedTrips.Sublist found ∧
      (found = scene.repeatedTrips ↔ ∀ travel ∈ scene.travels,
        3 ≤ scene.travels.count travel →
          ∃ who target, who ≠ "" ∧ travel = (some who, some target)) := by
  let all := frequent (· == ·) 3 scene.travels
  let made (entry : (Option String × Option String) × Nat) : Bool := (trip? entry.1).isSome
  have same : all.map (Prod.map shown id) = scene.repeatedTrips ↔ all.filter made = all := by
    rw [repeatedTrips_eq]
    constructor
    · intro same
      have lengths := congrArg List.length same
      rw [List.length_map, List.length_map] at lengths
      exact List.filter_sublist.eq_of_length lengths.symm
    · intro every
      exact congrArg (List.map _) every.symm
  refine ⟨_, repeatedMoves_eq textual, ?_, same.trans ?_⟩
  · rw [repeatedTrips_eq]
    exact List.filter_sublist.map _
  · rw [List.filter_eq_self]
    constructor
    · intro every travel member many
      exact isSome_trip_iff.mp (every (travel, _) (mem_frequent_iff.mpr ⟨member, rfl, many⟩))
    · intro every entry member
      obtain ⟨there, number, many⟩ := mem_frequent_iff.mp member
      exact isSome_trip_iff.mpr (every entry.1 there (number ▸ many))

end Scene

/-- The king goes back and forth, and a crate goes along once. -/
def pacing : Scene where
  steps := [[.move "king" "cs-left"], [.move "king" "cs-right"],
    [.move "king" "cs-left", .moveAsset "crate" "cs-left"], [.move "king" "cs-left"]]
  description := ""

/-- The crate is not counted with the king. -/
theorem repeatedMoves_trips_iff_pacing :
    (∀ action ∈ pacing.actions, action.IsTextual) ∧
      pacing.repeatedMoves = .ok [(("king", "cs-left"), 3)] ∧
      pacing.repeatedTrips = [(("king", "cs-left"), 3)] := by
  have textual : ∀ action ∈ pacing.actions, action.IsTextual := by decide +kernel
  have trips : pacing.repeatedTrips = [(("king", "cs-left"), 3)] := by decide +kernel
  obtain ⟨found, ran, -, only⟩ := Scene.repeatedMoves_trips_iff textual
  have told : found = pacing.repeatedTrips := only.mpr (by
    have each : ∀ travel ∈ pacing.travels, 3 ≤ pacing.travels.count travel →
        (Scene.trip? travel).isSome := by decide +kernel
    intro travel member many
    exact Scene.isSome_trip_iff.mp (each travel member many))
  exact ⟨textual, by rw [ran, told, trips], trips⟩

/-- Three things slide to the middle. -/
def cargo : Scene where
  steps := ["crate", "barrel", "lamp"].flatMap fun asset =>
    [[.spawn (.str asset) "off-left"], [.moveAsset (.str asset) "cs-center"]]
  description := ""

/-- No character moves, and yet one of that name is listed. -/
theorem repeatedMoves_ofAssets :
    (∀ action ∈ cargo.actions, action.IsTextual) ∧
      (∀ action ∈ cargo.actions, action.word? "character" = none) ∧
      cargo.repeatedTrips = [] ∧ cargo.repeatedMoves = .ok [(("None", "cs-center"), 3)] := by
  decide +kernel

end Stagecraft
