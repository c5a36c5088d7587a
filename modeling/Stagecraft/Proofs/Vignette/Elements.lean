import Stagecraft.Proofs.Edit.Steps
import Stagecraft.Vignette

/-!
The elements of the steps of a record. Fields that differ in nothing but the list of steps describe
the same vignette but for what its elements stand for, and an element that could be read is read
whatever other elements are left out.
-/

namespace Stagecraft

variable {fields fields' : Fields} {values values' : List Value} {key : String} {value : Value}

/-- The elements of the steps, before any directive is expanded. -/
def elementsOf (fields : Fields) : List Value :=
  (Value.itemsOrName (Fields.get? fields "steps")).1

/-- The fields of an object; any other value has none. -/
def fieldsOf : Value → Fields
  | .object fields => fields
  | _ => []

/-- The elements of the steps of the record at a location. -/
def stepElements (buffer : Buffer) (location : Location) : Except Fault (List Value) := do
  liftFault .stale (buffer.require location.record)
  let value ← liftFault .ofRead (readLiteral (recordText (buffer.spanText location.record)))
  return elementsOf (fieldsOf value)

/-- The fields differ at most in the list of steps, which is the first in one and the second in the
other. -/
structure Agree (values values' : List Value) (fields fields' : Fields) : Prop where
  others : ∀ key, key ≠ "steps" → Fields.get? fields key = Fields.get? fields' key
  steps : Fields.get? fields "steps" = Fields.get? fields' "steps" ∨
    Fields.get? fields "steps" = some (.list values) ∧
      Fields.get? fields' "steps" = some (.list values')

theorem itemsOrName_list (items : List Value) :
    Value.itemsOrName (some (.list items)) = (items, []) := by
  cases items <;> rfl

theorem get?_put (other : String) : Fields.get? (fields.put key value) other =
    if other = key then some value else Fields.get? fields other :=
  Entries.lookup_put fields key other value

namespace Agree

theorem of_steps : Agree values values' (fields.put "steps" (.list values))
    (fields.put "steps" (.list values')) := by
  constructor
  · intro key other
    rw [get?_put, get?_put, if_neg other, if_neg other]
  · right
    simp only [get?_put, if_true, and_self]

theorem put (agree : Agree values values' fields fields') (key : String) (value : Value) :
    Agree values values' (fields.put key value) (fields'.put key value) := by
  constructor
  · intro other apart
    rw [get?_put, get?_put, agree.others other apart]
  · by_cases same : "steps" = key
    · left
      rw [get?_put, get?_put, if_pos same, if_pos same]
    · simp only [get?_put, if_neg same]
      exact agree.steps

theorem putAll (agree : Agree values values' fields fields') (more : Fields) :
    Agree values values' (fields.putAll more) (fields'.putAll more) := by
  induction more generalizing fields fields' with
  | nil => exact agree
  | cons entry more ih => exact ih (agree.put entry.1 entry.2)

theorem addTo (agree : Agree values values' fields fields') (member : Member) :
    Agree values values' (member.addTo fields) (member.addTo fields') := by
  cases member with
  | entry key value => exact agree.put key value
  | spread value =>
    cases value with
    | object more => exact agree.putAll more
    | _ => exact agree

theorem addAll (agree : Agree values values' fields fields') (members : List Member) :
    Agree values values' (members.foldl Member.addTo fields)
      (members.foldl Member.addTo fields') := by
  induction members generalizing fields fields' with
  | nil => exact agree
  | cons member members ih => exact ih (agree.addTo member)

/-- Objects that are written with other steps agree in everything else. -/
theorem of_members (before behind : List Member) :
    Agree values values'
      (fieldsOf (objectOf (before ++ .entry "steps" (.list values) :: behind)))
      (fieldsOf (objectOf (before ++ .entry "steps" (.list values') :: behind))) := by
  simp only [objectOf, fieldsOf, List.foldl_append, List.foldl_cons]
  exact of_steps.addAll behind

theorem itemsOrName (agree : Agree values values' fields fields') :
    Value.itemsOrName (Fields.get? fields "steps") =
        Value.itemsOrName (Fields.get? fields' "steps") ∨
      Value.itemsOrName (Fields.get? fields "steps") = (values, []) ∧
        Value.itemsOrName (Fields.get? fields' "steps") = (values', []) := by
  rcases agree.steps with same | ⟨old, new⟩
  · rw [same]
    exact .inl rfl
  · rw [old, new]
    exact .inr ⟨itemsOrName_list values, itemsOrName_list values'⟩

/-- The elements are the same, or else those that differ. -/
theorem elements_cases (agree : Agree values values' fields fields') :
    elementsOf fields' = elementsOf fields ∨
      elementsOf fields = values ∧ elementsOf fields' = values' := by
  rw [elementsOf, elementsOf]
  rcases agree.itemsOrName with same | ⟨old, new⟩
  · exact .inl (congrArg Prod.fst same.symm)
  · exact .inr ⟨congrArg Prod.fst old, congrArg Prod.fst new⟩

theorem elements (agree : Agree values values' fields fields') (fewer : values'.Sublist values) :
    (elementsOf fields').Sublist (elementsOf fields) := by
  rcases agree.elements_cases with same | ⟨rfl, rfl⟩
  · exact same ▸ List.Sublist.refl _
  · exact fewer

end Agree

theorem readElements_sublist {reading : Reading} (fewer : values'.Sublist values)
    (read : Value.readElements values = .ok reading) :
    ∃ reading', Value.readElements values' = .ok reading' ∧
      reading'.steps.Sublist reading.steps := by
  induction fewer generalizing reading with
  | slnil => exact ⟨reading, read, .refl _⟩
  | @cons _ _ element _ ih =>
    rw [Value.readElements] at read
    obtain ⟨first, -, read⟩ := Except.bind_ran.mp read
    obtain ⟨others, behind, made⟩ := Except.bind_ran.mp read
    cases made
    obtain ⟨reading', read', steps⟩ := ih behind
    exact ⟨reading', read', steps.trans (List.sublist_append_right _ _)⟩
  | @cons_cons _ _ element _ ih =>
    rw [Value.readElements] at read
    obtain ⟨first, here, read⟩ := Except.bind_ran.mp read
    obtain ⟨others, behind, made⟩ := Except.bind_ran.mp read
    cases made
    obtain ⟨reading', read', steps⟩ := ih behind
    refine ⟨first.followedBy reading', ?_, (List.Sublist.refl _).append steps⟩
    rw [Value.readElements, here, read']
    rfl

theorem ofFields_iff {vignette : Vignette} :
    Vignette.ofFields fields = .ok vignette ↔
      ∃ reading, Value.readElements (elementsOf fields) = .ok reading ∧ vignette = {
        id := (Fields.get? fields "id").elim "" (·.plain.text)
        tier := Value.fieldText fields "tier"
        promptScore := Value.fieldText fields "promptScore"
        description := Value.fieldText fields "description"
        trigger := Value.objectField fields "trigger"
        feedback := Value.objectField fields "feedback"
        steps := reading.steps
        unresolved :=
          (Value.itemsOrName (Fields.get? fields "steps")).2 ++ reading.unresolved } := by
  constructor
  · intro made
    obtain ⟨reading, read, same⟩ := Except.bind_ran.mp made
    cases same
    exact ⟨reading, read, rfl⟩
  · rintro ⟨reading, read, rfl⟩
    exact Except.bind_ran.mpr ⟨reading, read, rfl⟩

/-- Fields that differ in the steps describe the same but for those. -/
theorem ofFields_steps {vignette : Vignette} {reading : Reading}
    (others : ∀ key, key ≠ "steps" → Fields.get? fields key = Fields.get? fields' key)
    (made : Vignette.ofFields fields = .ok vignette)
    (read : Value.readElements (elementsOf fields') = .ok reading) :
    Vignette.ofFields fields' = .ok { vignette with
      steps := reading.steps
      unresolved := (Value.itemsOrName (Fields.get? fields' "steps")).2 ++ reading.unresolved } := by
  have text {key : String} (other : key ≠ "steps") :
      Value.fieldText fields key = Value.fieldText fields' key := by
    rw [Value.fieldText, Value.fieldText, others key other]
  have object {key : String} (other : key ≠ "steps") :
      Value.objectField fields key = Value.objectField fields' key := by
    rw [Value.objectField, Value.objectField, others key other]
  obtain ⟨_, -, rfl⟩ := ofFields_iff.mp made
  refine ofFields_iff.mpr ⟨reading, read, ?_⟩
  rw [others "id" (by decide), text (show "tier" ≠ "steps" by decide),
    text (show "promptScore" ≠ "steps" by decide), text (show "description" ≠ "steps" by decide),
    object (show "trigger" ≠ "steps" by decide), object (show "feedback" ≠ "steps" by decide)]

/-- A vignette with fewer elements is a vignette, with fewer steps and all else the same. -/
theorem ofFields_agree {vignette : Vignette} (agree : Agree values values' fields fields')
    (fewer : values'.Sublist values) (made : Vignette.ofFields fields = .ok vignette) :
    ∃ steps unresolved, Vignette.ofFields fields' =
        .ok { vignette with steps := steps, unresolved := unresolved } ∧
      steps.Sublist vignette.steps := by
  obtain ⟨reading, read, rfl⟩ := ofFields_iff.mp made
  obtain ⟨reading', read', steps⟩ := readElements_sublist (agree.elements fewer) read
  exact ⟨reading'.steps, _, ofFields_steps agree.others made read', steps⟩

section Characters

variable {buffer : Buffer} {location : Location} {lines : List String}

/-- The characters of lines with line feeds between them. -/
def joined (lines : List String) : List Char := ['\n'].intercalate (lines.map String.toList)

theorem toList_join (lines : List String) : (join "\n" lines).toList = joined lines :=
  String.toList_intercalate

/-- The value that characters are read as. -/
def readCharacters (text : List Char) : Except ReadFault Value := do
  readTokens (codeCount text) (← tokensUpTo (codeCount text) text)

/-- The record of some lines is read from their characters; the text they make up together takes far
longer to be taken apart again. -/
theorem readLiteral_join : readLiteral (recordText (join "\n" lines)) =
    readCharacters ((joined lines).dropWhile (· != '\x7b')) := by
  rw [readLiteral, tokenize, recordText, String.toList_ofList, toList_join, readCharacters]

/-- The value of the record at a location, read from the characters of its lines. -/
def recordValue (buffer : Buffer) (location : Location) : Except Fault Value := do
  liftFault .stale (buffer.require location.record)
  liftFault .ofRead
    (readCharacters ((joined (buffer.spanLines location.record)).dropWhile (· != '\x7b')))

/-- The vignette a value describes. -/
def describedBy (value : Value) : Except Fault Vignette :=
  liftFault .misuse (Vignette.ofFields (fieldsOf value))

theorem readRecord_eq :
    readRecord buffer location = recordValue buffer location >>= describedBy := by
  rw [readRecord, Buffer.spanText, readLiteral_join, recordValue, bind_assoc]
  congr 2
  funext _
  congr 1
  funext value
  cases value <;> rfl

theorem stepElements_eq : stepElements buffer location =
    recordValue buffer location >>= fun value => pure (elementsOf (fieldsOf value)) := by
  rw [stepElements, Buffer.spanText, readLiteral_join, recordValue, bind_assoc]

end Characters

section Record

variable {buffer : Buffer} {location : Location} {vignette : Vignette} {elements : List Value}

/-- The text of the record at a location is read as a value. -/
def RecordReads (buffer : Buffer) (location : Location) (value : Value) : Prop :=
  buffer.isValid location.record = true ∧
    readLiteral (recordText (buffer.spanText location.record)) = .ok value

theorem liftFault_ran {α ε : Type} {wrap : ε → Fault} {answer : Except ε α} {result : α} :
    liftFault wrap answer = .ok result ↔ answer = .ok result := by
  cases answer <;> simp [liftFault]

theorem Except.ok_of_toOption {α ε : Type} {answer : Except ε α} {result : α}
    (known : answer.toOption = some result) : answer = .ok result := by
  cases answer with
  | ok other => exact congrArg Except.ok (Option.some.inj known)
  | error fault => cases known

theorem readRecord_iff : readRecord buffer location = .ok vignette ↔
    ∃ value, RecordReads buffer location value ∧
      Vignette.ofFields (fieldsOf value) = .ok vignette := by
  rw [readRecord, Except.bind_ran]
  constructor
  · rintro ⟨_, valid, ran⟩
    obtain ⟨value, read, made⟩ := Except.bind_ran.mp ran
    refine ⟨value, ⟨liftFault_require_ran.mp valid, liftFault_ran.mp read⟩, ?_⟩
    cases value <;> exact liftFault_ran.mp made
  · rintro ⟨value, ⟨valid, read⟩, made⟩
    refine ⟨(), liftFault_require_ran.mpr valid, Except.bind_ran.mpr ⟨value, ?_, ?_⟩⟩
    · exact liftFault_ran.mpr read
    · cases value <;> exact liftFault_ran.mpr made

theorem stepElements_iff : stepElements buffer location = .ok elements ↔
    ∃ value, RecordReads buffer location value ∧ elements = elementsOf (fieldsOf value) := by
  rw [stepElements, Except.bind_ran]
  constructor
  · rintro ⟨_, valid, ran⟩
    obtain ⟨value, read, made⟩ := Except.bind_ran.mp ran
    cases made
    exact ⟨value, ⟨liftFault_require_ran.mp valid, liftFault_ran.mp read⟩, rfl⟩
  · rintro ⟨value, ⟨valid, read⟩, rfl⟩
    exact ⟨(), liftFault_require_ran.mpr valid,
      Except.bind_ran.mpr ⟨value, liftFault_ran.mpr read, rfl⟩⟩

end Record

end Stagecraft
