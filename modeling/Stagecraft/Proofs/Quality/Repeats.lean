import Mathlib.Data.List.Perm.Basic
import Mathlib.Data.List.Sort
import Stagecraft.Proofs.Entries
import Stagecraft.Proofs.Quality.Duplicates

/-!
Which steps count as duplicates. Two steps are compared by the texts of three features of each
action; so equal steps are always found, and steps that differ in another field are taken for equal.
-/

namespace Stagecraft

variable {a b : String} {value : Value} {action : Action} {actions step before : List Action}
  {scene : Scene} {place : Nat}

section Codes

/-- The characters are among the first 128. -/
def Ascii (text : List Char) : Prop := ∀ c ∈ text, c.toNat < 128

instance (text : List Char) : Decidable (Ascii text) :=
  decidable_of_iff (text.all (·.toNat < 128) = true) (by simp [Ascii])

/-- The text stands for a sequence of codes. -/
def Coded (text : String) : Prop :=
  ∃ all : List Nat, (∀ code ∈ all, code < 0x110000) ∧ text.toList = all.flatMap codeChars

theorem Coded.eq_of_codes (first : Coded a) (second : Coded b)
    (same : codes a.toList = codes b.toList) : a = b := by
  obtain ⟨all, bound, spelled⟩ := first
  obtain ⟨others, bound', spelled'⟩ := second
  rw [spelled, spelled', codes_flatMap_codeChars bound, codes_flatMap_codeChars bound'] at same
  exact String.toList_inj.mp (by rw [spelled, spelled', same])

theorem Coded.append (first : Coded a) (second : Coded b) : Coded (a ++ b) := by
  obtain ⟨all, bound, spelled⟩ := first
  obtain ⟨others, bound', spelled'⟩ := second
  refine ⟨all ++ others, ?_, by rw [String.toList_append, spelled, spelled', List.flatMap_append]⟩
  intro code member
  rcases List.mem_append.mp member with front | back
  · exact bound code front
  · exact bound' code back

theorem coded_of_ascii (ascii : Ascii a.toList) : Coded a := by
  refine ⟨a.toList.map Char.toNat, ?_, ?_⟩
  · intro code member
    obtain ⟨c, here, rfl⟩ := List.mem_map.mp member
    have small := ascii c here
    omega
  · rw [List.flatMap_map]
    have alone : ∀ c ∈ a.toList, codeChars c.toNat = [c] := by
      intro c member
      have small := ascii c member
      have plain : escapeNumber? c.toNat = none := by
        have low : ¬ 0xd800 ≤ c.toNat := by omega
        have low' : ¬ escapeZero ≤ c.toNat := by simp only [escapeZero]; omega
        have low'' : ¬ c.toNat = 0x10ffff := by omega
        simp [escapeNumber?, isSurrogate, low, low', low'']
      rw [codeChars, plain, Char.ofNat_toNat]
    rw [List.flatMap_congr alone, List.flatMap_singleton']

end Codes

section Numbers

variable {digits more : List Char}

theorem Ascii.append (first : Ascii digits) (second : Ascii more) : Ascii (digits ++ more) := by
  intro c member
  rcases List.mem_append.mp member with front | back
  · exact first c front
  · exact second c back

theorem Ascii.cons {c : Char} (low : c.toNat < 128) (rest : Ascii digits) : Ascii (c :: digits) :=
  List.forall_mem_cons.mpr ⟨low, rest⟩

theorem Ascii.subset (whole : Ascii digits) (part : more ⊆ digits) : Ascii more :=
  fun c member => whole c (part member)

theorem ascii_zeros (count : Nat) : Ascii (List.replicate count '0') := by
  intro c member
  rw [(List.mem_replicate.mp member).2]
  decide

theorem ascii_toDigits (n : Nat) : Ascii (Nat.toDigits 10 n) := by
  intro c member
  have digit := Nat.isDigit_of_mem_toDigits (by decide) (by decide) member
  rw [Char.isDigit, Bool.and_eq_true, decide_eq_true_eq, decide_eq_true_eq] at digit
  have high : c.toNat ≤ 57 := digit.2
  omega

theorem ascii_trimZeros (ascii : Ascii digits) : Ascii (trimZeros digits) := by
  rw [trimZeros]
  split
  · exact .cons (by decide) (List.forall_mem_nil _)
  · next kept =>
    refine ascii.subset fun c member => ?_
    have inside := List.dropWhile_subset _ (List.mem_reverse.mp member)
    exact List.mem_reverse.mp inside

theorem ascii_positional (ascii : Ascii digits) (whole : Nat) :
    Ascii (positional digits whole) := by
  have padded : Ascii (padRight (whole + 1) digits) := ascii.append (ascii_zeros _)
  exact .append (padded.subset (List.take_subset _ _))
    (.cons (by decide) (padded.subset (List.drop_subset _ _)))

theorem ascii_scientific (style : NumberStyle) (ascii : Ascii digits) (order : Int) :
    Ascii (scientific style digits order) := by
  have exponent : Ascii (padLeft style.exponentWidth (Nat.toDigits 10 order.natAbs)) :=
    .append (ascii_zeros _) (ascii_toDigits _)
  have sign : (if order < 0 then '-' else '+').toNat < 128 := by split <;> decide
  unfold scientific
  refine .append ?_ (.cons (by decide) (.cons sign exponent))
  split
  · next first second rest =>
    obtain ⟨one, others⟩ := List.forall_mem_cons.mp ascii
    exact .cons one (.cons (by decide) others)
  · exact ascii

theorem ascii_layout (style : NumberStyle) (x : Decimal) : Ascii (style.layout x) := by
  have digits := ascii_trimZeros (ascii_toDigits x.digits)
  simp only [NumberStyle.layout]
  split
  · exact ascii_positional digits 1
  · split
    · exact ascii_scientific style digits _
    · split
      · exact ascii_positional (.append (ascii_zeros _) digits) 1
      · exact ascii_positional digits _

theorem ascii_float (x : Float) : Ascii (numberStyle.text x).toList := by
  have sign : Ascii (if signBit x then "-" else "").toList := by split <;> decide
  rw [NumberStyle.text]
  generalize (if signBit x then "-" else "") = mark at sign
  split
  · decide
  · dsimp only
    split
    · rw [String.toList_append]
      exact sign.append (by decide)
    · rw [String.toList_append, String.toList_ofList]
      exact sign.append (ascii_layout _ _)

theorem ascii_int (n : Int) : Ascii (toString n).toList := by
  have natural (m : Nat) : Ascii m.repr.toList := by
    rw [Nat.repr, String.toList_ofList]
    exact ascii_toDigits m
  cases n with
  | ofNat m => exact natural m
  | negSucc m =>
    change Ascii ("-" ++ m.succ.repr).toList
    rw [String.toList_append]
    exact .cons (by decide) (natural m.succ)

end Numbers

/-- A text, a number, a truth value or null. -/
inductive Value.IsScalar : Value → Prop where
  | null : IsScalar .null
  | bool (truth : Bool) : IsScalar (.bool truth)
  | int (n : Int) : IsScalar (.int n)
  | float (x : Float) : IsScalar (.float x)
  | str {text : String} (coded : Coded text) : IsScalar (.str text)

theorem Value.IsScalar.coded_text (scalar : value.IsScalar) : Coded value.text := by
  cases scalar with
  | null => exact coded_of_ascii (by decide)
  | bool truth => cases truth <;> exact coded_of_ascii (by decide)
  | int n => exact coded_of_ascii (ascii_int n)
  | float x => exact coded_of_ascii (ascii_float x)
  | str coded => exact coded

section Features

/-- The texts an action is compared by: its kind, who does it, and the animation or effect. -/
def Scene.features (action : Action) : String × String × String :=
  (Value.textOf (Fields.get? action "action"), Value.textOf (action.either "character" "asset"),
    Value.textOf (action.either "anim" "effect"))

theorem actionKey_eq : Scene.actionKey action = (Scene.features action).1 ++ ":" ++
    (Scene.features action).2.1 ++ ":" ++ (Scene.features action).2.2 := rfl

/-- No colon in front of the last feature, and no bar in any of them. -/
structure Legible (action : Action) : Prop where
  kind : ':' ∉ (Scene.features action).1.toList
  who : ':' ∉ (Scene.features action).2.1.toList
  bar : '|' ∉ (Scene.actionKey action).toList

/-- A text is cut at the first place of a mark in one way only. -/
theorem eq_of_mark {mark : Char} {front front' back back' : List Char} (free : mark ∉ front)
    (free' : mark ∉ front') (same : front ++ mark :: back = front' ++ mark :: back') :
    front = front' ∧ back = back' := by
  rcases List.append_eq_append_iff.mp same with ⟨gap, rfl, inside⟩ | ⟨gap, rfl, inside⟩
  · cases gap with
    | nil => exact ⟨(List.append_nil _).symm, (List.cons.inj inside).2⟩
    | cons c gap =>
      obtain ⟨rfl, -⟩ := List.cons.inj inside
      exact absurd (List.mem_append_right _ (List.mem_cons_self ..)) free'
  · cases gap with
    | nil => exact ⟨List.append_nil _, (List.cons.inj inside).2.symm⟩
    | cons c gap =>
      obtain ⟨rfl, -⟩ := List.cons.inj inside
      exact absurd (List.mem_append_right _ (List.mem_cons_self ..)) free

theorem Legible.features_eq {other : Action} (legible : Legible action) (legible' : Legible other)
    (same : Scene.actionKey action = Scene.actionKey other) :
    Scene.features action = Scene.features other := by
  have colon : ":".toList = [':'] := rfl
  have letters := congrArg String.toList same
  simp only [actionKey_eq, String.toList_append, colon, List.append_assoc, List.singleton_append]
    at letters
  obtain ⟨kind, behind⟩ := eq_of_mark legible.kind legible'.kind letters
  obtain ⟨who, what⟩ := eq_of_mark legible.who legible'.who behind
  exact Prod.ext (String.toList_inj.mp kind)
    (Prod.ext (String.toList_inj.mp who) (String.toList_inj.mp what))

/-- The fields of an action hold texts, numbers, truth values and nulls. -/
def IsFlat (action : Action) : Prop := ∀ entry ∈ action, entry.2.IsScalar

theorem IsFlat.coded_textOf (flat : IsFlat action) {key : String} :
    Coded (Value.textOf (Fields.get? action key)) := by
  cases found : Fields.get? action key with
  | none => exact Value.IsScalar.null.coded_text
  | some value => exact (flat (key, value) (Entries.mem_of_lookup found)).coded_text

theorem IsFlat.coded_either (flat : IsFlat action) {first second : String} :
    Coded (Value.textOf (action.either first second)) := by
  rw [Action.either]
  split
  · next value found =>
    obtain ⟨other, there, present⟩ := Option.bind_eq_some_iff.mp found
    obtain ⟨-, same⟩ := Option.ite_none_right_eq_some.mp present
    obtain rfl := Option.some.inj same
    have coded : Coded (Value.textOf (Fields.get? action first)) := flat.coded_textOf
    rwa [there] at coded
  · exact flat.coded_textOf

theorem IsFlat.coded_actionKey (flat : IsFlat action) : Coded (Scene.actionKey action) :=
  have colon : Coded ":" := coded_of_ascii (by decide)
  (((flat.coded_textOf.append colon).append flat.coded_either).append colon).append
    flat.coded_either

end Features

section Listing

variable {α β : Type} {f : α → β} {R : α → α → Prop} {items others : List α}

/-- Lists with the same images in some order: the second can be listed so that each item meets its
like. -/
theorem exists_listed (same : (items.map f).Perm (others.map f))
    (tells : ∀ a ∈ items, ∀ b ∈ others, f a = f b → R a b) :
    ∃ listed, listed.Perm others ∧ List.Forall₂ R items listed := by
  induction items generalizing others with
  | nil => exact ⟨[], by rw [List.map_eq_nil_iff.mp same.nil_eq.symm], .nil⟩
  | cons a items ih =>
    have image : f a ∈ others.map f := same.subset (List.mem_cons_self ..)
    obtain ⟨b, there, alike⟩ := List.mem_map.mp image
    obtain ⟨front, back, rfl⟩ := List.append_of_mem there
    have rest : (items.map f).Perm ((front ++ back).map f) := by
      have moved := same.trans (List.perm_middle.map f)
      rw [List.map_cons, List.map_cons, alike] at moved
      exact moved.cons_inv
    obtain ⟨listed, listing, pairs⟩ := ih rest fun one member other there =>
      tells one (List.mem_cons_of_mem _ member) other (by
        rcases List.mem_append.mp there with before | behind
        · exact List.mem_append_left _ before
        · exact List.mem_append_right _ (List.mem_cons_of_mem _ behind))
    exact ⟨b :: listed, (listing.cons b).trans List.perm_middle.symm,
      .cons (tells a (List.mem_cons_self ..) b there alike.symm) pairs⟩

theorem map_eq_of_forall₂ (pairs : List.Forall₂ (fun a b => f a = f b) items others) :
    items.map f = others.map f := by
  induction pairs with
  | nil => rfl
  | cons alike _ ih => rw [List.map_cons, List.map_cons, alike, ih]

end Listing

section Keys

/-- Keys in another order are sorted to the same list. -/
theorem mergeSort_eq_of_perm {keys others : List String} (coded : ∀ key ∈ keys, Coded key)
    (same : keys.Perm others) : keys.mergeSort codesLe = others.mergeSort codesLe := by
  have sorted (all : List String) :=
    @List.pairwise_mergeSort String codesLe (fun _ _ _ => codesLe_trans) codesLe_total all
  have coded' : ∀ key ∈ others, Coded key := fun key member => coded key (same.symm.subset member)
  refine List.Perm.eq_of_pairwise ?_ (sorted keys) (sorted others)
    ((List.mergeSort_perm _ _).trans (same.trans (List.mergeSort_perm _ _).symm))
  intro a b member member' first second
  rw [codesLe_iff] at first second
  exact (coded a (List.mem_mergeSort.mp member)).eq_of_codes
    (coded' b (List.mem_mergeSort.mp member')) (le_antisymm first second)

/-- Parts without a bar come back from the text they are joined to. -/
theorem join_injective {parts others : List String} (filled : parts ≠ []) (filled' : others ≠ [])
    (free : ∀ part ∈ parts, '|' ∉ part.toList) (free' : ∀ part ∈ others, '|' ∉ part.toList)
    (same : join "|" parts = join "|" others) : parts = others := by
  have bar : "|".toList = ['|'] := rfl
  have more {part next : String} {rest : List String} : (join "|" (part :: next :: rest)).toList =
      part.toList ++ '|' :: (join "|" (next :: rest)).toList := by
    rw [join, join, String.intercalate_cons_cons, String.toList_append, String.toList_append, bar,
      List.append_assoc, List.singleton_append]
  have single (part : String) : (join "|" [part]).toList = part.toList := by
    rw [join, String.intercalate_singleton]
  induction parts generalizing others with
  | nil => exact absurd rfl filled
  | cons part rest ih =>
    obtain ⟨other, others, rfl⟩ := List.exists_cons_of_ne_nil filled'
    have letters := congrArg String.toList same
    cases rest with
    | nil =>
      cases others with
      | nil =>
        rw [single, single] at letters
        rw [String.toList_inj.mp letters]
      | cons next others =>
        rw [more, single] at letters
        exact absurd (by rw [letters]; simp) (free part (by simp))
    | cons next rest =>
      cases others with
      | nil =>
        rw [more, single] at letters
        exact absurd (by rw [← letters]; simp) (free' other (by simp))
      | cons next' others =>
        rw [more, more] at letters
        obtain ⟨first, behind⟩ := eq_of_mark (free part (by simp)) (free' other (by simp)) letters
        have later := ih (by simp) (by simp) (fun key member => free key (by simp [member]))
          (fun key member => free' key (by simp [member])) (String.toList_inj.mp behind)
        rw [String.toList_inj.mp first, later]

theorem stepKey_eq_empty_iff : Scene.stepKey actions = "" ↔ actions = [] := by
  constructor
  · intro empty
    by_contra filled
    obtain ⟨action, -, begins⟩ := exists_first filled
    rw [empty] at begins
    exact actionKey_ne_empty (String.toList_eq_nil_iff.mp (List.head?_eq_none_iff.mp begins.symm))
  · rintro rfl
    rw [Scene.stepKey, List.map_nil, List.mergeSort_nil, join, String.intercalate_nil]

theorem stepKey_eq_of_perm (flat : ∀ action ∈ step, IsFlat action)
    (same : (step.map Scene.features).Perm (before.map Scene.features)) :
    Scene.stepKey step = Scene.stepKey before := by
  let spell (features : String × String × String) : String :=
    features.1 ++ ":" ++ features.2.1 ++ ":" ++ features.2.2
  have keys (actions : List Action) :
      actions.map Scene.actionKey = (actions.map Scene.features).map spell := by
    rw [List.map_map]
    rfl
  have coded : ∀ key ∈ step.map Scene.actionKey, Coded key := by
    intro key member
    obtain ⟨action, there, rfl⟩ := List.mem_map.mp member
    exact (flat action there).coded_actionKey
  have perm : (step.map Scene.actionKey).Perm (before.map Scene.actionKey) := by
    rw [keys, keys]
    exact same.map spell
  rw [Scene.stepKey, Scene.stepKey, mergeSort_eq_of_perm coded perm]

theorem perm_of_stepKey (legible : ∀ action ∈ step ++ before, Legible action)
    (filled : step ≠ []) (same : Scene.stepKey step = Scene.stepKey before) :
    (step.map Scene.features).Perm (before.map Scene.features) := by
  have filled' : before ≠ [] := by
    rintro rfl
    rw [stepKey_eq_empty_iff.mpr rfl] at same
    exact filled (stepKey_eq_empty_iff.mp same)
  have perm (actions : List Action) := List.mergeSort_perm (actions.map Scene.actionKey) codesLe
  have sorted {actions : List Action} (filled : actions ≠ []) :
      (actions.map Scene.actionKey).mergeSort codesLe ≠ [] := by
    intro none
    have empty := perm actions
    rw [none] at empty
    exact filled (List.map_eq_nil_iff.mp empty.nil_eq.symm)
  have free {actions : List Action} (part : actions ⊆ step ++ before) :
      ∀ key ∈ (actions.map Scene.actionKey).mergeSort codesLe, '|' ∉ key.toList := by
    intro key member
    obtain ⟨action, there, rfl⟩ := List.mem_map.mp (List.mem_mergeSort.mp member)
    exact (legible action (part there)).bar
  have lists : (step.map Scene.actionKey).mergeSort codesLe =
      (before.map Scene.actionKey).mergeSort codesLe :=
    join_injective (sorted filled) (sorted filled') (free (List.subset_append_left _ _))
      (free (List.subset_append_right _ _)) same
  have keys : (step.map Scene.actionKey).Perm (before.map Scene.actionKey) :=
    (perm step).symm.trans ((List.Perm.of_eq lists).trans (perm before))
  obtain ⟨listed, listing, alike⟩ := exists_listed keys (R := fun one other =>
      Scene.features one = Scene.features other) (by
    intro one here other there key
    exact (legible one (List.mem_append_left _ here)).features_eq
      (legible other (List.mem_append_right _ there)) key)
  rw [map_eq_of_forall₂ alike]
  exact listing.map _

end Keys

/-- The same fields with the same values. -/
def SameAction (one other : Action) : Prop := ∀ key, Fields.get? one key = Fields.get? other key

/-- The same actions, each as often, in any order. -/
def SameActions (step before : List Action) : Prop :=
  ∃ listed, listed.Perm before ∧ List.Forall₂ SameAction step listed

/-- A step and the one before it; `place` is the number of the step, from one on. -/
structure Neighbours (scene : Scene) (place : Nat) (before step : List Action) : Prop where
  second : 2 ≤ place
  before : scene.steps[place - 2]? = some before
  step : scene.steps[place - 1]? = some step

theorem features_of_same {other : Action} (same : SameAction action other) :
    Scene.features action = Scene.features other := by
  simp only [Scene.features, Action.either, Action.present?, same _]

theorem features_of_sameActions (same : SameActions step before) :
    (step.map Scene.features).Perm (before.map Scene.features) := by
  obtain ⟨listed, listing, pairs⟩ := same
  rw [map_eq_of_forall₂ (pairs.imp fun _ _ => features_of_same)]
  exact listing.map _

theorem mem_pairPlacesFrom_iff {α : Type} {test : Option α → α → Bool} {earlier : Option α}
    {first place : Nat} {items : List α} : place ∈ pairPlacesFrom test earlier first items ↔
      ∃ index item, place = first + index ∧ items[index]? = some item ∧
        test (if index = 0 then earlier else items[index - 1]?) item = true := by
  induction items generalizing earlier first with
  | nil => simp [pairPlacesFrom]
  | cons item items ih =>
    have here : place ∈ pairPlacesFrom test earlier first (item :: items) ↔
        place = first ∧ test earlier item = true ∨
          place ∈ pairPlacesFrom test (some item) (first + 1) items := by
      rw [pairPlacesFrom]
      cases test earlier item <;> simp
    rw [here, ih]
    constructor
    · rintro (⟨same, holds⟩ | ⟨index, other, rfl, there, holds⟩)
      · exact ⟨0, item, same, rfl, holds⟩
      · refine ⟨index + 1, other, by omega, there, ?_⟩
        cases index with
        | zero => exact holds
        | succ index => exact holds
    · rintro ⟨index, other, rfl, there, holds⟩
      cases index with
      | zero =>
        obtain rfl := Option.some.inj there
        exact .inl ⟨rfl, holds⟩
      | succ index =>
        refine .inr ⟨index, other, by omega, there, ?_⟩
        cases index with
        | zero => exact holds
        | succ index => exact holds

theorem mem_duplicateSteps : place ∈ scene.duplicateSteps ↔
    ∃ before step, Neighbours scene place before step ∧ step ≠ [] ∧
      Scene.stepKey step = Scene.stepKey before := by
  rw [Scene.duplicateSteps, mem_pairPlacesFrom_iff]
  simp only [Bool.and_eq_true, bne_iff_ne, ne_eq, stepKey_eq_empty_iff]
  constructor
  · rintro ⟨index, step, rfl, there, filled, same⟩
    cases index with
    | zero => cases same
    | succ index =>
      obtain ⟨before, earlier, same⟩ := (Option.any_eq_true _ _).mp same
      refine ⟨before, step, ⟨by omega, ?_, ?_⟩, filled, beq_iff_eq.mp same⟩
      · simpa [Nat.add_comm 1] using earlier
      · simpa [Nat.add_comm 1] using there
  · rintro ⟨before, step, ⟨second, earlier, there⟩, filled, same⟩
    obtain ⟨index, rfl⟩ := Nat.exists_eq_add_of_le' second
    refine ⟨index + 1, step, by omega, by simpa using there, filled, ?_⟩
    have earlier : scene.steps[index]? = some before := by simpa using earlier
    simp [earlier, same]

/-- A step with the actions of the one before it is a duplicate. What else is one has the same
kinds, actors and animations or effects, so nothing else is where these tell actions apart. -/
theorem duplicateSteps_iff (flat : ∀ step ∈ scene.steps, ∀ action ∈ step, IsFlat action) :
    (place ∈ scene.duplicateSteps → ∃ before step, Neighbours scene place before step) ∧
    ∀ before step, Neighbours scene place before step →
      (step ≠ [] → SameActions step before → place ∈ scene.duplicateSteps) ∧
      ((∀ action ∈ step ++ before, Legible action) →
        (place ∈ scene.duplicateSteps ↔
          step ≠ [] ∧ (step.map Scene.features).Perm (before.map Scene.features)) ∧
        ((∀ one ∈ step, ∀ other ∈ before,
            Scene.features one = Scene.features other → SameAction one other) →
          (place ∈ scene.duplicateSteps ↔ step ≠ [] ∧ SameActions step before))) := by
  constructor
  · intro found
    obtain ⟨before, step, near, -⟩ := mem_duplicateSteps.mp found
    exact ⟨before, step, near⟩
  · intro before step near
    have only : place ∈ scene.duplicateSteps ↔
        step ≠ [] ∧ Scene.stepKey step = Scene.stepKey before := by
      rw [mem_duplicateSteps]
      constructor
      · rintro ⟨before', step', near', found⟩
        obtain rfl := Option.some.inj (near'.before.symm.trans near.before)
        obtain rfl := Option.some.inj (near'.step.symm.trans near.step)
        exact found
      · exact fun found => ⟨before, step, near, found⟩
    have flat' := flat step (List.mem_of_getElem? near.step)
    have complete (filled : step ≠ [])
        (same : (step.map Scene.features).Perm (before.map Scene.features)) :
        place ∈ scene.duplicateSteps :=
      only.mpr ⟨filled, stepKey_eq_of_perm flat' same⟩
    refine ⟨fun filled same => complete filled (features_of_sameActions same), fun legible => ?_⟩
    have sound (found : place ∈ scene.duplicateSteps) :
        (step.map Scene.features).Perm (before.map Scene.features) := by
      obtain ⟨filled, same⟩ := only.mp found
      exact perm_of_stepKey legible filled same
    refine ⟨⟨fun found => ⟨(only.mp found).1, sound found⟩, fun same => complete same.1 same.2⟩,
      fun tells => ⟨fun found => ⟨(only.mp found).1, exists_listed (sound found) tells⟩, ?_⟩⟩
    exact fun same => complete same.1 (features_of_sameActions same.2)

def waveScene : Scene where
  steps := [[.popup "Once." "small"], [.emote "king" "happy", .animate "king" "Wave"],
    [.animate "king" "Wave", .emote "king" "happy"]]
  description := ""

theorem isFlat_of_texts {pairs : List (String × String)}
    (ascii : ∀ pair ∈ pairs, Ascii pair.2.toList) :
    IsFlat (pairs.map fun pair => (pair.1, .str pair.2)) := by
  intro entry member
  obtain ⟨pair, there, rfl⟩ := List.mem_map.mp member
  exact .str (coded_of_ascii (ascii pair there))

instance (action : Action) : Decidable (Legible action) :=
  decidable_of_iff (':' ∉ (Scene.features action).1.toList ∧
      ':' ∉ (Scene.features action).2.1.toList ∧ '|' ∉ (Scene.actionKey action).toList)
    ⟨fun parts => ⟨parts.1, parts.2.1, parts.2.2⟩, fun legible => ⟨legible.1, legible.2, legible.3⟩⟩

theorem flat_waveScene : ∀ step ∈ waveScene.steps, ∀ action ∈ step, IsFlat action := by
  have popup : IsFlat (.popup "Once." "small") := @isFlat_of_texts [("action", "text_popup"),
    ("text", "Once."), ("position", "center"), ("size", "small")] (by decide)
  have emote : IsFlat (.emote "king" "happy") := @isFlat_of_texts [("action", "emote"),
    ("character", "king"), ("emoji", "happy")] (by decide)
  have animate : IsFlat (.animate "king" "Wave") := @isFlat_of_texts [("action", "animate"),
    ("character", "king"), ("anim", "Wave")] (by decide)
  simp [waveScene, popup, emote, animate]

/-- The same two actions the other way round are a duplicate, a text before them is none. -/
theorem duplicateSteps_iff_waved :
    (∀ step ∈ waveScene.steps, ∀ action ∈ step, IsFlat action) ∧
      3 ∈ waveScene.duplicateSteps ∧ 2 ∉ waveScene.duplicateSteps := by
  refine ⟨flat_waveScene, ?_, ?_⟩
  · have near : Neighbours waveScene 3 [.emote "king" "happy", .animate "king" "Wave"]
        [.animate "king" "Wave", .emote "king" "happy"] := ⟨by decide, rfl, rfl⟩
    refine ((duplicateSteps_iff flat_waveScene).2 _ _ near).1 (by simp) ?_
    exact ⟨_, .swap .., .cons (fun _ => rfl) (.cons (fun _ => rfl) .nil)⟩
  · have near : Neighbours waveScene 2 [.popup "Once." "small"]
        [.emote "king" "happy", .animate "king" "Wave"] := ⟨by decide, rfl, rfl⟩
    have told := ((duplicateSteps_iff flat_waveScene).2 _ _ near).2 (by decide)
    intro found
    obtain ⟨-, same⟩ := told.1.mp found
    exact absurd same.length_eq (by decide)

def popupScene : Scene where
  steps := [[.popup "Once." "small"], [.popup "Twice." "small"]]
  description := ""

/-- Two texts are taken for the same step, as what they say is no part of what is compared. -/
theorem duplicateSteps_otherText :
    (∀ step ∈ popupScene.steps, ∀ action ∈ step, IsFlat action) ∧
      2 ∈ popupScene.duplicateSteps ∧
      ¬ SameActions [.popup "Twice." "small"] [.popup "Once." "small"] := by
  have once : IsFlat (.popup "Once." "small") := @isFlat_of_texts [("action", "text_popup"),
    ("text", "Once."), ("position", "center"), ("size", "small")] (by decide)
  have twice : IsFlat (.popup "Twice." "small") := @isFlat_of_texts [("action", "text_popup"),
    ("text", "Twice."), ("position", "center"), ("size", "small")] (by decide)
  refine ⟨by simp [popupScene, once, twice], by decide +kernel, ?_⟩
  rintro ⟨listed, listing, pairs⟩
  obtain rfl := List.perm_singleton.mp listing
  cases pairs with
  | cons same _ =>
    have text : some (Value.str "Twice.") = some (Value.str "Once.") := same "text"
    simp at text

end Stagecraft
