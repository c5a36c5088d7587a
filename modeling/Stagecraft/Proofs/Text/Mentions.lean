import Mathlib.Data.List.Forall2
import Mathlib.Data.List.Infix
import Stagecraft.Proofs.Text.Search

/-!
Every place of a text where a word stands, whatever it stands in: a comment, a quotation or code.
The places in a joined text are those of its lines.
-/

namespace Stagecraft

variable {word text line lead more rest : List Char}

/-- What follows a word at the start of a text, unless a longer name begins there. -/
def mention? (word text : List Char) : Option (List Char) :=
  (after? word text).filter fun rest => !rest.head?.any continuesName

/-- What follows the word at each place where no longer name begins. -/
def mentions (word text : List Char) : List (List Char) := text.tails.filterMap (mention? word)

theorem mention?_eq_some_iff : mention? word text = some rest ↔
    text = word ++ rest ∧ rest.head?.any continuesName = false := by
  rw [mention?, Option.filter_eq_some_iff, Bool.not_eq_true']
  constructor
  · rintro ⟨found, ends⟩
    exact ⟨eq_append_of_after? found, ends⟩
  · rintro ⟨rfl, ends⟩
    exact ⟨after?_append word rest, ends⟩

theorem mention?_nil (filled : word ≠ []) : mention? word [] = none := by
  cases word with
  | nil => exact absurd rfl filled
  | cons c word => rfl

theorem mentions_nil (filled : word ≠ []) : mentions word [] = [] := by
  rw [mentions, List.tails, List.filterMap_cons_none (mention?_nil filled), List.filterMap_nil]

theorem mentions_cons (c : Char) : mentions word (c :: text) =
    (mention? word (c :: text)).toList ++ mentions word text := by
  rw [mentions, List.tails_cons, mentions]
  cases found : mention? word (c :: text) with
  | none => rw [List.filterMap_cons_none found, Option.toList_none, List.nil_append]
  | some rest => rw [List.filterMap_cons_some found, Option.toList_some, List.singleton_append]

theorem mem_mentions : rest ∈ mentions word text ↔
    ∃ front, text = front ++ (word ++ rest) ∧ rest.head?.any continuesName = false := by
  rw [mentions, List.mem_filterMap]
  constructor
  · rintro ⟨tail, there, found⟩
    obtain ⟨front, rfl⟩ := (List.mem_tails _ _).mp there
    obtain ⟨rfl, ends⟩ := mention?_eq_some_iff.mp found
    exact ⟨front, rfl, ends⟩
  · rintro ⟨front, rfl, ends⟩
    exact ⟨word ++ rest, (List.mem_tails _ _).mpr (List.suffix_append _ _),
      mention?_eq_some_iff.mpr ⟨rfl, ends⟩⟩

theorem mentions_sublist (behind : rest <:+ text) :
    (mentions word rest).Sublist (mentions word text) := by
  obtain ⟨front, rfl⟩ := behind
  induction front with
  | nil => exact .refl _
  | cons c front ih =>
    rw [List.cons_append, mentions_cons]
    exact ih.trans (List.sublist_append_right _ _)

theorem searchFor_isSome_iff {α : Type} {reader : List Char → Option α} :
    (searchFor reader text).isSome = true ↔
      ∃ front back, text = front ++ back ∧ (reader back).isSome = true := by
  constructor
  · intro found
    by_contra none
    push Not at none
    rw [← Option.ne_none_iff_isSome] at found
    refine found (search_eq_none_iff.mpr fun front back split => ?_)
    exact Option.not_isSome_iff_eq_none.mp (none front back split)
  · rintro ⟨front, back, rfl, found⟩
    exact searchFor_isSome front found

section Matching

variable {α β γ : Type} {R : α → β → Prop} {S : β → γ → Prop} {firsts : List α} {seconds : List β}
  {thirds : List γ}

/-- What is found in order among items that are found in order. -/
theorem sublistForall₂_comp (first : List.SublistForall₂ R firsts seconds)
    (second : List.SublistForall₂ S seconds thirds) :
    List.SublistForall₂ (fun a c => ∃ b, R a b ∧ S b c) firsts thirds := by
  induction second generalizing firsts with
  | nil =>
    cases first
    exact .nil
  | cons here _ ih =>
    cases first with
    | nil => exact .nil
    | cons found behind => exact .cons ⟨_, found, here⟩ (ih behind)
    | cons_right behind => exact .cons_right (ih behind)
  | cons_right _ ih => exact .cons_right (ih first)

theorem sublistForall₂_imp {T : α → β → Prop} (found : List.SublistForall₂ R firsts seconds)
    (stronger : ∀ a b, R a b → T a b) : List.SublistForall₂ T firsts seconds := by
  induction found with
  | nil => exact .nil
  | cons here _ ih => exact .cons (stronger _ _ here) ih
  | cons_right _ ih => exact .cons_right ih

theorem sublistForall₂_mono {more : List β} (found : List.SublistForall₂ R firsts seconds)
    (part : seconds.Sublist more) : List.SublistForall₂ R firsts more := by
  obtain ⟨kept, pairs, inside⟩ := List.sublistForall₂_iff.mp found
  exact List.sublistForall₂_iff.mpr ⟨kept, pairs, inside.trans part⟩

theorem exists_of_mem_left {a : α} (pairs : List.Forall₂ R firsts seconds) (there : a ∈ firsts) :
    ∃ b ∈ seconds, R a b := by
  induction pairs with
  | nil => cases there
  | cons here _ ih =>
    rcases List.mem_cons.mp there with rfl | behind
    · exact ⟨_, List.mem_cons_self, here⟩
    · obtain ⟨b, member, related⟩ := ih behind
      exact ⟨b, List.mem_cons_of_mem _ member, related⟩

end Matching

section Lines

theorem after?_feed (whole : '\n' ∉ lead) :
    after? lead (line ++ '\n' :: more) = (after? lead line).map (· ++ '\n' :: more) := by
  induction lead generalizing line with
  | nil => rfl
  | cons c lead ih =>
    obtain ⟨other, whole⟩ := List.ne_and_not_mem_of_not_mem_cons whole
    cases line with
    | nil => exact after?_head_ne (Ne.symm other)
    | cons d line =>
      rw [List.cons_append, after?, after?]
      split
      · exact ih whole
      · rfl

theorem mention?_feed (whole : '\n' ∉ word) :
    mention? word (line ++ '\n' :: more) = (mention? word line).map (· ++ '\n' :: more) := by
  rw [mention?, after?_feed whole, mention?]
  cases after? word line with
  | none => rfl
  | some rest =>
    have same : (rest ++ '\n' :: more).head?.any continuesName = rest.head?.any continuesName := by
      cases rest with
      | nil => exact show continuesName '\n' = false by decide
      | cons c rest => rfl
    rw [Option.map_some, Option.filter_some, Option.filter_some, same]
    split <;> rfl

theorem mentions_feed (filled : word ≠ []) (whole : '\n' ∉ word) :
    mentions word (line ++ '\n' :: more) =
      (mentions word line).map (· ++ '\n' :: more) ++ mentions word more := by
  induction line with
  | nil =>
    have none : mention? word ([] ++ '\n' :: more) = none := by
      rw [mention?_feed whole, mention?_nil filled, Option.map_none]
    rw [mentions_nil filled, List.map_nil, List.nil_append, List.nil_append, mentions_cons]
    rw [List.nil_append] at none
    rw [none, Option.toList_none, List.nil_append]
  | cons c line ih =>
    have here : mention? word (c :: line ++ '\n' :: more) =
        (mention? word (c :: line)).map (· ++ '\n' :: more) := mention?_feed whole
    rw [List.cons_append] at here ⊢
    rw [mentions_cons, here, ih, mentions_cons, List.map_append, List.append_assoc]
    cases mention? word (c :: line) <;> rfl

/-- The places of a word on the lines, each with the rest of its line. -/
def mentionsOn (word : String) (lines : List String) : List (List Char) :=
  lines.flatMap fun line => mentions word.toList line.toList

/-- The places in a joined text are those of its lines. -/
theorem mentions_join {word : String} {lines : List String} (filled : word.toList ≠ [])
    (whole : '\n' ∉ word.toList) :
    List.SublistForall₂ (fun all rest => rest <+: all)
      (mentions word.toList (join "\n" lines).toList) (mentionsOn word lines) := by
  refine List.sublistForall₂_iff.mpr ⟨mentionsOn word lines, ?_, .refl _⟩
  have feed : "\n".toList = ['\n'] := rfl
  induction lines with
  | nil =>
    rw [mentionsOn, List.flatMap_nil, join, String.intercalate_nil, String.toList_empty,
      mentions_nil filled]
    exact .nil
  | cons line lines ih =>
    cases lines with
    | nil =>
      rw [mentionsOn, List.flatMap_cons, List.flatMap_nil, List.append_nil, join,
        String.intercalate_singleton]
      exact List.forall₂_same.mpr fun rest _ => List.prefix_rfl
    | cons next lines =>
      rw [mentionsOn, List.flatMap_cons]
      rw [join] at ih ⊢
      rw [String.intercalate_cons_cons, String.toList_append, String.toList_append, feed,
        List.append_assoc, List.singleton_append, mentions_feed filled whole]
      refine List.rel_append ?_ ih
      rw [List.forall₂_map_left_iff]
      exact List.forall₂_same.mpr fun rest _ => List.prefix_append _ _

end Lines

end Stagecraft
