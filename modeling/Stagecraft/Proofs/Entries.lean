import Mathlib.Data.List.Induction
import Mathlib.Data.List.Nodup
import Stagecraft.Entries

/-!
Where the value of a key comes from: the last pair given for it. The keys stand in the order in
which they first came, and pairs with distinct keys stay as they are.
-/

namespace Stagecraft.Entries

variable {α : Type} {key : String} {entries more front behind : Entries α} {value : α}

theorem mem_of_lookup (found : entries.lookup key = some value) : (key, value) ∈ entries := by
  obtain ⟨before, after, rfl, -⟩ := List.lookup_eq_some_iff.mp found
  simp

theorem mem_of_mem_put {entry : String × α} (there : entry ∈ put key value entries) :
    entry = (key, value) ∨ entry ∈ entries := by
  induction entries with
  | nil => exact .inl (List.mem_singleton.mp there)
  | cons first entries ih =>
    rw [put] at there
    split at there
    · next same =>
      rcases List.mem_cons.mp there with rfl | behind
      · exact .inl (by rw [same])
      · exact .inr (List.mem_cons_of_mem _ behind)
    · rcases List.mem_cons.mp there with rfl | behind
      · exact .inr List.mem_cons_self
      · exact (ih behind).imp_right (List.mem_cons_of_mem _)

theorem mem_of_mem_putAll {entry : String × α} (there : entry ∈ putAll entries more) :
    entry ∈ entries ++ more := by
  induction more generalizing entries with
  | nil => rwa [List.append_nil]
  | cons pair more ih =>
    rcases List.mem_append.mp (ih there) with first | behind
    · rcases mem_of_mem_put first with rfl | old
      · simp
      · exact List.mem_append_left _ old
    · exact List.mem_append_right _ (List.mem_cons_of_mem _ behind)

theorem lookup_putAll (free : ∀ pair ∈ more, pair.1 ≠ key) :
    (putAll entries more).lookup key = entries.lookup key := by
  induction more generalizing entries with
  | nil => rfl
  | cons pair more ih =>
    have other : key ≠ pair.1 := (free pair List.mem_cons_self).symm
    calc
      (putAll entries (pair :: more)).lookup key = (put pair.1 pair.2 entries).lookup key :=
        ih fun next member => free next (List.mem_cons_of_mem _ member)
      _ = entries.lookup key := by rw [lookup_put, if_neg other]

/-- Pairs behind the last one with a key make no difference to it. -/
theorem lookup_ofPairs_append (free : ∀ pair ∈ behind, pair.1 ≠ key) :
    (ofPairs (front ++ behind)).lookup key = (ofPairs front).lookup key := by
  have parts : ofPairs (front ++ behind) = putAll (ofPairs front) behind := List.foldl_append
  rw [parts, lookup_putAll free]

/-- A new key goes to the end. -/
theorem put_of_free (free : key ∉ entries.map (·.1)) :
    put key value entries = entries ++ [(key, value)] := by
  induction entries with
  | nil => rfl
  | cons entry entries ih =>
    rw [List.map_cons, List.mem_cons, not_or] at free
    rw [put, if_neg (Ne.symm free.1), ih free.2, List.cons_append]

theorem putAll_of_nodup (distinct : ((entries ++ more).map (·.1)).Nodup) :
    putAll entries more = entries ++ more := by
  induction more generalizing entries with
  | nil => exact (List.append_nil entries).symm
  | cons pair more ih =>
    have free : pair.1 ∉ entries.map (·.1) := by
      rw [List.map_append, List.map_cons] at distinct
      intro member
      exact (List.nodup_append.mp distinct).2.2 _ member _ List.mem_cons_self rfl
    calc
      putAll entries (pair :: more) = putAll (put pair.1 pair.2 entries) more := rfl
      _ = putAll (entries ++ [pair]) more := by rw [put_of_free free]
      _ = entries ++ pair :: more := by
        rw [ih (by rwa [List.append_assoc]), List.append_assoc, List.singleton_append]

theorem ofPairs_of_nodup (distinct : (more.map (·.1)).Nodup) : ofPairs more = more :=
  putAll_of_nodup distinct

theorem keys_put : (put key value entries).map (·.1) =
    if key ∈ entries.map (·.1) then entries.map (·.1) else entries.map (·.1) ++ [key] := by
  induction entries with
  | nil => simp [put]
  | cons entry entries ih =>
    by_cases here : entry.1 = key
    · simp [put, here]
    · rw [put, if_neg here, List.map_cons, ih, List.map_cons]
      simp only [List.mem_cons, Ne.symm here, false_or]
      split <;> rfl

theorem ofPairs_concat (pair : String × α) :
    ofPairs (front ++ [pair]) = put pair.1 pair.2 (ofPairs front) := by
  rw [ofPairs, putAll, List.foldl_append]
  rfl

theorem lookup_ofPairs (pairs : Entries α) (key : String) :
    (ofPairs pairs).lookup key = pairs.reverse.lookup key := by
  induction pairs using List.reverseRecOn with
  | nil => rfl
  | append_singleton front pair ih =>
    obtain ⟨other, value⟩ := pair
    rw [ofPairs_concat, lookup_put, ih, List.reverse_concat, List.lookup_cons]
    by_cases same : key = other
    · simp [same]
    · simp [same, beq_eq_false_iff_ne.mpr same]

theorem eraseDups_concat {keys : List String} : (keys ++ [key]).eraseDups =
    if key ∈ keys then keys.eraseDups else keys.eraseDups ++ [key] := by
  rw [List.eraseDups_append]
  by_cases known : key ∈ keys
  · simp [List.removeAll, known]
  · simp [List.removeAll, known, List.eraseDups_cons]

theorem nodup_eraseDups (keys : List String) : keys.eraseDups.Nodup := by
  induction keys using List.reverseRecOn with
  | nil => exact List.nodup_nil
  | append_singleton keys key ih =>
    rw [eraseDups_concat]
    split
    · exact ih
    · next new =>
      rw [← List.mem_eraseDups] at new
      rw [← List.concat_eq_append]
      exact ih.concat new

theorem keys_ofPairs (pairs : Entries α) :
    (ofPairs pairs).map (·.1) = (pairs.map (·.1)).eraseDups := by
  induction pairs using List.reverseRecOn with
  | nil => rfl
  | append_singleton front pair ih =>
    rw [ofPairs_concat, keys_put, ih, List.map_append, List.map_singleton, eraseDups_concat]
    simp only [List.mem_eraseDups]

/-- Entries with distinct keys are known by the values of their keys. -/
theorem eq_of_lookup (keys : entries.map (·.1) = more.map (·.1))
    (distinct : (entries.map (·.1)).Nodup)
    (values : ∀ key, entries.lookup key = more.lookup key) : entries = more := by
  induction entries generalizing more with
  | nil => exact (List.map_eq_nil_iff.mp keys.symm).symm
  | cons entry entries ih =>
    obtain ⟨⟨_, found⟩, others, rfl⟩ : ∃ other others, more = other :: others := by
      cases more with
      | nil => cases keys
      | cons other others => exact ⟨other, others, rfl⟩
    obtain ⟨key, value⟩ := entry
    rw [List.map_cons, List.map_cons, List.cons.injEq] at keys
    obtain ⟨rfl, behind⟩ := keys
    obtain ⟨absent, distinct⟩ := List.nodup_cons.mp distinct
    have here : some value = some found := by simpa using values key
    rw [Option.some.inj here, ih behind distinct]
    intro other
    by_cases same : other = key
    · -- The key is in neither of the tails.
      have gone {tail : Entries α} (free : key ∉ tail.map (·.1)) : tail.lookup key = none := by
        rw [List.lookup_eq_none_iff]
        intro pair member
        simpa using fun same : key = pair.1 => free (List.mem_map.mpr ⟨pair, member, same.symm⟩)
      rw [same, gone absent, gone (behind ▸ absent)]
    · have later := values other
      simpa [List.lookup_cons, beq_eq_false_iff_ne.mpr same] using later

end Stagecraft.Entries
