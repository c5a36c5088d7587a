/-!
Entries by key, in the order in which their keys first came.
-/

namespace Stagecraft

abbrev Entries (α : Type) := List (String × α)

namespace Entries

variable {α : Type}

/-- A key that is there keeps its place and takes the new value; a new key goes to the end. -/
def put (key : String) (value : α) : Entries α → Entries α
  | [] => [(key, value)]
  | (k, v) :: rest => if k = key then (k, value) :: rest else (k, v) :: put key value rest

def putAll (entries more : Entries α) : Entries α :=
  more.foldl (fun all entry => put entry.1 entry.2 all) entries

/-- The value of a key is the last one given for it. -/
def ofPairs (pairs : List (String × α)) : Entries α := putAll [] pairs

theorem lookup_put (entries : Entries α) (key other : String) (value : α) :
    (put key value entries).lookup other =
      if other = key then some value else entries.lookup other := by
  induction entries with
  | nil =>
    by_cases same : other = key
    · simp [put, same]
    · simp [put, List.lookup_cons, same, beq_eq_false_iff_ne.mpr same]
  | cons entry rest ih =>
    obtain ⟨k, v⟩ := entry
    by_cases here : k = key
    · subst here
      by_cases same : other = k
      · simp [put, same]
      · simp [put, List.lookup_cons, same, beq_eq_false_iff_ne.mpr same]
    · by_cases same : other = k
      · subst same
        simp [put, here]
      · simp [put, here, List.lookup_cons, beq_eq_false_iff_ne.mpr same, ih]

end Entries

end Stagecraft
