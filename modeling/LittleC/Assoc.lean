/-! Association lists kept in the order of their keys: one entry for each key,
the last one written. Keys are compared by code points, which is also the order
of their bytes. `List.lookup` reads them; `lookup_insert` is what a write does to
every later look-up. -/
namespace LittleC.Assoc

/-- Writes an entry at its place, over an earlier one for the same key. -/
def insert (key : String) (value : α) : List (String × α) → List (String × α)
  | [] => [(key, value)]
  | (k, v) :: rest =>
    if key = k then (key, value) :: rest
    else if key < k then (key, value) :: (k, v) :: rest
    else (k, v) :: insert key value rest

/-- Writes the entries one after the other. -/
def insertAll (entries : List (String × α)) (pairs : List (String × α)) : List (String × α) :=
  pairs.foldl (fun m p => insert p.1 p.2 m) entries

/-- The entries of a list of pairs; of two for one key the later stays. -/
def ofPairs (pairs : List (String × α)) : List (String × α) :=
  insertAll [] pairs

@[simp] theorem lookup_insert_self (key : String) (value : α) (entries : List (String × α)) :
    (insert key value entries).lookup key = some value := by
  induction entries with
  | nil => simp [insert]
  | cons entry rest ih =>
    obtain ⟨k, v⟩ := entry
    by_cases h : key = k
    · simp [insert, h]
    · have hk : (key == k) = false := by simpa using h
      by_cases hlt : key < k
      · simp [insert, h, hlt]
      · simp [insert, h, hlt, List.lookup_cons, hk, ih]

theorem lookup_insert_of_ne {key other : String} (h : other ≠ key) (value : α)
    (entries : List (String × α)) :
    (insert key value entries).lookup other = entries.lookup other := by
  have ho : (other == key) = false := by simpa using h
  induction entries with
  | nil => simp [insert, List.lookup_cons, ho]
  | cons entry rest ih =>
    obtain ⟨k, v⟩ := entry
    by_cases hk : key = k
    · subst hk
      simp [insert, List.lookup_cons, ho]
    · by_cases hlt : key < k
      · simp [insert, hk, hlt, List.lookup_cons, ho]
      · simp [insert, hk, hlt, List.lookup_cons, ih]

/-- A write is seen under its own key, and nothing else changes. -/
theorem lookup_insert (key other : String) (value : α) (entries : List (String × α)) :
    (insert key value entries).lookup other =
      if other = key then some value else entries.lookup other := by
  by_cases h : other = key
  · simp [h]
  · simp [h, lookup_insert_of_ne h]

end LittleC.Assoc
