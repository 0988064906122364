/-!
# Dictionaries

A dictionary is an association list that `insert` keeps in ascending order of its keys, one
entry a key. Strings are ordered by code points. Reading never relies on the order, so the
laws of `get?` hold of every association list.
-/

namespace Casebook

/-- Entries of a dictionary, in ascending order of their keys. -/
abbrev Dict (α : Type) := List (String × α)

namespace Dict

variable {α β : Type}

/-- The value bound to a key. -/
def get? : Dict α → String → Option α
  | [], _ => none
  | (k, v) :: rest, key => if k = key then some v else get? rest key

/-- Whether a key is bound. -/
def contains (d : Dict α) (key : String) : Bool :=
  (d.get? key).isSome

/-- Bind a key, replacing the value it had. -/
def insert : Dict α → String → α → Dict α
  | [], key, value => [(key, value)]
  | (k, v) :: rest, key, value =>
    if k = key then (key, value) :: rest
    else if key < k then (key, value) :: (k, v) :: rest
    else (k, v) :: insert rest key value

/-- Unbind a key. -/
def erase (d : Dict α) (key : String) : Dict α :=
  d.filter fun entry => entry.1 ≠ key

/-- Insert entries one after another; of two entries with one key the later stays. -/
def insertAll (d : Dict α) (entries : List (String × α)) : Dict α :=
  entries.foldl (fun acc entry => acc.insert entry.1 entry.2) d

/-- The dictionary of a list of entries; of two entries with one key the later stays. -/
def ofList (entries : List (String × α)) : Dict α :=
  insertAll [] entries

/-- The keys, in order. -/
def keys (d : Dict α) : List String :=
  d.map Prod.fst

/-- Apply a function to every value. -/
def mapValues (f : α → β) (d : Dict α) : Dict β :=
  d.map fun entry => (entry.1, f entry.2)

/-! ## Laws of lookup -/

@[simp] theorem get?_nil (key : String) : get? ([] : Dict α) key = none := rfl

theorem get?_cons (k : String) (v : α) (rest : Dict α) (key : String) :
    get? ((k, v) :: rest) key = if k = key then some v else get? rest key := rfl

@[simp] theorem get?_insert_self (d : Dict α) (key : String) (value : α) :
    (d.insert key value).get? key = some value := by
  induction d with
  | nil => simp [insert, get?]
  | cons entry rest ih =>
    obtain ⟨k, v⟩ := entry
    simp only [insert]
    split
    · simp [get?]
    · split
      · simp [get?]
      · simp [get?, *]

theorem get?_insert_of_ne (d : Dict α) {key other : String} (value : α) (h : key ≠ other) :
    (d.insert key value).get? other = d.get? other := by
  induction d with
  | nil => simp [insert, get?, h]
  | cons entry rest ih =>
    obtain ⟨k, v⟩ := entry
    simp only [insert]
    split
    · next hk => subst hk; simp [get?, h]
    · split
      · simp [get?, h]
      · simp [get?, ih]

@[simp] theorem get?_erase_self (d : Dict α) (key : String) : (d.erase key).get? key = none := by
  induction d with
  | nil => rfl
  | cons entry rest ih =>
    obtain ⟨k, v⟩ := entry
    by_cases hk : k = key
    · simpa [erase, hk] using ih
    · simpa [erase, hk, get?] using ih

theorem get?_erase_of_ne (d : Dict α) {key other : String} (h : key ≠ other) :
    (d.erase key).get? other = d.get? other := by
  induction d with
  | nil => rfl
  | cons entry rest ih =>
    obtain ⟨k, v⟩ := entry
    by_cases hk : k = key
    · subst hk
      simpa [erase, get?, h] using ih
    · have ih' : get? (List.filter (fun entry => decide (entry.1 ≠ key)) rest) other
          = get? rest other := ih
      simp only [erase, List.filter_cons, ne_eq, hk, not_false_eq_true, decide_true, if_true, get?]
      split
      · rfl
      · simpa using ih'

theorem contains_insert (d : Dict α) (key : String) (value : α) (other : String) :
    (d.insert key value).contains other = (decide (key = other) || d.contains other) := by
  by_cases h : key = other
  · subst h
    simp [contains]
  · simp [contains, get?_insert_of_ne, h]

theorem contains_erase (d : Dict α) (key other : String) :
    (d.erase key).contains other = (!decide (key = other) && d.contains other) := by
  by_cases h : key = other
  · subst h
    simp [contains]
  · simp [contains, get?_erase_of_ne, h]

theorem get?_mapValues (f : α → β) (d : Dict α) (key : String) :
    (d.mapValues f).get? key = (d.get? key).map f := by
  induction d with
  | nil => rfl
  | cons entry rest ih =>
    obtain ⟨k, v⟩ := entry
    show get? ((k, f v) :: mapValues f rest) key = _
    rw [get?_cons, get?_cons, ih]
    split <;> rfl

theorem mem_of_get? {d : Dict α} {key : String} {value : α} (h : d.get? key = some value) :
    (key, value) ∈ d := by
  induction d with
  | nil => simp at h
  | cons entry rest ih =>
    obtain ⟨k, v⟩ := entry
    rw [get?_cons] at h
    split at h
    · next hk =>
      rw [hk, Option.some.inj h]
      exact List.mem_cons_self
    · exact List.mem_cons_of_mem _ (ih h)

theorem mem_keys_of_get? {d : Dict α} {key : String} {value : α} (h : d.get? key = some value) :
    key ∈ d.keys :=
  List.mem_map_of_mem (f := Prod.fst) (mem_of_get? h)

end Dict

end Casebook
