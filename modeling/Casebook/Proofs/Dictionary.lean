import Casebook.Dict
import Mathlib.Data.List.Nodup
import Mathlib.Data.List.Perm.Subperm
import Mathlib.Data.String.Basic

/-!
# The order of dictionaries

What is built by insertion alone has its keys in strictly ascending order, so it has one entry a key,
and it is determined by what is found in it.
-/

namespace Casebook.Dict

variable {α : Type} {d d' : Dict α}

/-- The keys ascend. -/
def Ordered (d : Dict α) : Prop :=
  d.Pairwise fun entry entry' => entry.1 < entry'.1

theorem ordered_nil : Ordered ([] : Dict α) :=
  List.Pairwise.nil

theorem mem_insert {key : String} {value : α} {entry : String × α}
    (h : entry ∈ d.insert key value) : entry = (key, value) ∨ entry ∈ d := by
  induction d with
  | nil => exact .inl (List.mem_singleton.mp h)
  | cons first rest ih =>
    obtain ⟨k, v⟩ := first
    simp only [insert] at h
    split at h
    · exact (List.mem_cons.mp h).imp_right (List.mem_cons_of_mem _)
    · split at h
      · exact List.mem_cons.mp h
      · rcases List.mem_cons.mp h with rfl | h
        · exact .inr List.mem_cons_self
        · exact (ih h).imp_right (List.mem_cons_of_mem _)

/-- An entry is put in front of the first greater key. -/
theorem Ordered.insert (h : d.Ordered) (key : String) (value : α) : (d.insert key value).Ordered := by
  induction d with
  | nil => exact List.pairwise_singleton _ _
  | cons first rest ih =>
    obtain ⟨k, v⟩ := first
    obtain ⟨hfirst, hrest⟩ := List.pairwise_cons.mp h
    simp only [Dict.insert]
    split
    · next heq =>
      subst heq
      exact List.pairwise_cons.mpr ⟨hfirst, hrest⟩
    · next hne =>
      split
      · next hlt =>
        refine List.pairwise_cons.mpr ⟨fun entry hentry => ?_, h⟩
        rcases List.mem_cons.mp hentry with rfl | hentry
        · exact hlt
        · exact lt_trans hlt (hfirst entry hentry)
      · next hge =>
        refine List.pairwise_cons.mpr ⟨fun entry hentry => ?_, ih hrest⟩
        rcases mem_insert hentry with rfl | hentry
        · exact lt_of_le_of_ne (not_lt.mp hge) hne
        · exact hfirst entry hentry

theorem Ordered.insertAll (h : d.Ordered) (entries : List (String × α)) :
    (d.insertAll entries).Ordered := by
  induction entries generalizing d with
  | nil => exact h
  | cons entry rest ih => exact ih (h.insert entry.1 entry.2)

theorem ordered_ofList (entries : List (String × α)) : (ofList entries).Ordered :=
  ordered_nil.insertAll entries

theorem Ordered.nodup_keys (h : d.Ordered) : d.keys.Nodup := by
  refine List.Pairwise.map Prod.fst (fun entry entry' hlt => ?_) h
  exact ne_of_lt hlt

/-! ## Lookup in order -/

theorem get?_eq_none_of_not_mem {key : String} (h : key ∉ d.keys) : d.get? key = none := by
  cases hget : d.get? key with
  | none => rfl
  | some value => exact absurd (mem_keys_of_get? hget) h

/-- What is bound is a key, and every key is bound. -/
theorem contains_iff_mem_keys {key : String} : d.contains key = true ↔ key ∈ d.keys := by
  refine ⟨fun h => ?_, fun h => ?_⟩
  · obtain ⟨value, hget⟩ := Option.isSome_iff_exists.mp h
    exact mem_keys_of_get? hget
  · induction d with
    | nil => cases h
    | cons first rest ih =>
      obtain ⟨k, v⟩ := first
      rw [contains, get?_cons]
      split
      · rfl
      · next hne => exact ih ((List.mem_cons.mp h).resolve_left fun heq => hne heq.symm)

/-- Of entries with different keys each is found under its key. -/
theorem get?_eq_some_of_mem (h : d.keys.Nodup) {key : String} {value : α} (hmem : (key, value) ∈ d) :
    d.get? key = some value := by
  induction d with
  | nil => cases hmem
  | cons first rest ih =>
    obtain ⟨k, v⟩ := first
    obtain ⟨hfresh, hrest⟩ := List.nodup_cons.mp h
    rw [get?_cons]
    rcases List.mem_cons.mp hmem with heq | hmem
    · obtain ⟨rfl, rfl⟩ := Prod.mk.inj heq
      rw [if_pos rfl]
    · have hkey : key ∈ rest.map Prod.fst := List.mem_map_of_mem hmem
      have hne : k ≠ key := by
        rintro rfl
        exact hfresh hkey
      rw [if_neg hne]
      exact ih hrest hmem

/-- A key that is not bound yet gets an entry of its own, and all others stay. -/
theorem insert_perm {key : String} (h : d.get? key = none) (value : α) :
    (d.insert key value).Perm ((key, value) :: d) := by
  induction d with
  | nil => exact .refl _
  | cons first rest ih =>
    obtain ⟨k, v⟩ := first
    rw [get?_cons] at h
    simp only [insert]
    split at h
    · cases h
    next hne =>
    rw [if_neg hne]
    split
    · exact .refl _
    · exact ((ih h).cons (k, v)).trans (.swap _ _ _)

/-- Entries with different keys that are all unbound are all added. -/
theorem insertAll_perm {entries : List (String × α)} (hnodup : (entries.map Prod.fst).Nodup)
    (hfree : ∀ entry ∈ entries, d.get? entry.1 = none) :
    (d.insertAll entries).Perm (d ++ entries) := by
  induction entries generalizing d with
  | nil => rw [List.append_nil]; exact .refl _
  | cons entry rest ih =>
    rw [List.map_cons, List.nodup_cons] at hnodup
    obtain ⟨hentry, hrest⟩ := List.forall_mem_cons.mp hfree
    have hstill : ∀ other ∈ rest, (d.insert entry.1 entry.2).get? other.1 = none := by
      intro other hother
      have hkey : other.1 ∈ rest.map Prod.fst := List.mem_map_of_mem hother
      have hne : entry.1 ≠ other.1 := fun heq => hnodup.1 (heq ▸ hkey)
      rw [get?_insert_of_ne d entry.2 hne]
      exact hrest other hother
    have hfirst : (d.insert entry.1 entry.2 ++ rest).Perm (entry :: d ++ rest) :=
      (insert_perm hentry entry.2).append_right rest
    exact (ih hnodup.2 hstill).trans (hfirst.trans List.perm_middle.symm)

theorem ofList_perm {entries : List (String × α)} (hnodup : (entries.map Prod.fst).Nodup) :
    (ofList entries).Perm entries :=
  insertAll_perm (d := []) hnodup fun _ _ => rfl

/-- Entries with different keys are all found, and nothing else is. -/
theorem get?_ofList_eq_some_iff {entries : List (String × α)}
    (hnodup : (entries.map Prod.fst).Nodup) {key : String} {value : α} :
    (ofList entries).get? key = some value ↔ (key, value) ∈ entries := by
  rw [← (ofList_perm hnodup).mem_iff]
  exact ⟨mem_of_get?, get?_eq_some_of_mem (ordered_ofList entries).nodup_keys⟩

/-- The order leaves one way to arrange entries. -/
theorem Ordered.eq_of_perm (h : d.Ordered) (h' : d'.Ordered) (hperm : d.Perm d') : d = d' := by
  refine List.Perm.eq_of_pairwise (fun entry entry' _ _ hlt hgt => ?_) h h' hperm
  exact absurd hgt (lt_asymm hlt)

/-- Entries that are in order stay as they are when they are inserted one after another. -/
theorem Ordered.ofList_eq (h : d.Ordered) : ofList d = d :=
  (ordered_ofList d).eq_of_perm h (ofList_perm h.nodup_keys)

/-- What is found in a dictionary determines it. -/
theorem Ordered.ext (h : d.Ordered) (h' : d'.Ordered) (heq : ∀ key, d.get? key = d'.get? key) :
    d = d' := by
  -- Both have the same entries.
  have hsubset {d d' : Dict α} (h : d.Ordered) (heq : ∀ key, d.get? key = d'.get? key)
      (entry : String × α) (hmem : entry ∈ d) : entry ∈ d' :=
    mem_of_get? ((heq entry.1).symm.trans (get?_eq_some_of_mem h.nodup_keys hmem))
  refine h.eq_of_perm h' ?_
  refine (List.perm_ext_iff_of_nodup h.nodup_keys.of_map h'.nodup_keys.of_map).mpr fun entry => ?_
  exact ⟨hsubset h heq entry, hsubset h' (fun key => (heq key).symm) entry⟩

theorem Ordered.erase (h : d.Ordered) (key : String) : (d.erase key).Ordered :=
  List.Pairwise.filter _ h

/-- One entry is left when a key is unbound if no third key is bound. -/
theorem Ordered.erase_eq_singleton_iff (h : d.Ordered) {erased key : String} {value : α} :
    d.erase erased = [(key, value)] ↔ key ≠ erased ∧ d.get? key = some value ∧
      ∀ other, other ≠ erased → other ≠ key → d.get? other = none := by
  constructor
  · intro heq
    have hget (other : String) (hother : other ≠ erased) :
        d.get? other = if key = other then some value else none := by
      rw [← get?_erase_of_ne d (Ne.symm hother), heq, get?_cons, get?_nil]
    have hkey : key ≠ erased := by
      rintro rfl
      have hnone := get?_erase_self d key
      rw [heq, get?_cons, if_pos rfl] at hnone
      cases hnone
    refine ⟨hkey, by rw [hget key hkey, if_pos rfl], fun other hother hne => ?_⟩
    rw [hget other hother, if_neg (Ne.symm hne)]
  · rintro ⟨hkey, hvalue, hnone⟩
    refine (h.erase erased).ext (List.pairwise_singleton _ _) fun other => ?_
    rw [get?_cons, get?_nil]
    by_cases hother : other = erased
    · rw [hother, get?_erase_self, if_neg hkey]
    rw [get?_erase_of_ne d (Ne.symm hother)]
    split
    · next heq => rw [← heq, hvalue]
    · next hne => exact hnone other hother (Ne.symm hne)

/-! ## Lookup behind insertions -/

theorem get?_insertAll_of_not_mem {entries : List (String × α)} {key : String}
    (h : key ∉ entries.map Prod.fst) (d : Dict α) :
    (d.insertAll entries).get? key = d.get? key := by
  induction entries generalizing d with
  | nil => rfl
  | cons entry rest ih =>
    obtain ⟨k, v⟩ := entry
    rw [List.map_cons, List.mem_cons, not_or] at h
    show ((d.insert k v).insertAll rest).get? key = d.get? key
    rw [ih h.2, get?_insert_of_ne d v (Ne.symm h.1)]

/-- Of entries with different keys each is bound. -/
theorem get?_insertAll_of_mem {entries : List (String × α)} (hnodup : (entries.map Prod.fst).Nodup)
    {key : String} {value : α} (h : (key, value) ∈ entries) (d : Dict α) :
    (d.insertAll entries).get? key = some value := by
  induction entries generalizing d with
  | nil => cases h
  | cons entry rest ih =>
    obtain ⟨k, v⟩ := entry
    rw [List.map_cons, List.nodup_cons] at hnodup
    show ((d.insert k v).insertAll rest).get? key = some value
    rcases List.mem_cons.mp h with heq | hrest
    · obtain ⟨rfl, rfl⟩ := Prod.mk.inj heq
      rw [get?_insertAll_of_not_mem hnodup.1, get?_insert_self]
    · exact ih hnodup.2 hrest _

/-- What a key is bound to was bound to it before or is among the entries. -/
theorem mem_of_get?_insertAll {entries : List (String × α)} {key : String} {value : α}
    (h : (d.insertAll entries).get? key = some value) :
    (key, value) ∈ entries ∨ d.get? key = some value := by
  induction entries generalizing d with
  | nil => exact .inr h
  | cons entry rest ih =>
    obtain ⟨k, v⟩ := entry
    rcases ih (d := d.insert k v) h with hrest | hinsert
    · exact .inl (List.mem_cons_of_mem _ hrest)
    · by_cases hk : k = key
      · subst hk
        rw [get?_insert_self] at hinsert
        cases hinsert
        exact .inl List.mem_cons_self
      · rw [get?_insert_of_ne d v hk] at hinsert
        exact .inr hinsert

/-! ## Collected entries -/

/-- A dictionary is what entries come to when each stays unless a later one has its key. -/
structure Collects (entries : List (String × α)) (d : Dict α) : Prop where
  ordered : d.Ordered
  mem_keys_iff : ∀ key, key ∈ d.keys ↔ key ∈ entries.map Prod.fst
  last : ∀ before key value after, entries = before ++ (key, value) :: after →
    key ∉ after.map Prod.fst → d.get? key = some value

/-- Of the entries with a key there is a last one. -/
theorem exists_last_entry {entries : List (String × α)} {key : String}
    (h : key ∈ entries.map Prod.fst) :
    ∃ before value after, entries = before ++ (key, value) :: after ∧
      key ∉ after.map Prod.fst := by
  induction entries with
  | nil => cases h
  | cons entry rest ih =>
    by_cases hrest : key ∈ rest.map Prod.fst
    · obtain ⟨before, value, after, rfl, hafter⟩ := ih hrest
      exact ⟨entry :: before, value, after, rfl, hafter⟩
    · obtain rfl : key = entry.1 := (List.mem_cons.mp h).resolve_right hrest
      exact ⟨[], entry.2, rest, rfl, hrest⟩

theorem collects_ofList (entries : List (String × α)) : Collects entries (ofList entries) := by
  have hlast : ∀ before key value after, entries = before ++ (key, value) :: after →
      key ∉ after.map Prod.fst → (ofList entries).get? key = some value := by
    rintro before key value after rfl hafter
    rw [ofList, insertAll, List.foldl_append, List.foldl_cons]
    exact (get?_insertAll_of_not_mem hafter _).trans (get?_insert_self _ key value)
  refine ⟨ordered_ofList entries, fun key => ⟨fun h => ?_, fun h => ?_⟩, hlast⟩
  · by_contra hnot
    have hnone : (ofList entries).get? key = none := get?_insertAll_of_not_mem hnot []
    rw [← contains_iff_mem_keys, contains, hnone] at h
    cases h
  · obtain ⟨before, value, after, heq, hafter⟩ := exists_last_entry h
    exact mem_keys_of_get? (hlast before key value after heq hafter)

namespace Collects

variable {entries : List (String × α)}

theorem unique (h : Collects entries d) (h' : Collects entries d') : d = d' := by
  refine h.ordered.ext h'.ordered fun key => ?_
  by_cases hkey : key ∈ entries.map Prod.fst
  · obtain ⟨before, value, after, heq, hafter⟩ := exists_last_entry hkey
    rw [h.last _ _ _ _ heq hafter, h'.last _ _ _ _ heq hafter]
  · rw [get?_eq_none_of_not_mem (mt (h.mem_keys_iff key).mp hkey),
      get?_eq_none_of_not_mem (mt (h'.mem_keys_iff key).mp hkey)]

theorem eq_ofList (h : Collects entries d) : d = ofList entries :=
  h.unique (collects_ofList entries)

/-- All entries stay exactly if their keys are different. -/
theorem length_eq_iff (h : Collects entries d) :
    d.length = entries.length ↔ (entries.map Prod.fst).Nodup := by
  constructor
  · intro hlength
    have hsubperm : d.keys.Subperm (entries.map Prod.fst) :=
      h.ordered.nodup_keys.subperm fun key => (h.mem_keys_iff key).mp
    have hperm : d.keys.Perm (entries.map Prod.fst) :=
      hsubperm.perm_of_length_le (by rw [keys, List.length_map, List.length_map, hlength])
    exact hperm.nodup_iff.mp h.ordered.nodup_keys
  · intro hnodup
    rw [h.eq_ofList]
    exact (ofList_perm hnodup).length_eq

end Collects

end Casebook.Dict
