import Casebook.Proofs.Computation
import Casebook.Value.Basic

/-!
# The texts of a value

The texts of a value are its strings and the keys of its objects. `mapTexts` works on these and on
nothing else, one after another, so what is known of the work on the texts is known of the work on
the value.

* `rel_mapTexts`: what relates the work on the texts, and what sequences keep, relates the work on
  the value;
* `exists_mapTexts_iff`: the work on the value comes to a result if the work on every text does.
-/

namespace Casebook.Value

mutual

/-- The strings and keys of a value, in order. -/
def texts : Value → List String
  | .null => []
  | .bool _ => []
  | .number _ => []
  | .string s => [s]
  | .array items => textsOfItems items
  | .object entries => textsOfEntries entries

/-- The strings and keys of each item, in order. -/
def textsOfItems : List Value → List String
  | [] => []
  | item :: rest => texts item ++ textsOfItems rest

/-- Each key and the strings and keys of its value, in order. -/
def textsOfEntries : List (String × Value) → List String
  | [] => []
  | (key, item) :: rest => key :: (texts item ++ textsOfEntries rest)

end

/-! ## Work on texts that is related -/

section Related

variable {m n : Type → Type} [Monad m] [Monad n]

/-- What relates the parts of sequences relates the sequences. -/
structure IsSequential (R : (α : Type) → m α → n α → Prop) : Prop where
  pure : ∀ {α : Type} (a : α), R α (pure a) (pure a)
  bind : ∀ {α β : Type} {x : m α} {y : n α} {f : α → m β} {g : α → n β},
    R α x y → (∀ a, R β (f a) (g a)) → R β (x >>= f) (y >>= g)

variable {R : (α : Type) → m α → n α → Prop} {onText : String → m Value}
  {onKey : String → m String} {onText' : String → n Value} {onKey' : String → n String}

mutual

theorem rel_mapTexts (hR : IsSequential R) (v : Value)
    (htext : ∀ t ∈ v.texts, R Value (onText t) (onText' t))
    (hkey : ∀ t ∈ v.texts, R String (onKey t) (onKey' t)) :
    R Value (v.mapTexts onText onKey) (v.mapTexts onText' onKey') := by
  cases v with
  | null => exact hR.pure _
  | bool b => exact hR.pure _
  | number n => exact hR.pure _
  | string s => exact htext s List.mem_cons_self
  | array items =>
    exact hR.bind (rel_mapTextsOfItems hR items htext hkey) fun _ => hR.pure _
  | object entries =>
    exact hR.bind (rel_mapTextsOfEntries hR [] entries htext hkey) fun _ => hR.pure _

theorem rel_mapTextsOfItems (hR : IsSequential R) (items : List Value)
    (htext : ∀ t ∈ textsOfItems items, R Value (onText t) (onText' t))
    (hkey : ∀ t ∈ textsOfItems items, R String (onKey t) (onKey' t)) :
    R (List Value) (mapTextsOfItems onText onKey items) (mapTextsOfItems onText' onKey' items) := by
  cases items with
  | nil => exact hR.pure _
  | cons item rest =>
    have hitem := rel_mapTexts hR item (fun t ht => htext t (List.mem_append_left _ ht))
      fun t ht => hkey t (List.mem_append_left _ ht)
    have hrest := rel_mapTextsOfItems hR rest (fun t ht => htext t (List.mem_append_right _ ht))
      fun t ht => hkey t (List.mem_append_right _ ht)
    exact hR.bind hitem fun _ => hR.bind hrest fun _ => hR.pure _

theorem rel_mapTextsOfEntries (hR : IsSequential R) (done : Dict Value)
    (entries : List (String × Value))
    (htext : ∀ t ∈ textsOfEntries entries, R Value (onText t) (onText' t))
    (hkey : ∀ t ∈ textsOfEntries entries, R String (onKey t) (onKey' t)) :
    R (Dict Value) (mapTextsOfEntries onText onKey done entries)
      (mapTextsOfEntries onText' onKey' done entries) := by
  cases entries with
  | nil => exact hR.pure _
  | cons entry rest =>
    obtain ⟨key, item⟩ := entry
    have hmem {t : String} (ht : t ∈ item.texts ∨ t ∈ textsOfEntries rest) :
        t ∈ textsOfEntries ((key, item) :: rest) :=
      List.mem_cons_of_mem _ (List.mem_append.mpr ht)
    have hitem := rel_mapTexts hR item (fun t ht => htext t (hmem (.inl ht)))
      fun t ht => hkey t (hmem (.inl ht))
    exact hR.bind (hkey key List.mem_cons_self) fun _ => hR.bind hitem fun _ =>
      rel_mapTextsOfEntries hR _ rest (fun t ht => htext t (hmem (.inr ht)))
        fun t ht => hkey t (hmem (.inr ht))

end

end Related

/-! ## Work on texts that comes to a result -/

section Results

open Computation

variable {ε : Type} {onText : String → Except ε Value} {onKey : String → Except ε String}

mutual

theorem exists_mapTexts_iff (hkey : ∀ t, (∃ s, onKey t = .ok s) ↔ ∃ v, onText t = .ok v)
    (v : Value) :
    (∃ w, v.mapTexts onText onKey = .ok w) ↔ ∀ t ∈ v.texts, ∃ w, onText t = .ok w := by
  cases v with
  | null => simp [mapTexts, texts]
  | bool b => simp [mapTexts, texts]
  | number n => simp [mapTexts, texts]
  | string s => simp [mapTexts, texts]
  | array items =>
    rw [mapTexts, exists_bind_pure_iff]
    exact exists_mapTextsOfItems_iff hkey items
  | object entries =>
    rw [mapTexts, exists_bind_pure_iff]
    exact exists_mapTextsOfEntries_iff hkey [] entries

theorem exists_mapTextsOfItems_iff (hkey : ∀ t, (∃ s, onKey t = .ok s) ↔ ∃ v, onText t = .ok v)
    (items : List Value) :
    (∃ w, mapTextsOfItems onText onKey items = .ok w) ↔
      ∀ t ∈ textsOfItems items, ∃ w, onText t = .ok w := by
  cases items with
  | nil => simp [mapTextsOfItems, textsOfItems]
  | cons item rest =>
    have hrest (item : Value) :
        (∃ items, (mapTextsOfItems onText onKey rest >>= fun rest => pure (item :: rest)) =
          .ok items) ↔ ∀ t ∈ textsOfItems rest, ∃ w, onText t = .ok w := by
      rw [exists_bind_pure_iff]
      exact exists_mapTextsOfItems_iff hkey rest
    rw [mapTextsOfItems, exists_bind_iff hrest, exists_mapTexts_iff hkey item, textsOfItems,
      List.forall_mem_append]

theorem exists_mapTextsOfEntries_iff
    (hkey : ∀ t, (∃ s, onKey t = .ok s) ↔ ∃ v, onText t = .ok v) (done : Dict Value)
    (entries : List (String × Value)) :
    (∃ w, mapTextsOfEntries onText onKey done entries = .ok w) ↔
      ∀ t ∈ textsOfEntries entries, ∃ w, onText t = .ok w := by
  cases entries with
  | nil => simp [mapTextsOfEntries, textsOfEntries]
  | cons entry rest =>
    obtain ⟨key, item⟩ := entry
    rw [mapTextsOfEntries, exists_bind_iff fun key => exists_bind_iff fun item =>
      exists_mapTextsOfEntries_iff hkey (done.insert key item) rest,
      hkey key, exists_mapTexts_iff hkey item, textsOfEntries, List.forall_mem_cons,
      List.forall_mem_append]

end

end Results

end Casebook.Value
