import Casebook.Definition.Source
import Casebook.Proofs.Dictionary

/-!
# Keys of documents

Whatever is read from a document, be it JSON or YAML, has the keys of each object in ascending order,
and so each of them once. Both readers put an object together by insertion, at every depth.

The readers descend with fuel, and with a bound on the depth of collections; the proofs are by
induction on these.
-/

namespace Casebook

/-- The keys of every object in a value ascend. -/
inductive Value.Ordered : Value → Prop where
  | null : Ordered .null
  | bool (b : Bool) : Ordered (.bool b)
  | number (n : Number) : Ordered (.number n)
  | string (s : String) : Ordered (.string s)
  | array {items : List Value} (each : ∀ v ∈ items, Ordered v) : Ordered (.array items)
  | object {entries : Dict Value} (ordered : entries.Ordered)
      (each : ∀ entry ∈ entries, Ordered entry.2) : Ordered (.object entries)

namespace Value

theorem ordered_empty : (object []).Ordered :=
  .object Dict.ordered_nil fun _ hentry => absurd hentry List.not_mem_nil

/-- An object stays ordered when an entry is inserted. -/
theorem ordered_insert {d : Dict Value} (h : (object d).Ordered) (key : String) {v : Value}
    (hv : v.Ordered) : (object (d.insert key v)).Ordered := by
  cases h with
  | object ordered each =>
    refine .object (ordered.insert key v) fun entry hentry => ?_
    rcases Dict.mem_insert hentry with rfl | hentry
    · exact hv
    · exact each entry hentry

theorem ordered_insertAll {d : Dict Value} (h : (object d).Ordered)
    {entries : List (String × Value)} (hentries : ∀ entry ∈ entries, entry.2.Ordered) :
    (object (d.insertAll entries)).Ordered := by
  induction entries generalizing d with
  | nil => exact h
  | cons first rest ih =>
    obtain ⟨hfirst, hrest⟩ := List.forall_mem_cons.mp hentries
    exact ih (ordered_insert h first.1 hfirst) hrest

end Value

/-! ## JSON -/

namespace Json

/-- What the readers of JSON read with some fuel is ordered, if entries already done are. -/
structure OrderedBy (fuel : ℕ) : Prop where
  value {room : ℕ} {s rest : List Char} {v : Value} (h : value? fuel room s = some (v, rest)) :
    v.Ordered
  items {room : ℕ} {s rest : List Char} {items : List Value}
    (h : items? fuel room s = some (items, rest)) : ∀ v ∈ items, v.Ordered
  entries {room : ℕ} {done entries : Dict Value} {s rest : List Char}
    (hdone : (Value.object done).Ordered) (h : entries? fuel room done s = some (entries, rest)) :
    (Value.object entries).Ordered

theorem OrderedBy.value_succ {fuel : ℕ} (hfuel : OrderedBy fuel) {room : ℕ} {s rest : List Char}
    {v : Value} (h : value? (fuel + 1) room s = some (v, rest)) : v.Ordered := by
  rw [value?] at h
  split at h
  · obtain ⟨_, -, heq⟩ := Option.map_eq_some_iff.mp h
    cases heq
    exact .null
  · obtain ⟨_, -, heq⟩ := Option.map_eq_some_iff.mp h
    cases heq
    exact .bool true
  · obtain ⟨_, -, heq⟩ := Option.map_eq_some_iff.mp h
    cases heq
    exact .bool false
  · obtain ⟨⟨text, r⟩, -, heq⟩ := Option.bind_eq_some_iff.mp h
    cases heq
    exact .string text
  · split at h
    · cases h
    · split at h
      · cases h
        exact .array fun v hv => absurd hv List.not_mem_nil
      · obtain ⟨⟨items, r⟩, hitems, heq⟩ := Option.bind_eq_some_iff.mp h
        cases heq
        exact .array (hfuel.items hitems)
  · split at h
    · cases h
    · split at h
      · cases h
        exact Value.ordered_empty
      · obtain ⟨⟨entries, r⟩, hentries, heq⟩ := Option.bind_eq_some_iff.mp h
        cases heq
        exact hfuel.entries Value.ordered_empty hentries
  · obtain ⟨⟨n, r⟩, -, heq⟩ := Option.bind_eq_some_iff.mp h
    cases heq
    exact .number n

theorem OrderedBy.items_succ {fuel : ℕ} (hfuel : OrderedBy fuel) {room : ℕ} {s rest : List Char}
    {items : List Value} (h : items? (fuel + 1) room s = some (items, rest)) :
    ∀ v ∈ items, v.Ordered := by
  rw [items?] at h
  obtain ⟨⟨item, r⟩, hitem, h⟩ := Option.bind_eq_some_iff.mp h
  simp only at h
  split at h
  · cases h
    exact List.forall_mem_singleton.mpr (hfuel.value hitem)
  · obtain ⟨⟨more, r⟩, hmore, heq⟩ := Option.bind_eq_some_iff.mp h
    cases heq
    exact List.forall_mem_cons.mpr ⟨hfuel.value hitem, hfuel.items hmore⟩
  · cases h

theorem OrderedBy.entries_succ {fuel : ℕ} (hfuel : OrderedBy fuel) {room : ℕ}
    {done entries : Dict Value} {s rest : List Char} (hdone : (Value.object done).Ordered)
    (h : entries? (fuel + 1) room done s = some (entries, rest)) :
    (Value.object entries).Ordered := by
  rw [entries?] at h
  split at h
  · obtain ⟨⟨key, r⟩, -, h⟩ := Option.bind_eq_some_iff.mp h
    simp only at h
    split at h
    · obtain ⟨⟨item, r⟩, hitem, h⟩ := Option.bind_eq_some_iff.mp h
      simp only at h
      have hinsert := Value.ordered_insert hdone key (hfuel.value hitem)
      split at h
      · cases h
        exact hinsert
      · exact hfuel.entries hinsert h
      · cases h
    · cases h
  · cases h

theorem orderedBy (fuel : ℕ) : OrderedBy fuel := by
  induction fuel with
  | zero =>
    constructor
    · intro _ _ _ _ h
      cases h
    · intro _ _ _ _ h
      cases h
    · intro _ _ _ _ _ _ h
      cases h
  | succ fuel ih => exact ⟨ih.value_succ, ih.items_succ, ih.entries_succ⟩

/-- What is read as JSON has its keys in order. -/
theorem ordered_of_parse? {text : String} {v : Value} (h : parse? text = some v) : v.Ordered := by
  obtain ⟨⟨v', rest⟩, hvalue, h⟩ := Option.bind_eq_some_iff.mp h
  simp only at h
  split at h
  · cases h
    exact (orderedBy _).value hvalue
  · cases h

end Json

/-! ## YAML -/

namespace Yaml

/-- All that a computation yields has a property. -/
def Yields {α : Type} (P : α → Prop) (m : Following α) : Prop :=
  ∀ left a left', m.run left = some (a, left') → P a

section Yields

variable {α β : Type} {P : α → Prop} {Q : β → Prop}

theorem yields_pure {a : α} (h : P a) : Yields P (pure a) := by
  intro left a' left' hrun
  cases hrun
  exact h

theorem yields_failure : Yields P failure := by
  intro left a left' hrun
  cases hrun

theorem yields_lift {result : Option α} (h : ∀ a, result = some a → P a) :
    Yields P (StateT.lift result) := by
  intro left a left' hrun
  cases result with
  | none => cases hrun
  | some a' =>
    cases hrun
    exact h a rfl

theorem yields_bind_of_forall {m : Following α} {f : α → Following β} (hf : ∀ a, Yields Q (f a)) :
    Yields Q (m >>= f) := by
  intro left b left' hrun
  obtain ⟨⟨a, left₁⟩, -, hnext⟩ := Option.bind_eq_some_iff.mp hrun
  exact hf a left₁ b left' hnext

theorem Yields.bind {m : Following α} {f : α → Following β} (hm : Yields P m)
    (hf : ∀ a, P a → Yields Q (f a)) : Yields Q (m >>= f) := by
  intro left b left' hrun
  obtain ⟨⟨a, left₁⟩, hfirst, hnext⟩ := Option.bind_eq_some_iff.mp hrun
  exact hf a (hm left a left₁ hfirst) left₁ b left' hnext

theorem yields_mapM {f : α → Following β} (hf : ∀ a, Yields Q (f a)) (items : List α) :
    Yields (fun results => ∀ b ∈ results, Q b) (items.mapM f) := by
  induction items with
  | nil => exact yields_pure fun b hb => absurd hb List.not_mem_nil
  | cons item rest ih =>
    rw [List.mapM_cons]
    refine (hf item).bind fun b hb => ih.bind fun results hresults => ?_
    exact yields_pure (List.forall_mem_cons.mpr ⟨hb, hresults⟩)

end Yields

theorem ordered_ofFloat (x : Float) : (ofFloat x).Ordered := by
  unfold ofFloat
  split
  · exact .number _
  · exact .null

theorem ordered_of_ofInt? {i : ℤ} {v : Value} (h : ofInt? i = some v) : v.Ordered := by
  unfold ofInt? at h
  split at h
  · cases h
    exact .number _
  · cases h

theorem ordered_of_plainValue? {s : String} {v : Value} (h : plainValue? s = some v) :
    v.Ordered := by
  unfold plainValue? at h
  split at h
  · cases h
    exact .null
  split at h
  · cases h
    exact .bool _
  split at h
  · exact ordered_of_ofInt? h
  split at h
  · cases h
    exact .string s
  split at h
  · cases h
    exact ordered_ofFloat _
  · cases h
    exact .string s

theorem ordered_of_value? {type : TypeTag} {s : String} {v : Value} (h : type.value? s = some v) :
    v.Ordered := by
  unfold TypeTag.value? at h
  split at h
  · obtain ⟨b, -, rfl⟩ := Option.map_eq_some_iff.mp h
    exact .bool b
  · obtain ⟨i, -, hi⟩ := Option.bind_eq_some_iff.mp h
    exact ordered_of_ofInt? hi
  · obtain ⟨x, -, rfl⟩ := Option.map_eq_some_iff.mp h
    exact ordered_ofFloat x
  · split at h
    · cases h
      exact .null
    · cases h

theorem ordered_of_scalarValue? {tag : Option Tag} {isPlain : Bool} {s : String} {v : Value}
    (h : scalarValue? tag isPlain s = some v) : v.Ordered := by
  unfold scalarValue? at h
  split at h
  · cases h
  split at h
  · split at h
    · exact ordered_of_value? h
    · cases h
      exact .string s
  · unfold untaggedValue? at h
    split at h
    · exact ordered_of_plainValue? h
    · cases h
      exact .string s

/-- The induction is on how deep collections may nest. -/
theorem yields_valueOf (anchors : Anchors) (depth : ℕ) (n : Node) :
    Yields Value.Ordered (valueOf anchors depth n) := by
  induction depth generalizing n with
  | zero =>
    refine yields_bind_of_forall fun n' => ?_
    split
    · exact yields_lift fun v hv => ordered_of_scalarValue? hv
    · exact yields_failure
  | succ depth ih =>
    refine yields_bind_of_forall fun n' => ?_
    split
    · exact yields_lift fun v hv => ordered_of_scalarValue? hv
    · next items =>
      have hitems : Yields Value.Ordered
          (do return .array (← items.mapM (valueOf anchors depth))) :=
        (yields_mapM ih items).bind fun results hresults => yields_pure (.array hresults)
      split
      · exact yields_bind_of_forall fun _ => hitems
      · exact hitems
    · next entries =>
      have hentry (entry : Node × Node) : Yields (fun e : String × Value => e.2.Ordered) (do
          let key ← keyText anchors entry.1
          return (key, ← valueOf anchors depth entry.2)) :=
        yields_bind_of_forall fun key => (ih entry.2).bind fun v hv => yields_pure hv
      have hentries : Yields Value.Ordered (do
          let entries ← entries.mapM fun entry => do
            let key ← keyText anchors entry.1
            return (key, ← valueOf anchors depth entry.2)
          return .object (Dict.ofList entries)) :=
        (yields_mapM hentry entries).bind fun results hresults =>
          yields_pure (Value.ordered_insertAll Value.ordered_empty hresults)
      split
      · exact yields_bind_of_forall fun _ => hentries
      · exact hentries
    · exact yields_failure

/-- What is read as YAML has its keys in order. -/
theorem ordered_of_read? {text : String} {v : Value} (h : read? text = some v) : v.Ordered := by
  obtain ⟨tokens, -, h⟩ := Option.bind_eq_some_iff.mp h
  obtain ⟨root, -, h⟩ := Option.bind_eq_some_iff.mp h
  obtain ⟨⟨v', left⟩, hvalue, h⟩ := Option.bind_eq_some_iff.mp h
  cases h
  exact yields_valueOf _ _ _ _ _ _ hvalue

end Yaml

/-! ## Documents -/

/-- What is read from a document has its keys in order. -/
theorem Source.ordered_of_readValue {files : Files} {path : String} {v : Value}
    (h : readValue files path = .ok v) : v.Ordered := by
  unfold readValue at h
  split at h
  · cases h
  split at h
  · cases h
  split at h
  · next v' hv =>
    cases h
    split at hv
    · exact Json.ordered_of_parse? hv
    · exact Yaml.ordered_of_read? hv
  · cases h

end Casebook
