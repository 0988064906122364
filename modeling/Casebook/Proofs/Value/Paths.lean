import Casebook.Proofs.Template.Literals
import Casebook.Proofs.Text.Splitting
import Casebook.Proofs.Value.Ordered
import Casebook.Value.Path

/-!
# Following paths

A path is the sequence of its parts, and the empty ones do not count. So a path that is put together
of two leads where the second leads from the end of the first, and dots that name nothing make no
difference.

`Nested v steps w` says that one value lies in another, under keys and indexes from the outside in.
If no key among them is empty or has a dot, then the path that is written of them leads there.
-/

namespace Casebook.Value

/-! ## Paths put together -/

theorem descend_append (v : Value) (parts more : List (List Char)) :
    v.descend (parts ++ more) = (v.descend parts).bind fun w => w.descend more :=
  List.foldlM_append

/-- A dot between two paths is no part of either. -/
theorem pathParts_append_dot (p q : String) :
    pathParts (p ++ "." ++ q) = pathParts p ++ pathParts q := by
  have htext : (p ++ "." ++ q).toList = p.toList ++ '.' :: q.toList := by simp
  rw [pathParts, htext, Text.splitOn_append_cons, List.filter_append]
  rfl

theorem lookup_append_dot (v : Value) (p q : String) :
    v.lookup (p ++ "." ++ q) = (v.lookup p).bind fun w => w.lookup q := by
  rw [lookup, pathParts_append_dot, descend_append]
  rfl

@[simp] theorem lookup_empty (v : Value) : v.lookup "" = some v :=
  rfl

/-- A path of one part takes one step. -/
theorem lookup_part (v : Value) {part : String} (hne : part ≠ "") (hdot : '.' ∉ part.toList) :
    v.lookup part = v.child? part.toList := by
  have hparts : pathParts part = [part.toList] := by
    rw [pathParts, Text.splitOn_of_notMem hdot]
    simp [hne]
  rw [lookup, hparts, descend, List.foldlM_cons]
  cases v.child? part.toList <;> rfl

/-- A path that is written part by part is followed part by part. -/
theorem lookup_join (v : Value) (part : String) (parts : List String) :
    v.lookup (Text.join "." (part :: parts)) =
      (v.lookup part).bind fun w => w.lookup (Text.join "." parts) := by
  cases parts with
  | nil =>
    have hjoin : Text.join "." [part] = part := String.intercalate_singleton
    have hempty : Text.join "." [] = "" := rfl
    simp [hjoin, hempty]
  | cons next parts =>
    have hjoin : Text.join "." (part :: next :: parts) =
        part ++ "." ++ Text.join "." (next :: parts) := String.intercalate_cons_cons
    rw [hjoin, lookup_append_dot]

/-! ## Values inside values -/

/-- A step from a value to one in it: to the entry under a key, or to the item at an index. -/
inductive Step where
  | key (name : String)
  | index (i : ℕ)

namespace Step

/-- How a step is written in a path. -/
def text : Step → String
  | .key name => name
  | .index i => toString i

/-- A path has no part for the empty key, and takes a key with a dot for two. -/
def IsPart : Step → Prop
  | .key name => name ≠ "" ∧ '.' ∉ name.toList
  | .index _ => True

instance (step : Step) : Decidable step.IsPart :=
  match step with
  | .key name => inferInstanceAs (Decidable (name ≠ "" ∧ '.' ∉ name.toList))
  | .index _ => .isTrue trivial

theorem toList_text_index (i : ℕ) : (index i).text.toList = Nat.toDigits 10 i := by
  rw [text, Nat.toString_eq_ofList_toDigits, String.toList_ofList]

theorem IsPart.text_ne_empty {step : Step} (h : step.IsPart) : step.text ≠ "" := by
  cases step with
  | key => exact h.1
  | index i =>
    intro hempty
    have hdigits := toList_text_index i
    rw [hempty] at hdigits
    exact Nat.toDigits_ne_nil hdigits.symm

theorem IsPart.dot_notMem {step : Step} (h : step.IsPart) : '.' ∉ step.text.toList := by
  cases step with
  | key => exact h.2
  | index i =>
    intro hmem
    rw [toList_text_index] at hmem
    exact absurd (Literal.isDigit_of_mem_toDigits hmem) (by decide)

end Step

/-- A value lies in another, at the end of some steps. -/
inductive Nested : Value → List Step → Value → Prop where
  | here (v : Value) : Nested v [] v
  | entry {entries : Dict Value} {name : String} {v w : Value} {steps : List Step}
      (mem : (name, v) ∈ entries) (inner : Nested v steps w) :
      Nested (.object entries) (.key name :: steps) w
  | item {items : List Value} {i : ℕ} {v w : Value} {steps : List Step}
      (getElem_eq : items[i]? = some v) (inner : Nested v steps w) :
      Nested (.array items) (.index i :: steps) w

theorem child?_entry {entries : Dict Value} (h : entries.Ordered) {name : String} {v : Value}
    (mem : (name, v) ∈ entries) : (object entries).child? name.toList = some v := by
  rw [child?, String.ofList_toList]
  exact Dict.get?_eq_some_of_mem h.nodup_keys mem

theorem child?_item {items : List Value} {i : ℕ} {v : Value} (h : items[i]? = some v) :
    (array items).child? (Step.index i).text.toList = some v := by
  rw [child?, Step.toList_text_index, Literal.nat?_toDigits]
  exact h

/-- The path that is written of the steps to a value leads to it. The induction is on the steps. -/
theorem Nested.lookup_eq {v w : Value} {steps : List Step} (h : Nested v steps w) (hv : v.Ordered)
    (hsteps : ∀ step ∈ steps, step.IsPart) :
    v.lookup (Text.join "." (steps.map Step.text)) = some w := by
  induction h with
  | here v => exact lookup_empty v
  | entry mem inner ih =>
    obtain ⟨hstep, hrest⟩ := List.forall_mem_cons.mp hsteps
    cases hv with
    | object ordered each =>
      have hchild := child?_entry ordered mem
      rw [List.map_cons, lookup_join, lookup_part _ hstep.text_ne_empty hstep.dot_notMem, Step.text,
        hchild]
      exact ih (each _ mem) hrest
  | item getElem_eq inner ih =>
    obtain ⟨hstep, hrest⟩ := List.forall_mem_cons.mp hsteps
    cases hv with
    | array each =>
      rw [List.map_cons, lookup_join, lookup_part _ hstep.text_ne_empty hstep.dot_notMem,
        child?_item getElem_eq]
      exact ih (each _ (List.mem_of_getElem? getElem_eq)) hrest

/-- Paths compose. A path with a dot in the middle leads where its second half leads from the end of
the first, and nowhere just if one of them does; a dot in front, at the end or beside another makes
no difference; and the dotted path of the keys and indexes around a value leads to it. -/
theorem lookup_composes (v : Value) (p q : String) :
    v.lookup (p ++ "." ++ q) = (v.lookup p).bind (fun w => w.lookup q) ∧
      (v.lookup (p ++ "." ++ q) = none ↔
        v.lookup p = none ∨ ∃ w, v.lookup p = some w ∧ w.lookup q = none) ∧
      v.lookup ("." ++ p) = v.lookup p ∧ v.lookup (p ++ ".") = v.lookup p ∧
      v.lookup (p ++ ".." ++ q) = v.lookup (p ++ "." ++ q) ∧
      ∀ steps w, v.Ordered → Nested v steps w → (∀ step ∈ steps, step.IsPart) →
        v.lookup (Text.join "." (steps.map Step.text)) = some w := by
  have hleading : v.lookup ("." ++ p) = v.lookup p := by
    have happend := lookup_append_dot v "" p
    rwa [String.empty_append, lookup_empty, Option.bind_some] at happend
  have htrailing : v.lookup (p ++ ".") = v.lookup p := by
    have happend := lookup_append_dot v p ""
    simpa using happend
  have hdoubled : v.lookup (p ++ ".." ++ q) = v.lookup (p ++ "." ++ q) := by
    have hdots : ".." = "." ++ "." := rfl
    rw [hdots, ← String.append_assoc, lookup_append_dot, htrailing, lookup_append_dot]
  refine ⟨lookup_append_dot v p q, ?_, hleading, htrailing, hdoubled,
    fun steps w hv hnested hsteps => hnested.lookup_eq hv hsteps⟩
  rw [lookup_append_dot, Option.bind_eq_none_iff]
  cases v.lookup p <;> simp

/-- An invoice with an item at an index, and an entry whose key no path can name. -/
def invoice : Value :=
  .object [("a.b", .null), ("data", .object [("items", .array [.null, .object [("id", .int 7)]])])]

theorem ordered_invoice : invoice.Ordered := by
  have hid : (object [("id", .int 7)]).Ordered := ordered_insert ordered_empty "id" (.number _)
  have hitems : (array [.null, .object [("id", .int 7)]]).Ordered := by
    refine .array fun v hv => ?_
    simp only [List.mem_cons, List.not_mem_nil, or_false] at hv
    rcases hv with rfl | rfl
    · exact .null
    · exact hid
  have hdata := ordered_insert ordered_empty "items" hitems
  exact ordered_insert (ordered_insert ordered_empty "a.b" .null) "data" hdata

/-- The dots around the parts do not count. The key with a dot in it is taken for two. -/
theorem lookup_composes_invoice :
    invoice.Ordered ∧ Nested invoice [.key "data", .key "items", .index 1, .key "id"] (.int 7) ∧
      invoice.lookup "data.items.1.id" = some (.int 7) ∧
      invoice.lookup "data..items.1.id" = some (.int 7) ∧ invoice.lookup "a.b" = none := by
  have hnested : Nested invoice [.key "data", .key "items", .index 1, .key "id"] (.int 7) := by
    refine .entry (List.mem_cons_of_mem _ List.mem_cons_self) (.entry List.mem_cons_self ?_)
    exact .item rfl (.entry List.mem_cons_self (.here _))
  have hparts : ∀ step ∈ [Step.key "data", .key "items", .index 1, .key "id"], step.IsPart := by
    decide
  have hjoin : Text.join "." ([Step.key "data", .key "items", .index 1, .key "id"].map Step.text) =
      "data.items.1.id" := by decide +kernel
  obtain ⟨-, -, -, -, hdoubled, hreaches⟩ := lookup_composes invoice "data" "items.1.id"
  have hitem := hreaches _ _ ordered_invoice hnested hparts
  rw [hjoin] at hitem
  exact ⟨ordered_invoice, hnested, hitem, hdoubled.trans hitem, rfl⟩

end Casebook.Value
