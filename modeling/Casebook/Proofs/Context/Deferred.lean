import Casebook.Proofs.Context.Reading
import Mathlib.Data.List.Chain
import Mathlib.Logic.Relation

/-!
# Deferred variables

The texts of a deferred value refer to variables, which may be deferred themselves. Where no
deferred value holds a call, reading a variable follows these references, and what comes of it can
be told from them: it succeeds exactly if all it reaches is in order and nothing it reaches reaches
itself, and no chain of deferred variables is too long for the levels there are. `IsGrounded` says
so, and `Expansion` says what the value then is.
-/

namespace Casebook.Context

open Computation Relation

/-! ## References between variables -/

section Definitions

variable (c : Context)

/-- A text in the deferred value of a variable refers to another variable. -/
def RefersTo (x y : String) : Prop :=
  ∃ text t, c.Has x text ∧ Template.parse c.limit text = .ok t ∧ y ∈ t.references

/-- The full expansion of a variable: its value as it is, or its deferred value by the expansions
of the variables that it refers to. -/
inductive Expansion : String → Value → Prop
  | concrete {name : String} {v : Value} (found : c.store.find? name = some ⟨v, false⟩) :
    Expansion name v
  | deferred {name : String} {v w : Value} {values : String → Value}
    (found : c.store.find? name = some ⟨v, true⟩)
    (inner : ∀ y, c.RefersTo name y → Expansion y (values y))
    (expanded : v.expand (fun y => .ok (values y)) c.limit = .ok w) :
    Expansion name w

/-- Deferred variables, each of which refers to the next. -/
structure IsDeferredChain (chain : List String) : Prop where
  refers : chain.IsChain c.RefersTo
  deferred : ∀ y ∈ chain, c.store.isDeferred y = true

/-- All that a variable reaches is in order, and no chain of deferred variables that begins with it
takes more than so many levels. -/
structure IsGrounded (room : ℕ) (name : String) : Prop where
  bound : ∀ y, ReflTransGen c.RefersTo name y → c.store.contains y = true
  accepted : ∀ y, ReflTransGen c.RefersTo name y →
    ∀ text, c.Has y text → ∃ t, Template.parse c.limit text = .ok t
  acyclic : ∀ y, ReflTransGen c.RefersTo name y → ¬TransGen c.RefersTo y y
  short : ∀ chain, c.IsDeferredChain chain → chain.head? = some name → chain.length ≤ room

end Definitions

variable {c : Context} {name x y text : String} {v w : Value} {room : ℕ}
  {expanding chain : List String}

theorem has_iff (hfind : c.store.find? name = some ⟨v, true⟩) :
    c.Has name text ↔ text ∈ v.texts := by
  constructor
  · rintro ⟨v', hfind', hmem⟩
    cases hfind.symm.trans hfind'
    exact hmem
  · intro hmem
    exact ⟨v, hfind, hmem⟩

theorem isDeferred_iff :
    c.store.isDeferred name = true ↔ ∃ v, c.store.find? name = some ⟨v, true⟩ := by
  rw [Store.isDeferred_eq]
  rcases c.store.find? name with _ | ⟨v, _ | _⟩ <;> simp

theorem RefersTo.isDeferred (h : c.RefersTo x y) : c.store.isDeferred x = true := by
  obtain ⟨text, t, ⟨v, hfind, -⟩, -⟩ := h
  exact isDeferred_iff.mpr ⟨v, hfind⟩

theorem not_refersTo_of_concrete (hfind : c.store.find? x = some ⟨v, false⟩) :
    ¬c.RefersTo x y := by
  rintro ⟨text, t, ⟨v', hfind', -⟩, -⟩
  cases hfind.symm.trans hfind'

/-! ## Full expansions -/

namespace Expansion

/-- What a variable with an expansion refers to has an expansion. -/
theorem of_refersTo (h : c.Expansion x v) (hxy : c.RefersTo x y) : ∃ w, c.Expansion y w := by
  cases h with
  | concrete found => exact absurd hxy (not_refersTo_of_concrete found)
  | deferred _ inner _ => exact ⟨_, inner y hxy⟩

theorem of_reaches (h : c.Expansion x v) (hxy : ReflTransGen c.RefersTo x y) :
    ∃ w, c.Expansion y w := by
  induction hxy with
  | refl => exact ⟨v, h⟩
  | tail _ hyz ih =>
    obtain ⟨w, hw⟩ := ih
    exact hw.of_refersTo hyz

theorem contains (h : c.Expansion name v) : c.store.contains name = true := by
  cases h with
  | concrete found => rw [Store.contains_eq, found]; rfl
  | deferred found _ _ => rw [Store.contains_eq, found]; rfl

/-- The induction is on the expansion: from a variable that reaches itself one gets to another one
that does. -/
theorem not_transGen_self (h : c.Expansion x v) : ¬TransGen c.RefersTo x x := by
  induction h with
  | concrete found =>
    intro hself
    obtain ⟨y, hxy, -⟩ := TransGen.head'_iff.mp hself
    exact not_refersTo_of_concrete found hxy
  | deferred _ _ _ ih =>
    intro hself
    obtain ⟨y, hxy, hyx⟩ := TransGen.head'_iff.mp hself
    exact ih y hxy (TransGen.tail'_iff.mpr ⟨_, hyx, hxy⟩)

/-- The texts of a variable with an expansion are templates. -/
theorem exists_parse (hfree : c.IsCallFree) (h : c.Expansion name v) (hhas : c.Has name text) :
    ∃ t, Template.parse c.limit text = .ok t := by
  cases h with
  | concrete found =>
    obtain ⟨v', hfind, -⟩ := hhas
    cases found.symm.trans hfind
  | deferred found _ expanded =>
    obtain ⟨t, ht, -⟩ := (Value.exists_expand_iff (hfree.hasCall_eq_false found)).mp
      ⟨_, expanded⟩ text ((has_iff found).mp hhas)
    exact ⟨t, ht⟩

/-- A variable has one expansion. -/
theorem unique (h : c.Expansion name v) (h' : c.Expansion name w) : v = w := by
  induction h generalizing w with
  | concrete found =>
    cases h' with
    | concrete found' => cases found.symm.trans found'; rfl
    | deferred found' _ _ => cases found.symm.trans found'
  | deferred found inner expanded ih =>
    cases h' with
    | concrete found' => cases found.symm.trans found'
    | deferred found' inner' expanded' =>
      cases found.symm.trans found'
      refine Except.ok.inj (expanded.symm.trans (Eq.trans ?_ expanded'))
      refine Value.expand_congr fun text hmem t ht y hy => ?_
      have hrefers : c.RefersTo _ y := ⟨text, t, ⟨_, found, hmem⟩, ht, hy⟩
      rw [ih y hrefers (inner' y hrefers)]

end Expansion

/-! ## Chains -/

theorem IsDeferredChain.cons (hxy : c.RefersTo x y) (h : c.IsDeferredChain chain)
    (hhead : chain.head? = some y) : c.IsDeferredChain (x :: chain) where
  refers := List.isChain_cons.mpr ⟨fun z hz => by
    obtain rfl := Option.some.inj (hhead.symm.trans hz)
    exact hxy, h.refers⟩
  deferred := List.forall_mem_cons.mpr ⟨hxy.isDeferred, h.deferred⟩

namespace IsGrounded

/-- What a variable refers to is grounded with one level less. -/
theorem of_refersTo (h : c.IsGrounded (room + 1) x) (hxy : c.RefersTo x y) :
    c.IsGrounded room y where
  bound z hyz := h.bound z (hyz.head hxy)
  accepted z hyz := h.accepted z (hyz.head hxy)
  acyclic z hyz := h.acyclic z (hyz.head hxy)
  short chain hchain hhead := by
    have hlength := h.short (x :: chain) (hchain.cons hxy hhead) rfl
    exact Nat.le_of_succ_le_succ hlength

theorem exists_find? (h : c.IsGrounded room x) : ∃ binding, c.store.find? x = some binding :=
  Option.isSome_iff_exists.mp (c.store.contains_eq x ▸ h.bound x .refl)

/-- A deferred variable takes a level. -/
theorem room_ne_zero (h : c.IsGrounded room x) (hfind : c.store.find? x = some ⟨v, true⟩) :
    room ≠ 0 := by
  have hdeferred : c.store.isDeferred x = true := isDeferred_iff.mpr ⟨v, hfind⟩
  have hlength := h.short [x] ⟨.singleton x, by simpa using hdeferred⟩ rfl
  exact Nat.one_le_iff_ne_zero.mp hlength

end IsGrounded

/-! ## Reading -/

theorem readingOver_eq_ok {deeper : List String → Value → Except Error Value} :
    c.readingOver deeper expanding name = .ok w ↔
      c.store.find? name = some ⟨w, false⟩ ∨ ∃ v, c.store.find? name = some ⟨v, true⟩ ∧
        name ∉ expanding ∧ deeper (expanding ++ [name]) v = .ok w := by
  unfold readingOver
  split
  · next hfind => simp [hfind]
  · next v hfind => simp [hfind]
  · next v hfind =>
    by_cases hmem : name ∈ expanding
    · simp [hfind, hmem]
    · simp [hfind, hmem]

/-- If a deferred value can be expanded, all variables that it refers to can be read. -/
theorem exists_reading_of_refersTo (hfree : c.IsCallFree)
    (hfind : c.store.find? x = some ⟨v, true⟩)
    (h : v.expand (c.reading room expanding) c.limit = .ok w) (hxy : c.RefersTo x y) :
    ∃ u, c.reading room expanding y = .ok u := by
  obtain ⟨text, t, hhas, ht, hy⟩ := hxy
  obtain ⟨t', ht', hread⟩ := (Value.exists_expand_iff (hfree.hasCall_eq_false hfind)).mp ⟨w, h⟩
    text ((has_iff hfind).mp hhas)
  cases ht.symm.trans ht'
  exact hread y hy

/-- What is read is the full expansion. The induction is on the room: what a deferred value refers
to is read with less. -/
theorem expansion_of_reading (hfree : c.IsCallFree)
    (h : c.reading room expanding name = .ok w) : c.Expansion name w := by
  induction room generalizing expanding name w with
  | zero =>
    rcases readingOver_eq_ok.mp h with hfind | ⟨v, -, -, hdeeper⟩
    · exact .concrete hfind
    · cases hdeeper
  | succ room ih =>
    rcases readingOver_eq_ok.mp h with hfind | ⟨v, hfind, -, hdeeper⟩
    · exact .concrete hfind
    · choose! values hvalues using fun y => exists_reading_of_refersTo (y := y) hfree hfind hdeeper
      refine .deferred hfind (fun y hy => ih (hvalues y hy)) (Eq.trans ?_ hdeeper)
      refine Value.expand_congr fun text hmem t ht y hy => ?_
      exact (hvalues y ⟨text, t, ⟨v, hfind, hmem⟩, ht, hy⟩).symm

/-- Where a variable can be read there is room for all deferred variables in a row. -/
theorem length_le_of_reading (hfree : c.IsCallFree)
    (h : c.reading room expanding name = .ok w) (hchain : c.IsDeferredChain chain)
    (hhead : chain.head? = some name) : chain.length ≤ room := by
  induction room generalizing expanding name w chain with
  | zero =>
    obtain ⟨v, hfind⟩ := isDeferred_iff.mp (hchain.deferred name (List.mem_of_mem_head? hhead))
    rcases readingOver_eq_ok.mp h with hfind' | ⟨-, -, -, hdeeper⟩
    · cases hfind.symm.trans hfind'
    · cases hdeeper
  | succ room ih =>
    obtain ⟨rest, rfl⟩ := List.head?_eq_some_iff.mp hhead
    obtain ⟨hnext, hrest⟩ := List.isChain_cons.mp hchain.refers
    cases hy : rest.head? with
    | none =>
      rw [List.head?_eq_none_iff.mp hy]
      exact Nat.le_add_left 1 room
    | some y =>
      have hrefers : c.RefersTo name y := hnext y hy
      rcases readingOver_eq_ok.mp h with hfind | ⟨v, hfind, -, hdeeper⟩
      · exact absurd hrefers (not_refersTo_of_concrete hfind)
      · obtain ⟨u, hu⟩ := exists_reading_of_refersTo hfree hfind hdeeper hrefers
        have hlength := ih hu ⟨hrest, fun z hz => hchain.deferred z (List.mem_cons_of_mem _ hz)⟩ hy
        exact Nat.succ_le_succ hlength

/-- A variable that can be read is grounded. -/
theorem isGrounded_of_reading (hfree : c.IsCallFree)
    (h : c.reading room expanding name = .ok w) : c.IsGrounded room name := by
  have hexpansion {y : String} (hy : ReflTransGen c.RefersTo name y) : ∃ u, c.Expansion y u :=
    (expansion_of_reading hfree h).of_reaches hy
  constructor
  case bound =>
    intro y hy
    obtain ⟨u, hu⟩ := hexpansion hy
    exact hu.contains
  case accepted =>
    intro y hy text hhas
    obtain ⟨u, hu⟩ := hexpansion hy
    exact hu.exists_parse hfree hhas
  case acyclic =>
    intro y hy
    obtain ⟨u, hu⟩ := hexpansion hy
    exact hu.not_transGen_self
  case short => exact fun chain => length_le_of_reading hfree h

/-- A grounded variable can be read while variables that reach it are being expanded. The induction
is on the room; none of the variables being expanded is met again, as it would reach itself. -/
theorem exists_reading_of_isGrounded (hfree : c.IsCallFree) (h : c.IsGrounded room name)
    (hexpanding : ∀ z ∈ expanding, TransGen c.RefersTo z name) :
    ∃ w, c.reading room expanding name = .ok w := by
  induction room generalizing expanding name with
  | zero =>
    obtain ⟨⟨v, _ | _⟩, hfind⟩ := h.exists_find?
    · exact ⟨v, readingOver_eq_ok.mpr (.inl hfind)⟩
    · exact absurd rfl (h.room_ne_zero hfind)
  | succ room ih =>
    obtain ⟨⟨v, _ | _⟩, hfind⟩ := h.exists_find?
    · exact ⟨v, readingOver_eq_ok.mpr (.inl hfind)⟩
    · have hfresh : name ∉ expanding := fun hmem => h.acyclic name .refl (hexpanding name hmem)
      have hinner (y : String) (hxy : c.RefersTo name y) :
          ∃ w, c.reading room (expanding ++ [name]) y = .ok w := by
        refine ih (h.of_refersTo hxy) fun z hz => ?_
        rcases List.mem_append.mp hz with hz | hz
        · exact (hexpanding z hz).tail hxy
        · exact List.mem_singleton.mp hz ▸ .single hxy
      have hexpand : ∃ w, v.expand (c.reading room (expanding ++ [name])) c.limit = .ok w := by
        refine (Value.exists_expand_iff (hfree.hasCall_eq_false hfind)).mpr fun text hmem => ?_
        have hhas : c.Has name text := (has_iff hfind).mpr hmem
        obtain ⟨t, ht⟩ := h.accepted name .refl text hhas
        exact ⟨t, ht, fun y hy => hinner y ⟨text, t, hhas, ht, hy⟩⟩
      obtain ⟨w, hw⟩ := hexpand
      exact ⟨w, readingOver_eq_ok.mpr (.inr ⟨v, hfind, hfresh, hw⟩)⟩

/-- Where no deferred value holds a call, reading a variable gives a value exactly if the variable
is grounded in the levels there are; the value is then its one full expansion. A variable that
reaches itself has no value. -/
theorem readVariable_eq_ok_iff (callFree : c.IsCallFree) (name : String) :
    ((∃ v, (c.readVariable name).1 = .ok v) ↔ c.IsGrounded c.limit name) ∧
      (∀ v, (c.readVariable name).1 = .ok v → ∀ w, c.Expansion name w ↔ w = v) ∧
      (TransGen c.RefersTo name name → ∀ v, (c.readVariable name).1 ≠ .ok v) := by
  rw [readVariable_eq callFree]
  refine ⟨⟨?_, ?_⟩, ?_, ?_⟩
  · rintro ⟨v, hv⟩
    exact isGrounded_of_reading callFree hv
  · intro hgrounded
    exact exists_reading_of_isGrounded callFree hgrounded fun z hz => nomatch hz
  · intro v hv w
    have hexpansion := expansion_of_reading callFree hv
    exact ⟨fun hw => hw.unique hexpansion, fun heq => heq ▸ hexpansion⟩
  · intro hself v hv
    exact (expansion_of_reading callFree hv).not_transGen_self hself

/-! ## An example -/

theorem refersTo_of_parse {names : List String} (hhas : c.Has x text)
    (h : (Template.parse c.limit text).map Template.references = .ok names) (hy : y ∈ names) :
    c.RefersTo x y := by
  obtain ⟨t, ht, rfl⟩ := map_eq_ok.mp h
  exact ⟨text, t, hhas, ht, hy⟩

/-- Variables of which one reaches another in two ways, and two that reach each other. -/
def diamondAndCircle : Context where
  store := ((Store.empty 0).set "d" (.string "x")).defineAll [("a", .string "$b and $c"),
    ("b", .string "<$d>"), ("c", .string "($d)"), ("e", .string "x$f"), ("f", .string "y$e")]
  verbs := []
  limit := 2

/-- In two levels the first variable has its full expansion; the last two have none in any. -/
theorem readVariable_eq_ok_iff_diamondAndCircle :
    diamondAndCircle.IsCallFree ∧ diamondAndCircle.IsGrounded 2 "a" ∧
      diamondAndCircle.Expansion "a" (.string "<x> and (x)") ∧
      TransGen diamondAndCircle.RefersTo "e" "e" ∧
      ∀ v, (diamondAndCircle.readVariable "e").1 ≠ .ok v := by
  have hfree : diamondAndCircle.IsCallFree := by
    rintro name text t ⟨v, hfind, hmem⟩ ht
    have hall : ∀ entry ∈ diamondAndCircle.store.values, ∀ text ∈ entry.2.texts,
        (Template.parse 2 text).toOption.any Template.hasCall = false := by decide +kernel
    have hcall := hall _ (Dict.mem_of_get? (Store.find?_eq_some_iff.mp hfind).1) text hmem
    rw [show Template.parse 2 text = .ok t from ht] at hcall
    exact hcall
  have htext : (diamondAndCircle.reading 2 [] "a").map Value.text? =
      .ok (some "<x> and (x)") := by decide +kernel
  have hread : (diamondAndCircle.readVariable "a").1 = .ok (.string "<x> and (x)") := by
    rw [readVariable_eq hfree]
    obtain ⟨v, hv, hstring⟩ := map_eq_ok.mp htext
    cases v with
    | string s => exact hv.trans (congrArg _ (congrArg _ (Option.some.inj hstring)))
    | _ => cases hstring
  have hcircle : TransGen diamondAndCircle.RefersTo "e" "e" := by
    have hxf : (Template.parse 2 "x$f").map Template.references = .ok ["f"] := by decide +kernel
    have hye : (Template.parse 2 "y$e").map Template.references = .ok ["e"] := by decide +kernel
    have hef : diamondAndCircle.RefersTo "e" "f" :=
      refersTo_of_parse ⟨.string "x$f", rfl, List.mem_cons_self⟩ hxf List.mem_cons_self
    have hfe : diamondAndCircle.RefersTo "f" "e" :=
      refersTo_of_parse ⟨.string "y$e", rfl, List.mem_cons_self⟩ hye List.mem_cons_self
    exact .tail (.single hef) hfe
  obtain ⟨hgrounded, hexpansion, -⟩ := readVariable_eq_ok_iff hfree "a"
  obtain ⟨-, -, hnone⟩ := readVariable_eq_ok_iff hfree "e"
  exact ⟨hfree, hgrounded.mp ⟨_, hread⟩, (hexpansion _ hread _).mpr rfl, hcircle, hnone hcircle⟩

end Casebook.Context
