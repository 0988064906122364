import Casebook.Proofs.Template.Cutting
import Casebook.Proofs.Template.PlainText
import Casebook.Proofs.Value.Shape
import Mathlib

/-!
# Structured values

Resolving a value and replacing parameters in it both work on its texts alone, so both keep its shape:
only keys that become the same make entries of an object fewer. What has no placeholders resolves to
itself without a trace, and what has no parameters of a mapping stays as it is.
-/

namespace Casebook

open Casebook.Computation Value

/-- What is evaluated of a value at a level keeps its shape. -/
theorem Level.keepsShape_valueOver (rules : Rules) (fresh : String → Evaluation Value) (depth : ℕ)
    (below : Option (Unit → Level)) (expanding : List String) :
    KeepsShape fun v s w s' => exec (valueOver rules fresh depth below expanding v) s = (.ok w, s') :=
  keepsShape_mapTexts isRun_exec fun _ => rfl

/-- At every level a value without placeholders is its own value. -/
theorem Level.valueOver_eq_pure (rules : Rules) (fresh : String → Evaluation Value) (depth : ℕ)
    (below : Option (Unit → Level)) (expanding : List String) {v : Value} (hv : v.Ordered)
    (hplain : ∀ text ∈ v.texts, '$' ∉ text.toList) :
    valueOver rules fresh depth below expanding v = pure v := by
  have hstring (text : String) (h : text ∈ v.texts) :
      stringOver rules fresh depth below expanding text = pure (.string text) := by
    rw [stringOver, String.contains_char_eq, if_neg (by simpa using hplain text h)]
  refine mapTexts_eq_pure hv hstring fun key hkey => ?_
  rw [hstring key hkey, pure_bind]
  rfl

namespace Substitution

/-- What a value becomes when parameters are replaced keeps its shape. -/
theorem keepsShape_applyToValue (mapping : Dict Substitution) :
    KeepsShape fun v (_ : Unit) w _ => applyToValue mapping v = w :=
  keepsShape_mapTexts (m := Id) isRun_id fun _ => rfl

theorem applyToValue_eq_self {mapping : Dict Substitution} {v : Value} (hv : v.Ordered)
    (h : ∀ text ∈ v.texts, ∀ name, Occurs name text → mapping.get? name = none) :
    applyToValue mapping v = v := by
  show Id.run (v.mapTexts (fun s => pure (.string (apply mapping s)))
    fun key => pure (apply mapping key)) = v
  rw [mapTexts_eq_pure hv (fun text ht => by rw [apply_eq_self mapping (h text ht)])
    fun text ht => by rw [apply_eq_self mapping (h text ht)]]
  rfl

end Substitution

namespace Context

/-- Resolving a value and replacing parameters keep the shape of values. The parts of a value are
resolved in order, each in the state that the part before it left, at the level of the whole value;
and a value resolves in a context exactly if it does from its store. A value without a dollar in any
string or key resolves to itself and leaves the context as it is. A value in which no parameter
occurs, be it behind a dollar or in braces, is what it was after parameters are replaced. In both
cases its keys are in order before, as those of all values are that are read from documents. -/
theorem resolveValue_keepsShape (c : Context) (mapping : Dict Substitution) :
    let becomes (v : Value) (s : Session) (w : Value) (s' : Session) : Prop :=
      exec (c.level.value [] v) s = (.ok w, s')
    KeepsShape becomes ∧
    (∀ v w c', c.resolveValue v = (.ok w, c') ↔
      ∃ s', becomes v ⟨c.store, []⟩ w s' ∧ c' = { c with store := s'.store }) ∧
    (∀ v, v.Ordered → (∀ text ∈ v.texts, '$' ∉ text.toList) → c.resolveValue v = (.ok v, c)) ∧
    KeepsShape (fun v (_ : Unit) w _ => Substitution.applyToValue mapping v = w) ∧
    (∀ text, Substitution.applyToValue mapping (.string text) =
      .string (Substitution.apply mapping text)) ∧
    (∀ name text, Substitution.Occurs name text → ∃ before written rest,
      text.toList = before ++ (written ++ rest) ∧ Template.Refers name.toList written rest) ∧
    ∀ v, v.Ordered →
      (∀ text ∈ v.texts, ∀ name, Substitution.Occurs name text → mapping.get? name = none) →
        Substitution.applyToValue mapping v = v := by
  intro becomes
  obtain ⟨fresh, below, hlevel⟩ := Template.exists_level_eq c
  have hvalue (v : Value) :
      c.level.value [] v = Level.valueOver c.rules fresh 0 below [] v := by rw [hlevel]; rfl
  refine ⟨?_, fun v w c' => ?_, fun v hv hplain => ?_, Substitution.keepsShape_applyToValue mapping,
    fun _ => rfl, fun _ _ => Substitution.Occurs.exists_refers,
    fun _ => Substitution.applyToValue_eq_self⟩
  · simp only [becomes, hvalue]
    exact Level.keepsShape_valueOver c.rules fresh 0 below []
  · -- Of the session that is left a context keeps the store, and the journal goes.
    show ((exec (c.level.value [] v) ⟨c.store, []⟩).1,
      { c with store := (exec (c.level.value [] v) ⟨c.store, []⟩).2.store }) = (.ok w, c') ↔ _
    rw [Prod.mk.injEq]
    constructor
    · rintro ⟨hok, rfl⟩
      exact ⟨_, Prod.ext hok rfl, rfl⟩
    · rintro ⟨s', hexec, rfl⟩
      rw [hexec]
      exact ⟨rfl, rfl⟩
  · rw [resolveValue, hvalue, Level.valueOver_eq_pure _ _ _ _ _ hv hplain]
    rfl

end Context

/-- An object whose first key refers to a variable. -/
def Value.colliding : Value :=
  .object [("$a", .array [.string "$a", .nat 1]), ("b", .string "$$")]

/-- An object without a dollar. -/
def Value.plain : Value :=
  .object [("a", .array [.null, .string "b"]), ("b", .object [])]

/-- Texts in which one name occurs and another one stands behind two dollars. -/
def Value.escaped : Value :=
  .array [.string "$$p$q"]

theorem Value.ordered_plain : plain.Ordered := by
  refine .object (List.pairwise_pair.mpr (by decide)) fun entry hentry => ?_
  rcases List.mem_pair.mp hentry with rfl | rfl
  · refine .array fun v hv => ?_
    rcases List.mem_pair.mp hv with rfl | rfl
    · exact .null
    · exact .string "b"
  · exact ordered_empty

/-- Two keys become the same, and the later one has its value. -/
theorem Context.resolveValue_keepsShape_colliding :
    let c : Context := ⟨(Store.empty 0).set "a" (.string "b"), [], 3⟩
    let mapping : Dict Substitution := [("p", .plain "x")]
    c.resolveValue .colliding = (.ok (.object [("b", .string "$")]), c) ∧
      (∃ results : List (String × Value), results.length = 2 ∧ ¬(results.map Prod.fst).Nodup ∧
        Dict.Collects results [("b", .string "$")]) ∧
      Value.plain.Ordered ∧ (∀ text ∈ Value.plain.texts, '$' ∉ text.toList) ∧
      c.resolveValue .plain = (.ok .plain, c) ∧
      Value.escaped.Ordered ∧
      (∀ text ∈ Value.escaped.texts, ∀ name, Substitution.Occurs name text →
        mapping.get? name = none) ∧
      Substitution.applyToValue mapping .escaped = .escaped := by
  intro c mapping
  have hresolved : c.resolveValue .colliding = (.ok (.object [("b", .string "$")]), c) := by cbv
  obtain ⟨hshape, hresolve, hplain, -, -, -, hunchanged⟩ := resolveValue_keepsShape c mapping
  have hdollar : ∀ text ∈ Value.plain.texts, '$' ∉ text.toList := by decide
  have hordered : Value.escaped.Ordered :=
    .array fun v hv => List.mem_singleton.mp hv ▸ .string "$$p$q"
  have hfree : ∀ text ∈ Value.escaped.texts, ∀ name, Substitution.Occurs name text →
      mapping.get? name = none := by
    intro text htext name hoccurs
    obtain rfl : text = "$$p$q" := List.mem_singleton.mp htext
    obtain ⟨written, inArguments, hmem⟩ := hoccurs
    have hparts : Substitution.parts "$$p$q".toList =
        [.kept ['$', '$'], .kept ['p'], .occurrence ['$', 'q'] "q" false] := by cbv
    rw [hparts] at hmem
    simp only [List.mem_cons, reduceCtorEq, false_or, List.not_mem_nil, or_false,
      Substitution.Part.occurrence.injEq] at hmem
    rw [hmem.2.1]
    rfl
  refine ⟨hresolved, ?_, Value.ordered_plain, hdollar, hplain _ Value.ordered_plain hdollar, hordered,
    hfree, hunchanged _ hordered hfree⟩
  obtain ⟨s', hbecomes, -⟩ := (hresolve _ _ _).mp hresolved
  obtain ⟨results, d, hd, hentries, hcollects, hlength⟩ := (hshape.object _ _ _ _).mp hbecomes
  obtain rfl := Value.object.inj hd
  exact ⟨results, hentries.length_eq, fun hnodup => absurd (hlength.mpr hnodup) (by decide),
    hcollects⟩

end Casebook
