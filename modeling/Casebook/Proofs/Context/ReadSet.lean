import Casebook.Proofs.Context.Invocations
import Casebook.Proofs.Context.Reading
import Casebook.Proofs.Dictionary

/-!
# What a template reads

The variables that a template refers to, arguments of calls at any depth included, are all that it
reads, and each of them is read: `references` is no less and no more than the read set of a
template. This holds where verbs are functions of their arguments and no variable is deferred, since
then nothing but the variables of the template itself leads from it to the store.

`ReadsExactly` is the two-run property of a result that a store determines: stores that agree on some
names determine the same, and where there is a value, each of the names is missed. A sequence of two
results has it for the names of both, as the second is not reached before all names of the first are
found. `Evaluation.Reads` is the property of an evaluation; it goes through segments, arguments and
levels as `references` does.
-/

namespace Casebook

open Computation

/-! ## Results that a store determines -/

/-- A result depends on what some names are bound to and on nothing else, and it is no value unless
all of them are bound: without any one of them it is the error that this one is unbound. -/
structure ReadsExactly {α : Type} (names : List String) (result : Store → Except Error α) : Prop where
  agrees : ∀ store store', (∀ name ∈ names, store.get? name = store'.get? name) →
    result store = result store'
  misses : ∀ store a name, result store = .ok a → name ∈ names →
    result (store.remove name) = .error (.unresolvedVariable name)

theorem Store.get?_remove_self (s : Store) (name : String) : (s.remove name).get? name = none :=
  Dict.get?_erase_self s.values name

theorem Store.get?_remove_of_ne (s : Store) {name other : String} (h : name ≠ other) :
    (s.remove name).get? other = s.get? other :=
  Dict.get?_erase_of_ne s.values h

theorem Store.get?_set_of_ne (s : Store) {name other : String} (v : Value) (h : name ≠ other) :
    (s.set name v).get? other = s.get? other :=
  Dict.get?_insert_of_ne s.values v h

theorem Store.IsConcrete.remove {s : Store} (hs : s.IsConcrete) (name : String) :
    (s.remove name).IsConcrete := by
  intro other binding hother
  by_cases h : name = other
  · subst h
    rw [find?_remove_self] at hother
    cases hother
  · rw [find?_remove_of_ne s h] at hother
    exact hs other binding hother

/-- A store without deferred variables has no names of such. -/
theorem Store.IsConcrete.deferredNames_eq_nil {s : Store} (hs : s.IsConcrete) :
    s.deferredNames = [] := by
  refine List.eq_nil_iff_forall_not_mem.mpr fun name hname => ?_
  -- What is marked has a binding, and the mark shows in it.
  have hmark : s.isDeferred name = true := Dict.contains_iff_mem_keys.mpr hname
  rw [isDeferred_eq, Option.any_eq_true] at hmark
  obtain ⟨binding, hfind, hdeferred⟩ := hmark
  rw [hs name binding hfind] at hdeferred
  cases hdeferred

section ReadsExactly

variable {α β : Type} {names names' : List String} {result : Store → Except Error α}

/-- What is the same for all stores reads nothing. -/
theorem readsExactly_const (r : Except Error α) : ReadsExactly [] fun _ => r where
  agrees _ _ _ := rfl
  misses _ _ _ _ h := absurd h List.not_mem_nil

/-- What is never a value reads whatever it may be said to read. -/
theorem readsExactly_error (names : List String) (e : Error) :
    ReadsExactly names fun _ => (.error e : Except Error α) where
  agrees _ _ _ := rfl
  misses _ _ _ h _ := by cases h

theorem readsExactly_require (name : String) :
    ReadsExactly [name] fun store => store.require name where
  agrees store store' h := by
    rw [Store.require, Store.require, h name List.mem_cons_self]
  misses store v other _ h := by
    rw [List.mem_singleton.mp h, Store.require, Store.get?_remove_self]

/-- The second of two results is reached only where the first is a value, so the names of the first
are missed before those of the second. -/
theorem ReadsExactly.bind {results : α → Store → Except Error β} (h : ReadsExactly names result)
    (h' : ∀ a, ReadsExactly names' (results a)) :
    ReadsExactly (names ++ names') fun store => result store >>= fun a => results a store where
  agrees store store' hagree := by
    obtain ⟨hnames, hnames'⟩ := List.forall_mem_append.mp hagree
    simp only [h.agrees store store' hnames, (h' _).agrees store store' hnames']
  misses store b name hvalue hname := by
    obtain ⟨a, hfirst, hsecond⟩ := bind_eq_ok.mp hvalue
    by_cases hmem : name ∈ names
    · simp only [h.misses store a name hfirst hmem]
      rfl
    · -- The first result does not read this name, so it stays a value.
      have hsame : result (store.remove name) = .ok a := by
        rw [← hfirst]
        refine h.agrees _ _ fun other hother => store.get?_remove_of_ne ?_
        rintro rfl
        exact hmem hother
      simp only [hsame, ok_bind]
      exact (h' a).misses store b name hsecond ((List.mem_append.mp hname).resolve_left hmem)

end ReadsExactly

/-! ## Evaluations -/

/-- Where no variable is deferred, an evaluation leaves the store as it is, and what it gives reads
exactly some names. -/
def Evaluation.Reads {α : Type} (names : List String) (m : Evaluation α) : Prop :=
  ∃ result, ReadsExactly names result ∧ ∀ store, store.IsConcrete → Gives store m (result store)

namespace Evaluation

variable {α β : Type} {names names' : List String} {m : Evaluation α}

theorem reads_pure (a : α) : Reads [] (pure a : Evaluation α) :=
  ⟨_, readsExactly_const (.ok a), fun _ _ => gives_pure a⟩

theorem reads_throw (names : List String) (e : Error) : Reads names (throw e : Evaluation α) :=
  ⟨_, readsExactly_error names e, fun _ _ => gives_throw e⟩

theorem Reads.bind {f : α → Evaluation β} (hm : m.Reads names) (hf : ∀ a, (f a).Reads names') :
    Reads (names ++ names') (m >>= f) := by
  obtain ⟨result, hresult, hgives⟩ := hm
  choose results hresults hgives' using hf
  exact ⟨_, hresult.bind hresults, fun store hstore =>
    gives_bind (hgives store hstore) fun a _ => hgives' a store hstore⟩

/-- What is made of the value reads nothing more. -/
theorem Reads.map (hm : m.Reads names) (g : α → β) : Reads names (m >>= fun a => pure (g a)) := by
  have h := hm.bind fun a => reads_pure (g a)
  rwa [List.append_nil] at h

end Evaluation

/-! ## Verbs that are functions -/

/-- A verb is a function of its arguments: what it answers depends on them alone, and it leaves the
store as it is. -/
def Verb.IsFunction (verb : Verb) : Prop :=
  ∃ f : Arguments → Except Error Value,
    ∀ args store, store.IsConcrete → verb.answer args store = (f args, store)

/-- All verbs are functions of their arguments. -/
def Registry.AreFunctions (verbs : Registry) : Prop :=
  ∀ name verb, verbs.get? name = some verb → verb.IsFunction

namespace Level

open Evaluation

variable {rules : Rules} {depth : ℕ} {below : Option (Unit → Level)} {expanding : List String}

theorem reads_variableOver (name : String) :
    (variableOver rules depth below expanding name).Reads [name] := by
  refine ⟨_, readsExactly_require name, ?_⟩
  rintro _ hstore s rfl
  rw [exec_variableOver_of_isConcrete name hstore]
  exact ⟨rfl, rfl⟩

theorem reads_descend {α : Type} {names : List String} {level : Unit → Level}
    {work : Level → Evaluation α} (hwork : (work (level ())).Reads names) :
    (descend rules depth (some level) expanding work).Reads names := by
  obtain ⟨result, hresult, hgives⟩ := hwork
  exact ⟨result, hresult, fun store hstore => gives_descend (hgives store hstore)⟩

/-- The templates of a level read what they refer to. -/
def ReadsReferences (expanding : List String) (level : Level) : Prop :=
  ∀ segments, (level.template expanding segments).Reads (Segment.referencesOfSegments segments)

theorem reads_argumentsAt {level : Level} (hlevel : level.ReadsReferences expanding)
    (args : List Argument) (done : Arguments) :
    (argumentsAt level expanding args done).Reads (Segment.referencesOfArgs args) := by
  induction args generalizing done with
  | nil => exact reads_pure done
  | cons a rest ih =>
    cases a with
    | literal key v source => exact (reads_pure v).bind fun v => ih (done.add key v)
    | quoted key delimiter body source =>
      exact (hlevel body).bind fun v => (reads_pure (Value.string v.render)).bind fun v =>
        ih (done.add key v)
    | expr key body source => exact (hlevel body).bind fun v => ih (done.add key v)

variable (hverbs : rules.verbs.AreFunctions) (n : ℕ)

include hverbs

/-- What a function of its arguments gives reads nothing more. -/
theorem reads_invoke (name : String) (args : Arguments) :
    (rules.invoke (rules.fresh n) name args).Reads [] := by
  cases hverb : rules.verbs.get? name with
  | none =>
    have hunknown : rules.invoke (rules.fresh n) name args = throw (.unknownFunction name) := by
      rw [Rules.invoke, hverb]
    rw [hunknown]
    exact reads_throw [] _
  | some verb =>
    cases hbind : verb.signature.bind name args with
    | error e =>
      refine ⟨_, readsExactly_const (.error e), fun _ _ s hs => ?_⟩
      rw [exec_invoke_of_refused hverb hbind]
      exact ⟨rfl, hs⟩
    | ok bound =>
      obtain ⟨f, hf⟩ := hverbs name verb hverb
      refine ⟨_, readsExactly_const (f bound), ?_⟩
      rintro _ hstore s rfl
      rw [exec_invoke_of_bind_ok n hverb hbind hstore, hf bound s.store hstore]
      exact ⟨rfl, rfl⟩

theorem reads_callOver (hbelow : ∀ level, below = some level → (level ()).ReadsReferences expanding)
    (c : Call) :
    (callOver rules (rules.fresh n) depth below expanding c).Reads
      (Segment.referencesOfArgs c.args) := by
  cases hknown : rules.verbs.contains c.name with
  | false =>
    rw [callOver, hknown]
    exact reads_throw _ (.unknownFunction c.name)
  | true =>
    rw [callOver_eq_of_contains hknown]
    cases below with
    | none => exact reads_throw _ (.recursionLimit rules.limit)
    | some level =>
      refine reads_descend ?_
      have h := (reads_argumentsAt (hbelow level rfl) c.args Arguments.none).bind
        fun args => reads_invoke hverbs n c.name args
      rwa [List.append_nil] at h

variable (hbelow : ∀ level, below = some level → (level ()).ReadsReferences expanding)

include hbelow

theorem reads_segmentOver (s : Segment) :
    (segmentOver rules (rules.fresh n) depth below expanding s).Reads s.references := by
  cases s with
  | text text => exact reads_pure _
  | var name => exact reads_variableOver name
  | call c =>
    obtain ⟨name, args⟩ := c
    exact reads_callOver hverbs n hbelow ⟨name, args⟩

theorem reads_textOver (segments : List Segment) :
    (textOver rules (rules.fresh n) depth below expanding segments).Reads
      (Segment.referencesOfSegments segments) := by
  induction segments with
  | nil => exact reads_pure _
  | cons s rest ih =>
    exact (reads_segmentOver hverbs n hbelow s).bind fun v => ih.map fun more => v.render ++ more

theorem reads_templateOver (segments : List Segment) :
    (templateOver rules (rules.fresh n) depth below expanding segments).Reads
      (Segment.referencesOfSegments segments) := by
  unfold templateOver
  cases hsole : (Template.mk segments).solePlaceholder? with
  | some s =>
    obtain rfl : segments = [s] := Template.segments_of_solePlaceholder? hsole
    rw [show Segment.referencesOfSegments [s] = s.references from List.append_nil _]
    exact reads_segmentOver hverbs n hbelow s
  | none => exact (reads_textOver hverbs n hbelow segments).map Value.string

omit hbelow in
/-- The induction is on the number of levels that may yet be opened. -/
theorem readsReferences_tower (room depth : ℕ) (expanding : List String) :
    (tower rules (rules.fresh n) room depth).ReadsReferences expanding := by
  induction room generalizing depth with
  | zero => exact reads_templateOver hverbs n nofun
  | succ room ih =>
    refine reads_templateOver hverbs n fun level hlevel => ?_
    cases hlevel
    exact ih (depth + 1)

end Level

/-! ## Contexts -/

/-- The value of a template. -/
def Context.evaluate (c : Context) (t : Template) : Except Error Value × Context :=
  c.run (c.level.template [] t.segments)

/-- What a template gives is determined by the variables that it refers to: from stores that agree on
these it comes to the same, be it a value or an error. And it reads each of them: where it has a value,
it has none once a single one of them is unbound, and the error names this one. -/
theorem Context.evaluate_reads_references {verbs : Registry} (functions : verbs.AreFunctions)
    (limit : ℕ) (t : Template) :
    let result (store : Store) := ((⟨store, verbs, limit⟩ : Context).evaluate t).1
    (∀ store store', store.IsConcrete → store'.IsConcrete →
      (∀ name ∈ t.references, store.get? name = store'.get? name) →
        result store = result store') ∧
    ∀ store v, store.IsConcrete → result store = .ok v → ∀ name ∈ t.references,
      result (store.remove name) = .error (.unresolvedVariable name) := by
  intro result
  have hreads : (Level.tower ⟨verbs, limit⟩ (Rules.fresh ⟨verbs, limit⟩ 0) limit 0).ReadsReferences [] :=
    Level.readsReferences_tower functions 0 limit 0 []
  obtain ⟨value, hvalue, hgives⟩ := hreads t.segments
  have hresult (store : Store) (hstore : store.IsConcrete) : result store = value store := by
    have hreadings : (⟨store, verbs, limit⟩ : Context).readings = 0 := by
      rw [readings, hstore.deferredNames_eq_nil, List.length_nil]
    have hrun := (hgives store hstore ⟨store, []⟩ rfl).1
    rw [← hrun]
    simp only [result, evaluate, level, hreadings]
    rfl
  constructor
  · intro store store' hstore hstore' hagree
    rw [hresult store hstore, hresult store' hstore']
    exact hvalue.agrees store store' hagree
  · intro store v hstore hok name hname
    rw [hresult store hstore] at hok
    rw [hresult _ (hstore.remove name)]
    exact hvalue.misses store v name hok hname

/-- A verb that puts two texts together. -/
def Registry.joining : Registry :=
  [("Join", ⟨.exact ["left", "right"],
    .direct fun args => return .string (args.text 0 ++ args.text 1)⟩)]

theorem areFunctions_joining : Registry.joining.AreFunctions := by
  intro name verb hverb
  have hmem := Dict.mem_of_get? hverb
  simp only [Registry.joining, List.mem_singleton, Prod.mk.injEq] at hmem
  obtain ⟨-, rfl⟩ := hmem
  exact ⟨fun args => .ok (.string (args.text 0 ++ args.text 1)), fun _ _ _ => rfl⟩

/-- The template `$a-${Join(${Join($b, 'x$c')}, right=$a)}`. -/
def Template.joining : Template where
  segments :=
    [ .var "a",
      .text "-",
      .call ⟨"Join",
        [ .expr none [.call ⟨"Join",
            [.expr none [.var "b"] "$b", .quoted none '\'' [.text "x", .var "c"] "x$c"]⟩]
            "$\x7bJoin($b, 'x$c')\x7d",
          .expr (some "right") [.var "a"] "$a" ]⟩ ]

/-- A store with the variables of the template. -/
def Store.joining : Store :=
  (((empty 0).set "a" (.nat 1)).set "b" (.string "u")).set "c" (.bool true)

/-- A variable that only a quoted argument of an inner call refers to is read, and one that the
template does not refer to makes no difference. -/
theorem Context.evaluate_reads_references_joining :
    let result (store : Store) := ((⟨store, .joining, 3⟩ : Context).evaluate .joining).1
    let other := Store.joining.set "d" .null
    Registry.joining.AreFunctions ∧ Store.joining.IsConcrete ∧ other.IsConcrete ∧
      (∀ name ∈ Template.joining.references, Store.joining.get? name = other.get? name) ∧
      result Store.joining = result other ∧
      result Store.joining = .ok (.string "1-uxtrue1") ∧
      "c" ∈ Template.joining.references ∧
      result (Store.joining.remove "c") = .error (.unresolvedVariable "c") := by
  intro result other
  have hempty : (Store.empty 0).IsConcrete := nofun
  have hstore : Store.joining.IsConcrete :=
    ((hempty.set "a" (.nat 1)).set "b" (.string "u")).set "c" (.bool true)
  have hother : other.IsConcrete := hstore.set "d" .null
  have hagree : ∀ name ∈ Template.joining.references,
      Store.joining.get? name = other.get? name := by
    intro name hname
    refine (Store.get?_set_of_ne _ _ ?_).symm
    rintro rfl
    exact absurd hname (by decide)
  have hvalue : result Store.joining = .ok (.string "1-uxtrue1") := by rfl
  have hmem : "c" ∈ Template.joining.references := by decide
  obtain ⟨hagrees, hmisses⟩ := evaluate_reads_references areFunctions_joining 3 .joining
  exact ⟨areFunctions_joining, hstore, hother, hagree, hagrees _ _ hstore hother hagree, hvalue, hmem,
    hmisses _ _ hstore hvalue "c" hmem⟩

end Casebook
