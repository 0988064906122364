import Casebook.Proofs.Context.Nesting

/-!
# The invocations of an evaluation

Evaluation works through a template from left to right, and through the arguments of a call before
its verb is run. This file says so without levels, sessions and journals: a `Course` relates the
store in which something is evaluated to the invocations of verbs that are made and to what is given
in the end. A variable is read in the store that the invocations before it left, the verb of a call
is run on the values of its arguments in the store that their invocations left, and where something
gives an error nothing behind it is evaluated.

`takes_tower`: from a store without deferred variables, and with verbs that define none, every
evaluation of a template takes such a course. Its invocations are those that the journal tells of,
and it leaves the store that the last of them left.
-/

namespace Casebook

open Computation

/-! ## Stores without deferred variables -/

/-- No variable is deferred. -/
def Store.IsConcrete (s : Store) : Prop :=
  ∀ name binding, s.find? name = some binding → binding.deferred = false

theorem Store.IsConcrete.set {s : Store} (hs : s.IsConcrete) (name : String) (v : Value) :
    (s.set name v).IsConcrete := by
  intro other binding hother
  by_cases h : name = other
  · subst h
    rw [Store.find?_set_self] at hother
    cases hother
    rfl
  · rw [Store.find?_set_of_ne s v h] at hother
    exact hs other binding hother

/-- A verb that works on a store without deferred variables defines none. -/
def Verb.KeepsConcrete (verb : Verb) : Prop :=
  match verb.body with
  | .direct run => ∀ args store, store.IsConcrete → (exec (run args) store).2.IsConcrete
  | .onVariable run =>
    ∀ args found store, store.IsConcrete → (exec (run args found) store).2.IsConcrete

/-- No verb defines a deferred variable. -/
def Registry.KeepsConcrete (verbs : Registry) : Prop :=
  ∀ name verb, verbs.get? name = some verb → verb.KeepsConcrete

/-- What a verb answers to bound arguments in a store without deferred variables, and the store it
leaves. -/
def Verb.answer (verb : Verb) (args : Arguments) (store : Store) : Except Error Value × Store :=
  match verb.body with
  | .direct run => exec (run args) store
  | .onVariable run => exec (run args (store.require (args.text 0))) store

theorem Verb.KeepsConcrete.answer {verb : Verb} (h : verb.KeepsConcrete) (args : Arguments)
    {store : Store} (hstore : store.IsConcrete) : (verb.answer args store).2.IsConcrete := by
  unfold Verb.KeepsConcrete at h
  unfold Verb.answer
  split at h
  · exact h args store hstore
  · exact h args _ store hstore

/-! ## Invocations -/

/-- What a verb does with the arguments that it takes. -/
def Verb.work (verb : Verb) (reading : String → Evaluation Value) (bound : Arguments) :
    Evaluation Value :=
  match verb.body with
  | .direct run => Evaluation.onStore (run bound)
  | .onVariable run =>
    (reading (bound.text 0)).outcome >>= fun found => Evaluation.onStore (run bound found)

/-- A run of a verb: the bound arguments, the answer and the store it left. -/
structure Invocation where
  verb : String
  args : Arguments
  answer : Except Error Value
  left : Store

/-- The store that invocations left one after another. -/
def Store.after (store : Store) (made : List Invocation) : Store :=
  made.foldl (fun _ i => i.left) store

@[simp] theorem Store.after_nil (store : Store) : store.after [] = store := rfl

@[simp] theorem Store.after_append (store : Store) (made more : List Invocation) :
    store.after (made ++ more) = (store.after made).after more :=
  List.foldl_append

/-- The run of a verb that was noted, if that is what was noted. -/
def Event.invocation? : Event → Option (String × Arguments)
  | .invoked name args => some (name, args)
  | .opened _ _ => none
  | .closed => none

/-- The runs of verbs that a journal tells of, in order. -/
def invocationsIn (journal : List Event) : List (String × Arguments) :=
  (journal.filterMap Event.invocation?).reverse

/-! ## Courses -/

/-- What evaluating something in a store may come to: the invocations that are made, in order, and
what is given. -/
abbrev Course (α : Type) := Store → List Invocation → Except Error α → Prop

section Courses

variable (calls : Call → Course Value)

/-- The course of a piece of a template, given those of calls. -/
inductive Segment.Runs : Segment → Course Value where
  | text (text : String) (store : Store) : Runs (.text text) store [] (.ok (.string text))
  | var (name : String) (store : Store) : Runs (.var name) store [] (store.require name)
  | call {c : Call} {store : Store} {made : List Invocation} {result : Except Error Value}
      (runs : calls c store made result) : Runs (.call c) store made result

/-- The course of pieces, from left to right up to the first error. -/
inductive Segment.TextRuns : List Segment → Course String where
  | nil (store : Store) : TextRuns [] store [] (.ok "")
  | error {s : Segment} {store : Store} {made : List Invocation} {e : Error}
      (failed : s.Runs calls store made (.error e)) (rest : List Segment) :
      TextRuns (s :: rest) store made (.error e)
  | cons {s : Segment} {rest : List Segment} {store : Store} {made more : List Invocation}
      {v : Value} {result : Except Error String} (first : s.Runs calls store made (.ok v))
      (later : TextRuns rest (store.after made) more result) :
      TextRuns (s :: rest) store (made ++ more) (result.map fun text => v.render ++ text)

/-- The course of a template. -/
inductive Template.Runs : List Segment → Course Value where
  | sole {segments : List Segment} {s : Segment} {store : Store} {made : List Invocation}
      {result : Except Error Value} (sole : (Template.mk segments).solePlaceholder? = some s)
      (runs : s.Runs calls store made result) : Runs segments store made result
  | text {segments : List Segment} {store : Store} {made : List Invocation}
      {result : Except Error String} (mixed : (Template.mk segments).solePlaceholder? = none)
      (runs : Segment.TextRuns calls segments store made result) :
      Runs segments store made (result.map Value.string)

/-- The course of an argument. -/
inductive Argument.Runs : Argument → Course Value where
  | literal (key : Option String) (v : Value) (source : String) (store : Store) :
      Runs (.literal key v source) store [] (.ok v)
  | quoted {body : List Segment} {store : Store} {made : List Invocation}
      {result : Except Error Value} (key : Option String) (delimiter : Char) (source : String)
      (runs : Template.Runs calls body store made result) :
      Runs (.quoted key delimiter body source) store made
        (result.map fun v => .string v.render)
  | expr {body : List Segment} {store : Store} {made : List Invocation}
      {result : Except Error Value} (key : Option String) (source : String)
      (runs : Template.Runs calls body store made result) :
      Runs (.expr key body source) store made result

/-- The course of arguments, from left to right up to the first error, on top of those that were
evaluated before. -/
inductive Argument.AllRun : List Argument → Arguments → Course Arguments where
  | nil (done : Arguments) (store : Store) : AllRun [] done store [] (.ok done)
  | error {a : Argument} {store : Store} {made : List Invocation} {e : Error}
      (failed : a.Runs calls store made (.error e)) (rest : List Argument) (done : Arguments) :
      AllRun (a :: rest) done store made (.error e)
  | cons {a : Argument} {rest : List Argument} {done : Arguments} {store : Store}
      {made more : List Invocation} {v : Value} {result : Except Error Arguments}
      (first : a.Runs calls store made (.ok v))
      (later : AllRun rest (done.add a.key v) (store.after made) more result) :
      AllRun (a :: rest) done store (made ++ more) result

end Courses

/-- The course of a verb with arguments that were evaluated already. -/
inductive Rules.Invokes (rules : Rules) (name : String) (args : Arguments) : Course Value where
  | unknown {store : Store} (absent : rules.verbs.get? name = none) :
      Invokes rules name args store [] (.error (.unknownFunction name))
  | refused {store : Store} {verb : Verb} {e : Error} (found : rules.verbs.get? name = some verb)
      (bind : verb.signature.bind name args = .error e) :
      Invokes rules name args store [] (.error e)
  | invoked {store : Store} {verb : Verb} {bound : Arguments}
      (found : rules.verbs.get? name = some verb)
      (bind : verb.signature.bind name args = .ok bound) :
      Invokes rules name args store
        [⟨name, bound, (verb.answer bound store).1, (verb.answer bound store).2⟩]
        (verb.answer bound store).1

/-- The course of a call, given those of the calls in its arguments if there is room for them. An
unknown verb is refused before anything else, then a call that lies too deep. -/
inductive Call.RunsOver (rules : Rules) (below : Option (Call → Course Value)) :
    Call → Course Value where
  | unknown {c : Call} {store : Store} (absent : rules.verbs.get? c.name = none) :
      RunsOver rules below c store [] (.error (.unknownFunction c.name))
  | tooDeep {c : Call} {store : Store} {verb : Verb}
      (found : rules.verbs.get? c.name = some verb) (full : below = none) :
      RunsOver rules below c store [] (.error (.recursionLimit rules.limit))
  | error {c : Call} {store : Store} {verb : Verb} {calls : Call → Course Value}
      {made : List Invocation} {e : Error} (found : rules.verbs.get? c.name = some verb)
      (room : below = some calls)
      (failed : Argument.AllRun calls c.args Arguments.none store made (.error e)) :
      RunsOver rules below c store made (.error e)
  | invokes {c : Call} {store : Store} {verb : Verb} {calls : Call → Course Value}
      {made more : List Invocation} {args : Arguments} {result : Except Error Value}
      (found : rules.verbs.get? c.name = some verb) (room : below = some calls)
      (arguments : Argument.AllRun calls c.args Arguments.none store made (.ok args))
      (verb : rules.Invokes c.name args (store.after made) more result) :
      RunsOver rules below c store (made ++ more) result

/-- The course of a call where calls may be nested so deep. -/
def Call.Runs (rules : Rules) : (room : ℕ) → Call → Course Value
  | 0 => RunsOver rules none
  | room + 1 => RunsOver rules (some (Runs rules room))

/-! ## Evaluations that take a course -/

/-- A session is left after some more invocations. -/
structure Session.Leaves (s : Session) (made : List Invocation) (s' : Session) : Prop where
  store_eq : s'.store = s.store.after made
  concrete : s'.store.IsConcrete
  journal_eq : invocationsIn s'.journal =
    invocationsIn s.journal ++ made.map fun i => (i.verb, i.args)

/-- From a store without deferred variables an evaluation takes a course. -/
def Evaluation.Takes {α : Type} (course : Course α) (m : Evaluation α) : Prop :=
  ∀ s, s.store.IsConcrete →
    ∃ made, course s.store made (exec m s).1 ∧ s.Leaves made (exec m s).2

section Takes

variable {α β : Type} {rules : Rules}

theorem Session.Leaves.trans {s s' s'' : Session} {made more : List Invocation}
    (h : s.Leaves made s') (h' : s'.Leaves more s'') : s.Leaves (made ++ more) s'' where
  store_eq := by rw [h'.store_eq, h.store_eq, Store.after_append]
  concrete := h'.concrete
  journal_eq := by rw [h'.journal_eq, h.journal_eq, List.map_append, List.append_assoc]

/-- A session whose store is kept is left after no invocation, if none was noted. -/
theorem Session.leaves_nil {s : Session} (hs : s.store.IsConcrete) {journal : List Event}
    (hjournal : invocationsIn journal = invocationsIn s.journal) :
    s.Leaves [] ⟨s.store, journal⟩ where
  store_eq := rfl
  concrete := hs
  journal_eq := by rw [hjournal, List.map_nil, List.append_nil]

namespace Evaluation

theorem takes_lift {course : Course α} (result : Except Error α)
    (h : ∀ store, course store [] result) : Takes course (lift result) :=
  fun s hs => ⟨[], h s.store, Session.leaves_nil hs rfl⟩

theorem Takes.mono {course course' : Course α} {m : Evaluation α} (hm : Takes course m)
    (h : ∀ {store made result}, course store made result → course' store made result) :
    Takes course' m := by
  intro s hs
  obtain ⟨made, hcourse, hleaves⟩ := hm s hs
  exact ⟨made, h hcourse, hleaves⟩

/-- A sequence takes the course of its first part and then that of its second, unless the first
ends in an error. -/
theorem Takes.bind {first : Course α} {later : α → Course β} {course : Course β}
    {m : Evaluation α} {f : α → Evaluation β} (hm : Takes first m) (hf : ∀ a, Takes (later a) (f a))
    (herror : ∀ {store made e}, first store made (.error e) → course store made (.error e))
    (hok : ∀ {store made more a result}, first store made (.ok a) →
      later a (store.after made) more result → course store (made ++ more) result) :
    Takes course (m >>= f) := by
  intro s hs
  obtain ⟨made, hfirst, hleaves⟩ := hm s hs
  rw [exec_bind]
  rcases hexec : exec m s with ⟨e | a, s₁⟩ <;> rw [hexec] at hfirst hleaves
  · exact ⟨made, herror hfirst, hleaves⟩
  · -- The second part begins in the store that the first one left.
    obtain ⟨more, hlater, hleaves₁⟩ := hf a s₁ hleaves.concrete
    rw [hleaves.store_eq] at hlater
    exact ⟨made ++ more, hok hfirst hlater, hleaves.trans hleaves₁⟩

/-- A function of what is given makes no difference to the course. -/
theorem Takes.map {first : Course α} {course : Course β} {m : Evaluation α} (hm : Takes first m)
    (g : α → β)
    (hmap : ∀ {store made result}, first store made result →
      course store made (result.map g)) :
    Takes course (m >>= fun a => return g a) := by
  have hgiven (a : α) : Takes (fun _ made result => made = [] ∧ result = .ok (g a))
      (return g a) := takes_lift (.ok _) fun _ => ⟨rfl, rfl⟩
  refine hm.bind hgiven (fun h => hmap h) ?_
  rintro store made more a result hfirst ⟨rfl, rfl⟩
  rw [List.append_nil]
  exact hmap hfirst

end Evaluation

/-! ### Variables and verbs -/

/-- Where no variable is deferred, reading one opens no level. -/
theorem exec_variableOver_of_isConcrete {depth : ℕ} {below : Option (Unit → Level)}
    {expanding : List String} (name : String) {s : Session} (hs : s.store.IsConcrete) :
    exec (Level.variableOver rules depth below expanding name) s = (s.store.require name, s) := by
  rw [Level.variableOver, exec_bind_of_ok (exec_get s), Store.require, ← Store.map_value_find?]
  cases hfind : s.store.find? name with
  | none => rfl
  | some binding =>
    have hconcrete := hs name binding hfind
    simp only [hconcrete]
    rfl

/-- Where no variable is deferred, a fresh reading is just a reading. -/
theorem exec_fresh_of_isConcrete (rules : Rules) (n : ℕ) (name : String) {s : Session}
    (hs : s.store.IsConcrete) :
    exec (rules.fresh n name) s = (s.store.require name, s) := by
  have htower (reading : String → Evaluation Value) (room : ℕ) :
      exec ((Level.tower rules reading room 0).template [] [.var name]) s =
        (s.store.require name, s) := by
    cases room with
    | zero => exact exec_variableOver_of_isConcrete name hs
    | succ room => exact exec_variableOver_of_isConcrete name hs
  cases n with
  | zero => exact exec_variableOver_of_isConcrete name hs
  | succ n => exact htower (rules.fresh n) rules.limit

section Outcomes

variable {reading : String → Evaluation Value} {name : String} {verb : Verb} {args : Arguments}

theorem exec_invoke_of_unknown (hverb : rules.verbs.get? name = none) (s : Session) :
    exec (rules.invoke reading name args) s = (.error (.unknownFunction name), s) := by
  rw [Rules.invoke, hverb]
  rfl

/-- A verb that refuses its arguments is not run. -/
theorem exec_invoke_of_refused {e : Error} (hverb : rules.verbs.get? name = some verb)
    (hbind : verb.signature.bind name args = .error e) (s : Session) :
    exec (rules.invoke reading name args) s = (.error e, s) := by
  rw [Rules.invoke, hverb]
  dsimp only
  rw [hbind]
  rfl

/-- A verb that takes its arguments works behind the note of its run. -/
theorem exec_invoke_of_bound {bound : Arguments} (hverb : rules.verbs.get? name = some verb)
    (hbind : verb.signature.bind name args = .ok bound) (s : Session) :
    exec (rules.invoke reading name args) s =
      exec (verb.work reading bound) { s with journal := .invoked name bound :: s.journal } := by
  have hlift : exec (Evaluation.lift (verb.signature.bind name args)) s = (.ok bound, s) := by
    rw [hbind]
    rfl
  have hnote : exec (Evaluation.note (.invoked name bound)) s =
      (.ok (), { s with journal := .invoked name bound :: s.journal }) := rfl
  rw [Rules.invoke, hverb]
  dsimp only
  rw [exec_bind_of_ok hlift, exec_bind_of_ok hnote]
  rfl

end Outcomes

/-- A verb that takes its arguments is run, and the run is noted. -/
theorem exec_invoke_of_bind_ok (n : ℕ) {name : String} {verb : Verb} {args bound : Arguments}
    (hverb : rules.verbs.get? name = some verb) (hbind : verb.signature.bind name args = .ok bound)
    {s : Session} (hs : s.store.IsConcrete) :
    exec (rules.invoke (rules.fresh n) name args) s =
      ((verb.answer bound s.store).1,
        ⟨(verb.answer bound s.store).2, .invoked name bound :: s.journal⟩) := by
  rw [exec_invoke_of_bound hverb hbind]
  obtain ⟨signature, run | run⟩ := verb
  · rfl
  · -- What is read afresh is what the verb answers to, and it leaves the session as it is.
    have hread := exec_fresh_of_isConcrete rules n (bound.text 0)
      (s := { s with journal := .invoked name bound :: s.journal }) hs
    have houtcome : exec (rules.fresh n (bound.text 0)).outcome
        { s with journal := .invoked name bound :: s.journal } =
        (.ok (exec (rules.fresh n (bound.text 0)) _).1,
          (exec (rules.fresh n (bound.text 0)) _).2) := rfl
    rw [hread] at houtcome
    exact exec_bind_of_ok houtcome

theorem takes_invoke (hverbs : rules.verbs.KeepsConcrete) (n : ℕ) (name : String)
    (args : Arguments) :
    Evaluation.Takes (rules.Invokes name args) (rules.invoke (rules.fresh n) name args) := by
  intro s hs
  cases hverb : rules.verbs.get? name with
  | none =>
    rw [exec_invoke_of_unknown hverb]
    exact ⟨[], .unknown hverb, Session.leaves_nil hs rfl⟩
  | some verb =>
    cases hbind : verb.signature.bind name args with
    | error e =>
      rw [exec_invoke_of_refused hverb hbind]
      exact ⟨[], .refused hverb hbind, Session.leaves_nil hs rfl⟩
    | ok bound =>
      rw [exec_invoke_of_bind_ok n hverb hbind hs]
      refine ⟨_, .invoked hverb hbind, rfl, (hverbs name verb hverb).answer bound hs, ?_⟩
      exact List.reverse_cons

/-! ### Levels -/

section Over

variable {depth : ℕ} {below : Option (Unit → Level)} {calls : Call → Course Value}
  {expanding : List String}

theorem takes_descend {course : Course α} {level : Unit → Level} {work : Level → Evaluation α}
    (hwork : (work (level ())).Takes course) :
    (Level.descend rules depth (some level) expanding work).Takes course := by
  intro s hs
  obtain ⟨made, hcourse, hleaves⟩ :=
    hwork { s with journal := .opened (depth + 1) expanding :: s.journal } hs
  rw [exec_descend]
  exact ⟨made, hcourse, hleaves.store_eq, hleaves.concrete, hleaves.journal_eq⟩

theorem takes_argumentsAt {level : Level}
    (htemplate : ∀ segments,
      (level.template expanding segments).Takes (Template.Runs calls segments))
    (args : List Argument) (done : Arguments) :
    (Level.argumentsAt level expanding args done).Takes (Argument.AllRun calls args done) := by
  induction args generalizing done with
  | nil => exact Evaluation.takes_lift (.ok _) fun store => .nil done store
  | cons a rest ih =>
    -- However the argument is evaluated, the others follow on top of its value.
    have hnext {m : Evaluation Value} (hm : m.Takes (Argument.Runs calls a)) :
        (m >>= fun v => Level.argumentsAt level expanding rest (done.add a.key v)).Takes
          (Argument.AllRun calls (a :: rest) done) :=
      hm.bind (fun v => ih (done.add a.key v)) (fun failed => .error failed rest done)
        fun first later => .cons first later
    cases a with
    | literal key v source =>
      exact hnext (m := pure v)
        (Evaluation.takes_lift (.ok _) fun store => .literal key v source store)
    | quoted key delimiter body source =>
      have hquoted := hnext ((htemplate body).map _ fun runs => .quoted key delimiter source runs)
      rwa [bind_assoc] at hquoted
    | expr key body source =>
      exact hnext ((htemplate body).mono fun runs => .expr key source runs)

theorem takes_variableOver (name : String) :
    (Level.variableOver rules depth below expanding name).Takes
      (Segment.Runs calls (.var name)) := by
  intro s hs
  rw [exec_variableOver_of_isConcrete name hs]
  exact ⟨[], .var name s.store, Session.leaves_nil hs rfl⟩

/-- There is a level below if there are courses for the calls in it, and it takes them. -/
inductive TakesBelow (expanding : List String) :
    Option (Call → Course Value) → Option (Unit → Level) → Prop where
  | none : TakesBelow expanding none none
  | some {calls : Call → Course Value} {level : Unit → Level}
      (template : ∀ segments,
        ((level ()).template expanding segments).Takes (Template.Runs calls segments)) :
      TakesBelow expanding (some calls) (some level)

variable {room : Option (Call → Course Value)} (hverbs : rules.verbs.KeepsConcrete) (n : ℕ)
  (hbelow : TakesBelow expanding room below)

include hverbs hbelow

theorem takes_callOver (c : Call) :
    (Level.callOver rules (rules.fresh n) depth below expanding c).Takes
      (Call.RunsOver rules room c) := by
  cases hverb : rules.verbs.get? c.name with
  | none =>
    have hunknown : rules.verbs.contains c.name = false := by rw [Dict.contains, hverb]; rfl
    rw [Level.callOver, hunknown]
    exact Evaluation.takes_lift (.error _) fun store => .unknown hverb
  | some verb =>
    have hknown : rules.verbs.contains c.name = true := by rw [Dict.contains, hverb]; rfl
    rw [callOver_eq_of_contains hknown]
    cases hbelow with
    | none => exact Evaluation.takes_lift (.error _) fun store => .tooDeep hverb rfl
    | some htemplate =>
      exact takes_descend <| (takes_argumentsAt htemplate c.args Arguments.none).bind
        (fun args => takes_invoke hverbs n c.name args) (fun failed => .error hverb rfl failed)
        fun arguments verb => .invokes hverb rfl arguments verb

theorem takes_segmentOver (s : Segment) :
    (Level.segmentOver rules (rules.fresh n) depth below expanding s).Takes
      (Segment.Runs (Call.RunsOver rules room) s) := by
  cases s with
  | text text => exact Evaluation.takes_lift (.ok _) fun store => .text text store
  | var name => exact takes_variableOver name
  | call c => exact (takes_callOver hverbs n hbelow c).mono .call

theorem takes_textOver (segments : List Segment) :
    (Level.textOver rules (rules.fresh n) depth below expanding segments).Takes
      (Segment.TextRuns (Call.RunsOver rules room) segments) := by
  induction segments with
  | nil => exact Evaluation.takes_lift (.ok _) fun store => .nil store
  | cons s rest ih =>
    have hlater (v : Value) : Evaluation.Takes (fun store made result => ∃ r,
        Segment.TextRuns (Call.RunsOver rules room) rest store made r ∧
          result = r.map fun more => v.render ++ more)
        (do
          let more ← Level.textOver rules (rules.fresh n) depth below expanding rest
          return v.render ++ more) := ih.map _ fun runs => ⟨_, runs, rfl⟩
    refine (takes_segmentOver hverbs n hbelow s).bind hlater (fun failed => .error failed rest) ?_
    rintro store made more v result first ⟨r, later, rfl⟩
    exact .cons first later

theorem takes_templateOver (segments : List Segment) :
    (Level.templateOver rules (rules.fresh n) depth below expanding segments).Takes
      (Template.Runs (Call.RunsOver rules room) segments) := by
  unfold Level.templateOver
  cases hsole : (Template.mk segments).solePlaceholder? with
  | some s => exact (takes_segmentOver hverbs n hbelow s).mono fun runs => .sole hsole runs
  | none =>
    exact (takes_textOver hverbs n hbelow segments).map Value.string fun runs => .text hsole runs

end Over

/-- In a store without deferred variables an evaluation of a template takes its course. The
induction is on the number of levels that may yet be opened. -/
theorem takes_tower (hverbs : rules.verbs.KeepsConcrete) (n room depth : ℕ)
    (expanding : List String) (segments : List Segment) :
    ((Level.tower rules (rules.fresh n) room depth).template expanding segments).Takes
      (Template.Runs (Call.Runs rules room) segments) := by
  induction room generalizing depth segments with
  | zero => exact takes_templateOver hverbs n .none segments
  | succ room ih =>
    exact takes_templateOver hverbs n (.some fun segments => ih (depth + 1) segments) segments

end Takes

end Casebook
