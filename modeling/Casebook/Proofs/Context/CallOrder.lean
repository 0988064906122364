import Casebook.Proofs.Context.Invocations
import Casebook.Proofs.Context.Reading

/-!
# The order of calls

The calls of a template have an order: those in the arguments of a call come before the call itself,
and otherwise the order is that of the text. Main statement: where no variable is deferred, the
invocations that an evaluation makes are those of the calls in this order, each once, up to the
first error. Each verb is run on what its arguments came to in the store that the invocations before
them left, and a verb that is not known stops the evaluation before the calls in its arguments.
-/

namespace Casebook

open Computation

/-! ## Calls in order -/

namespace Segment

mutual

/-- The calls of a piece, those in arguments in front of the call that they are for. -/
def calls : Segment → List Call
  | text _ => []
  | var _ => []
  | call ⟨name, args⟩ => callsOfArgs args ++ [⟨name, args⟩]

/-- The calls of each piece, in order. -/
def callsOfSegments : List Segment → List Call
  | [] => []
  | s :: rest => calls s ++ callsOfSegments rest

/-- The calls of an argument. -/
def callsOfArg : Argument → List Call
  | .literal _ _ _ => []
  | .quoted _ _ body _ => callsOfSegments body
  | .expr _ body _ => callsOfSegments body

/-- The calls of each argument, in order. -/
def callsOfArgs : List Argument → List Call
  | [] => []
  | a :: rest => callsOfArg a ++ callsOfArgs rest

end

theorem calls_call (c : Call) : (call c).calls = callsOfArgs c.args ++ [c] := by
  cases c
  rw [calls]

end Segment

/-- In front of each call there are at least as many others as there are in its arguments. -/
def PostOrder (calls : List Call) : Prop :=
  ∀ i c, calls[i]? = some c → (Segment.callsOfArgs c.args).length ≤ i

theorem PostOrder.append {calls more : List Call} (h : PostOrder calls) (h' : PostOrder more) :
    PostOrder (calls ++ more) := by
  intro i c hc
  rcases Nat.lt_or_ge i calls.length with hi | hi
  · rw [List.getElem?_append_left hi] at hc
    exact h i c hc
  · rw [List.getElem?_append_right hi] at hc
    exact Nat.le_trans (h' _ c hc) (Nat.sub_le i calls.length)

/-- A call is behind the calls in its arguments. -/
theorem PostOrder.call {c : Call} (h : PostOrder (Segment.callsOfArgs c.args)) :
    PostOrder (Segment.callsOfArgs c.args ++ [c]) := by
  intro i c' hc
  rcases Nat.lt_or_ge i (Segment.callsOfArgs c.args).length with hi | hi
  · rw [List.getElem?_append_left hi] at hc
    exact h i c' hc
  · rw [List.getElem?_append_right hi] at hc
    cases List.mem_singleton.mp (List.mem_of_getElem? hc)
    exact hi

namespace Segment

mutual

theorem postOrder_calls (s : Segment) : PostOrder s.calls := by
  cases s with
  | text _ => exact nofun
  | var _ => exact nofun
  | call c =>
    obtain ⟨name, args⟩ := c
    have h : PostOrder (callsOfArgs (Call.mk name args).args) := postOrder_callsOfArgs args
    rw [calls]
    exact h.call

theorem postOrder_callsOfSegments (segments : List Segment) :
    PostOrder (callsOfSegments segments) := by
  cases segments with
  | nil => exact nofun
  | cons s rest =>
    rw [callsOfSegments]
    exact (postOrder_calls s).append (postOrder_callsOfSegments rest)

theorem postOrder_callsOfArg (a : Argument) : PostOrder (callsOfArg a) := by
  cases a with
  | literal _ _ _ => exact nofun
  | quoted _ _ body _ =>
    rw [callsOfArg]
    exact postOrder_callsOfSegments body
  | expr _ body _ =>
    rw [callsOfArg]
    exact postOrder_callsOfSegments body

theorem postOrder_callsOfArgs (args : List Argument) : PostOrder (callsOfArgs args) := by
  cases args with
  | nil => exact nofun
  | cons a rest =>
    rw [callsOfArgs]
    exact (postOrder_callsOfArg a).append (postOrder_callsOfArgs rest)

end

end Segment

/-! ## Invocations in order -/

/-- The error that a result is, if it is one. -/
def failureOf {α : Type} : Except Error α → Option Error
  | .ok _ => none
  | .error e => some e

@[simp] theorem failureOf_map {α β : Type} (f : α → β) (result : Except Error α) :
    failureOf (result.map f) = failureOf result := by
  cases result with
  | ok a => rfl
  | error e => rfl

/-- An invocation is that of a call. The arguments were evaluated, from left to right, in the store
that the invocations before them left, the last invocations being those of calls in the arguments.
The verb was run on the bound values, in the store that all invocations before it left. -/
inductive Call.Makes (rules : Rules) (store : Store) (before : List Invocation) (c : Call)
    (x : Invocation) : Prop where
  | intro {earlier inner : List Invocation} {room : ℕ} {verb : Verb} {args : Arguments}
      (before_eq : before = earlier ++ inner)
      (length_eq : inner.length = (Segment.callsOfArgs c.args).length)
      (name_eq : x.verb = c.name) (found : rules.verbs.get? c.name = some verb)
      (arguments : Argument.AllRun (Call.Runs rules room) c.args Arguments.none
        (store.after earlier) inner (.ok args))
      (bind : verb.signature.bind c.name args = .ok x.args)
      (answer : verb.answer x.args (store.after before) = (x.answer, x.left))

/-- The invocations that are made from a store are those of calls in order, up to a failure. -/
structure InOrder (rules : Rules) (calls : List Call) (store : Store) (made : List Invocation)
    (failure : Option Error) : Prop where
  names : made.map Invocation.verb <+: calls.map Call.name
  complete : failure = none → made.length = calls.length
  makes : ∀ before x later, made = before ++ x :: later →
    ∃ c, calls[before.length]? = some c ∧ c.Makes rules store before x
  /-- Nothing is done once a verb failed. -/
  stops : ∀ before x later e, made = before ++ x :: later → x.answer = .error e →
    later = [] ∧ failure = some e
  /-- Where a verb is not known, the calls in its arguments are not made either. -/
  unknown : ∀ i c, calls[i]? = some c → rules.verbs.get? c.name = none →
    made.length + (Segment.callsOfArgs c.args).length ≤ i

section Lists

variable {α : Type} {made more before later : List α} {x : α}

/-- What is in two lists in a row is in the first or in the second. -/
theorem eq_append_cons_cases (h : made ++ more = before ++ x :: later) :
    (∃ between, made = before ++ x :: between ∧ later = between ++ more) ∨
      ∃ rest, before = made ++ rest ∧ more = rest ++ x :: later := by
  rcases List.append_eq_append_iff.mp h with ⟨rest, hbefore, hmore⟩ | ⟨rest, hmade, hlater⟩
  · exact .inr ⟨rest, hbefore, hmore⟩
  · cases rest with
    | nil =>
      rw [List.append_nil] at hmade
      exact .inr ⟨[], by rw [hmade, List.append_nil], hlater.symm⟩
    | cons y between =>
      cases hlater
      exact .inl ⟨between, hmade, rfl⟩

/-- What is in a list with one more at the end is in the list or at the end. -/
theorem concat_eq_append_cons_cases {y : α} (h : made ++ [y] = before ++ x :: later) :
    (∃ between, made = before ++ x :: between) ∨ before = made ∧ x = y ∧ later = [] := by
  rcases eq_append_cons_cases h with ⟨between, hmade, -⟩ | ⟨rest, rfl, hlast⟩
  · exact .inl ⟨between, hmade⟩
  · rcases List.append_eq_singleton_iff.mp hlast.symm with ⟨rfl, hlast⟩ | ⟨-, hlast⟩
    · cases hlast
      exact .inr ⟨List.append_nil made, rfl, rfl⟩
    · cases hlast

end Lists

section InOrder

variable {rules : Rules} {store : Store} {calls moreCalls : List Call}
  {made more before : List Invocation} {failure : Option Error} {e : Error} {c : Call}
  {x : Invocation}

/-- Invocations may have been made before. -/
theorem Call.Makes.after (h : c.Makes rules (store.after made) before x) :
    c.Makes rules store (made ++ before) x := by
  obtain ⟨before_eq, length_eq, name_eq, found, arguments, bind, answer⟩ := h
  rw [← Store.after_append] at arguments answer
  refine .intro ?_ length_eq name_eq found arguments bind answer
  rw [before_eq, List.append_assoc]

namespace InOrder

theorem length_le (h : InOrder rules calls store made failure) : made.length ≤ calls.length := by
  have hlength := h.names.length_le
  rwa [List.length_map, List.length_map] at hlength

theorem nil : InOrder rules [] store [] failure where
  names := List.nil_prefix
  complete _ := rfl
  makes before x later h := by simp at h
  stops before x later e h := by simp at h
  unknown := nofun

/-- An error in front of all calls leaves them all unmade. -/
theorem of_error (h : PostOrder calls) : InOrder rules calls store [] (some e) where
  names := List.nil_prefix
  complete := nofun
  makes before x later h := by simp at h
  stops before x later e h := by simp at h
  unknown i c hc _ := by
    rw [List.length_nil, Nat.zero_add]
    exact h i c hc

/-- After an error nothing behind it is made. -/
theorem cut (h : InOrder rules calls store made failure)
    (hfailure : ∀ e', failure = some e' → e' = e)
    (hmore : ∀ i c, moreCalls[i]? = some c → rules.verbs.get? c.name = none →
      made.length + (Segment.callsOfArgs c.args).length ≤ calls.length + i) :
    InOrder rules (calls ++ moreCalls) store made (some e) where
  names := by
    rw [List.map_append]
    exact h.names.trans (List.prefix_append _ _)
  complete := nofun
  makes before x later hmade := by
    obtain ⟨c, hc, hmakes⟩ := h.makes before x later hmade
    exact ⟨c, by rw [List.getElem?_append_left (List.getElem?_eq_some_iff.mp hc).1, hc], hmakes⟩
  stops before x later e' hmade hanswer := by
    obtain ⟨hlater, hfailed⟩ := h.stops before x later e' hmade hanswer
    exact ⟨hlater, congrArg some (hfailure e' hfailed).symm⟩
  unknown i c hc hunknown := by
    rcases Nat.lt_or_ge i calls.length with hi | hi
    · rw [List.getElem?_append_left hi] at hc
      exact h.unknown i c hc hunknown
    · rw [List.getElem?_append_right hi] at hc
      have hle := hmore _ c hc hunknown
      omega

theorem cut_of_postOrder (h : InOrder rules calls store made (some e))
    (hmore : PostOrder moreCalls) : InOrder rules (calls ++ moreCalls) store made (some e) := by
  refine h.cut (fun e' he' => (Option.some.inj he').symm) fun i c hc _ => ?_
  have hinner := hmore i c hc
  have hlength := h.length_le
  omega

/-- A known verb that is not run after all leaves the calls in front of it as they were made. -/
theorem cut_of_known (h : InOrder rules calls store made failure)
    (hfailure : ∀ e', failure = some e' → e' = e) {verb : Verb}
    (hknown : rules.verbs.get? c.name = some verb) :
    InOrder rules (calls ++ [c]) store made (some e) := by
  refine h.cut hfailure fun i c' hc hunknown => ?_
  cases List.mem_singleton.mp (List.mem_of_getElem? hc)
  cases hknown.symm.trans hunknown

theorem names_eq (h : InOrder rules calls store made none) :
    made.map Invocation.verb = calls.map Call.name := by
  refine h.names.eq_of_length ?_
  rw [List.length_map, List.length_map, h.complete rfl]

/-- Where all calls of a first part were made, those of a second part are made after them. -/
theorem append (h : InOrder rules calls store made none)
    (h' : InOrder rules moreCalls (store.after made) more failure) :
    InOrder rules (calls ++ moreCalls) store (made ++ more) failure where
  names := by
    rw [List.map_append, List.map_append, h.names_eq]
    exact (List.prefix_append_right_inj _).mpr h'.names
  complete hfailure := by
    rw [List.length_append, List.length_append, h.complete rfl, h'.complete hfailure]
  makes before x later hmade := by
    -- An invocation of the second part is as many places behind its first as its call is.
    rcases eq_append_cons_cases hmade with ⟨between, hfirst, -⟩ | ⟨rest, rfl, hlater⟩
    · obtain ⟨c, hc, hmakes⟩ := h.makes before x between hfirst
      exact ⟨c, by rw [List.getElem?_append_left (List.getElem?_eq_some_iff.mp hc).1, hc], hmakes⟩
    · obtain ⟨c, hc, hmakes⟩ := h'.makes rest x later hlater
      refine ⟨c, ?_, hmakes.after⟩
      rw [List.length_append, h.complete rfl, List.getElem?_append_right (Nat.le_add_right _ _),
        Nat.add_sub_cancel_left, hc]
  stops before x later e hmade hanswer := by
    rcases eq_append_cons_cases hmade with ⟨between, hfirst, -⟩ | ⟨rest, -, hlater⟩
    · cases (h.stops before x between e hfirst hanswer).2
    · exact h'.stops rest x later e hlater hanswer
  unknown i c hc hunknown := by
    have hlength := h.complete rfl
    rw [List.length_append]
    rcases Nat.lt_or_ge i calls.length with hi | hi
    · rw [List.getElem?_append_left hi] at hc
      have hle := h.unknown i c hc hunknown
      omega
    · rw [List.getElem?_append_right hi] at hc
      have hle := h'.unknown _ c hc hunknown
      omega

/-- A verb is run when all calls in front of it were made. -/
theorem concat (h : InOrder rules calls store made none) (hx : c.Makes rules store made x) :
    InOrder rules (calls ++ [c]) store (made ++ [x]) (failureOf x.answer) where
  names := by
    have hname : x.verb = c.name := by
      cases hx
      assumption
    refine ⟨[], ?_⟩
    rw [List.append_nil, List.map_append, List.map_append, h.names_eq, List.map_singleton,
      List.map_singleton, hname]
  complete _ := by
    rw [List.length_append, List.length_append, h.complete rfl]
    rfl
  makes before y later hmade := by
    rcases concat_eq_append_cons_cases hmade with ⟨between, hfirst⟩ | ⟨rfl, rfl, -⟩
    · obtain ⟨c, hc, hmakes⟩ := h.makes before y between hfirst
      exact ⟨c, by rw [List.getElem?_append_left (List.getElem?_eq_some_iff.mp hc).1, hc], hmakes⟩
    · refine ⟨c, ?_, hx⟩
      rw [h.complete rfl, List.getElem?_concat_length]
  stops before y later e hmade hanswer := by
    rcases concat_eq_append_cons_cases hmade with ⟨between, hfirst⟩ | ⟨rfl, rfl, rfl⟩
    · cases (h.stops before y between e hfirst hanswer).2
    · exact ⟨rfl, by rw [hanswer, failureOf]⟩
  unknown i c' hc hunknown := by
    rcases Nat.lt_or_ge i calls.length with hi | hi
    · -- All calls in front were made, so none of them is of an unknown verb.
      rw [List.getElem?_append_left hi] at hc
      have hle := h.unknown i c' hc hunknown
      have hlength := h.complete rfl
      omega
    · rw [List.getElem?_append_right hi] at hc
      cases List.mem_singleton.mp (List.mem_of_getElem? hc)
      obtain ⟨-, -, -, found, -, -, -⟩ := hx
      cases found.symm.trans hunknown

end InOrder

end InOrder

/-! ## Courses in order -/

section Courses

variable {rules : Rules} {calls : Call → Course Value} {store : Store} {made : List Invocation}

/-- The calls make their invocations in order. -/
def AllInOrder (rules : Rules) (calls : Call → Course Value) : Prop :=
  ∀ c store made result, calls c store made result →
    InOrder rules (Segment.callsOfArgs c.args ++ [c]) store made (failureOf result)

variable (hcalls : AllInOrder rules calls)

include hcalls

theorem Segment.Runs.inOrder {s : Segment} {result : Except Error Value}
    (h : s.Runs calls store made result) :
    InOrder rules s.calls store made (failureOf result) := by
  cases h with
  | text text => exact .nil
  | var name => exact .nil
  | @call c _ _ _ runs =>
    rw [Segment.calls_call]
    exact hcalls c store made result runs

theorem Segment.TextRuns.inOrder {segments : List Segment} {result : Except Error String}
    (h : Segment.TextRuns calls segments store made result) :
    InOrder rules (Segment.callsOfSegments segments) store made (failureOf result) := by
  induction h with
  | nil => exact .nil
  | error failed rest =>
    exact (failed.inOrder hcalls).cut_of_postOrder (Segment.postOrder_callsOfSegments rest)
  | cons first later ih =>
    rw [failureOf_map]
    exact (first.inOrder hcalls).append ih

theorem Template.Runs.inOrder {segments : List Segment} {result : Except Error Value}
    (h : Template.Runs calls segments store made result) :
    InOrder rules (Segment.callsOfSegments segments) store made (failureOf result) := by
  cases h with
  | @sole s _ _ _ sole runs =>
    have hsegments : segments = [s] := segments_of_solePlaceholder? sole
    rw [hsegments, Segment.callsOfSegments, Segment.callsOfSegments, List.append_nil]
    exact runs.inOrder hcalls
  | text mixed runs =>
    rw [failureOf_map]
    exact runs.inOrder hcalls

theorem Argument.Runs.inOrder {a : Argument} {result : Except Error Value}
    (h : a.Runs calls store made result) :
    InOrder rules (Segment.callsOfArg a) store made (failureOf result) := by
  cases h with
  | literal key v source => exact .nil
  | quoted key delimiter source runs =>
    rw [failureOf_map]
    exact runs.inOrder hcalls
  | expr key source runs => exact runs.inOrder hcalls

theorem Argument.AllRun.inOrder {args : List Argument} {done : Arguments}
    {result : Except Error Arguments} (h : Argument.AllRun calls args done store made result) :
    InOrder rules (Segment.callsOfArgs args) store made (failureOf result) := by
  induction h with
  | nil => exact .nil
  | error failed rest done =>
    exact (failed.inOrder hcalls).cut_of_postOrder (Segment.postOrder_callsOfArgs rest)
  | cons first later ih => exact (first.inOrder hcalls).append ih

end Courses

/-- A verb that is run on the values of its arguments is the last of its call. -/
theorem Rules.Invokes.inOrder {rules : Rules} {room : ℕ} {c : Call} {args : Arguments}
    {store : Store} {made more : List Invocation} {result : Except Error Value} {verb : Verb}
    (hknown : rules.verbs.get? c.name = some verb)
    (harguments :
      Argument.AllRun (Call.Runs rules room) c.args Arguments.none store made (.ok args))
    (hmade : InOrder rules (Segment.callsOfArgs c.args) store made none)
    (h : rules.Invokes c.name args (store.after made) more result) :
    InOrder rules (Segment.callsOfArgs c.args ++ [c]) store (made ++ more) (failureOf result) := by
  cases h with
  | unknown absent => cases hknown.symm.trans absent
  | refused found bind =>
    rw [List.append_nil]
    exact hmade.cut_of_known nofun hknown
  | @invoked _ _ bound found bind =>
    exact hmade.concat (.intro (List.nil_append made).symm (hmade.complete rfl) rfl found
      harguments bind rfl)

/-- The invocations of a call are in order. The induction is on how deep calls may be nested in
it. -/
theorem allInOrder_runs (rules : Rules) (room : ℕ) : AllInOrder rules (Call.Runs rules room) := by
  have hpostOrder (c : Call) : PostOrder (Segment.callsOfArgs c.args ++ [c]) :=
    (Segment.postOrder_callsOfArgs c.args).call
  induction room with
  | zero =>
    intro c store made result h
    cases h with
    | unknown absent => exact .of_error (hpostOrder c)
    | tooDeep found full => exact .of_error (hpostOrder c)
    | error found room => cases room
    | invokes found room => cases room
  | succ room ih =>
    intro c store made result h
    cases h with
    | unknown absent => exact .of_error (hpostOrder c)
    | tooDeep found full => cases full
    | error found room failed =>
      cases room
      exact (failed.inOrder ih).cut_of_known (fun e' he' => (Option.some.inj he').symm) found
    | invokes found room arguments verb =>
      cases room
      exact verb.inOrder found arguments (arguments.inOrder ih)

/-! ## Evaluation in order -/

/-- The invocations that an evaluation of a template makes are those of its calls in order, each
once: all of them if it gives a value, else those up to the first error. Each verb is run on the
bound values of its arguments, which were evaluated from left to right, each in the store that the
invocations before left. A verb that is not known is refused before its arguments are looked at. -/
theorem Level.template_invokes_in_order {rules : Rules} (hverbs : rules.verbs.KeepsConcrete)
    (n room depth : ℕ) (expanding : List String) {s : Session} (hs : s.store.IsConcrete) :
    let level := Level.tower rules (rules.fresh n) room depth
    (∀ t : Template,
        let run := exec (level.template expanding t.segments) s
        ∃ made, Template.Runs (Call.Runs rules room) t.segments s.store made run.1 ∧
          s.Leaves made run.2 ∧
          InOrder rules (Segment.callsOfSegments t.segments) s.store made (failureOf run.1)) ∧
      ∀ c : Call, rules.verbs.get? c.name = none →
        exec (level.template expanding [.call c]) s = (.error (.unknownFunction c.name), s) := by
  intro level
  constructor
  · intro t run
    obtain ⟨made, hruns, hleaves⟩ := takes_tower hverbs n room depth expanding t.segments s hs
    exact ⟨made, hruns, hleaves, hruns.inOrder (allInOrder_runs rules room)⟩
  · intro c hunknown
    have hcontains : rules.verbs.contains c.name = false := by
      rw [Dict.contains, hunknown]
      rfl
    have hcall (depth : ℕ) (below : Option (Unit → Level)) :
        exec (callOver rules (rules.fresh n) depth below expanding c) s =
          (.error (.unknownFunction c.name), s) := by
      rw [callOver, hcontains]
      rfl
    cases room with
    | zero => exact hcall depth none
    | succ room => exact hcall depth _

/-- A verb that binds a variable, and one that always fails. -/
def Rules.marking : Rules where
  verbs := [
    ("Fail", ⟨.exact [], .direct fun _ => throw (.assertion "failed")⟩),
    ("Mark", ⟨.exact ["name", "value"], .direct fun args => do
      modify fun s => s.set (args.text 0) ((args.get? 1).getD .null)
      return .string (args.text 0)⟩)]
  limit := 3

theorem keepsConcrete_marking : Rules.marking.verbs.KeepsConcrete := by
  intro name verb hverb
  have hmem := Dict.mem_of_get? hverb
  simp only [Rules.marking, List.mem_cons, List.not_mem_nil, or_false, Prod.mk.injEq] at hmem
  rcases hmem with ⟨-, rfl⟩ | ⟨-, rfl⟩
  · exact fun _ _ hstore => hstore
  · exact fun args _ hstore => hstore.set (args.text 0) _

/-- The template `${Mark(x, ${Mark(y, 1)})}-$y${Fail()}${Mark(z, 2)}`. -/
def Template.marking : Template where
  segments :=
    [ .call ⟨"Mark", [.literal none (.string "x") "x",
        .expr none [.call ⟨"Mark", [.literal none (.string "y") "y", .literal none (.nat 1) "1"]⟩]
          "$\x7bMark(y, 1)\x7d"]⟩,
      .text "-",
      .var "y",
      .call ⟨"Fail", []⟩,
      .call ⟨"Mark", [.literal none (.string "z") "z", .literal none (.nat 2) "2"]⟩ ]

/-- The verb that fails is the last one that is run, and the call behind it is not made. -/
theorem marking_invokes_in_order :
    Rules.marking.verbs.KeepsConcrete ∧ (Store.empty 0).IsConcrete ∧
      ∃ made, made.map Invocation.verb = ["Mark", "Mark", "Fail"] ∧
        InOrder .marking (Segment.callsOfSegments Template.marking.segments) (Store.empty 0) made
          (some (.assertion "failed")) := by
  have hconcrete : (Store.empty 0).IsConcrete := nofun
  let level := Level.tower Rules.marking (Rules.marking.fresh 0) 3 0
  let run := exec (level.template [] Template.marking.segments) ⟨Store.empty 0, []⟩
  have hnames : (invocationsIn run.2.journal).map Prod.fst = ["Mark", "Mark", "Fail"] := by
    decide +kernel
  have hfailed : failureOf run.1 = some (.assertion "failed") := by
    decide +kernel
  obtain ⟨made, -, hleaves, horder⟩ := (Level.template_invokes_in_order keepsConcrete_marking
    0 3 0 [] (s := ⟨Store.empty 0, []⟩) hconcrete).1 .marking
  refine ⟨keepsConcrete_marking, hconcrete, made, ?_, hfailed ▸ horder⟩
  rw [← hnames, hleaves.journal_eq, List.map_append, List.map_map]
  rfl

end Casebook
