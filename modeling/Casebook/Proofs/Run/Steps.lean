import Casebook.Proofs.Context.Writes
import Casebook.Proofs.Run.Verdict
import Mathlib

/-!
# What steps leave behind

The steps of a case are come to one after another, each in what the ones before it left, up to the
first that gives an error (`turns`). A step is skipped if its kind has no executor; otherwise its
fields are evaluated, then its executor is called, and either may give an error (`StepFate`).

Main statement: whatever becomes of them, the steps of a case leave the result of the last one that
was done, if there was one, and otherwise the result from before. A variable is bound to what was
written last, by a verb in the fields of a step or as the result of a step that was done, and to a
value as it is. A step that is skipped changes nothing, one that fails changes only what the verbs
in its fields bind, and executors are called for no others than the steps that got to theirs.
-/

namespace Casebook

open Casebook.Computation Running

/-! ## What becomes of a step -/

/-- What becomes of a step that is come to. -/
inductive StepFate where
  /-- Its kind has no executor. -/
  | skipped
  /-- Its fields gave an error. -/
  | unresolved (e : Error)
  /-- Its executor gave an error. -/
  | refused (e : Error)
  /-- Its executor gave a value. -/
  | done (v : Value)

namespace StepFate

/-- Whether the step is got through. -/
def outcome : StepFate → Except Error Unit
  | skipped => .ok ()
  | unresolved e => .error e
  | refused e => .error e
  | done _ => .ok ()

/-- The result of the step. -/
def value? : StepFate → Option Value
  | done v => some v
  | _ => none

/-- Whether an executor was called for the step. -/
def isCalled : StepFate → Bool
  | skipped => false
  | unresolved _ => false
  | refused _ => true
  | done _ => true

end StepFate

/-- A step that is come to, and the running case that it finds. -/
structure Turn where
  step : Step
  found : CaseRun

namespace Turn

variable (t : Turn)

/-- The context that the step finds. -/
def context : Context :=
  t.found.bench.context

/-- The executors that the step finds. -/
def executors : Executors :=
  t.found.bench.executors

/-- What becomes of the step. -/
def fate : StepFate :=
  match t.executors.find? t.step.kind with
  | none => .skipped
  | some r =>
    match t.context.resolveValue t.step.fields with
    | (.error e, _) => .unresolved e
    | (.ok fields, resolved) =>
      match r.executor.answer r.calls t.step.kind fields resolved.store with
      | .error e => .refused e
      | .ok v => .done v

/-- What the verbs in the fields bind, in order. The fields of a step that is skipped are not
evaluated. -/
def fieldWrites : List (String × Value) :=
  match t.fate with
  | .skipped => []
  | _ => t.context.writes (t.context.level.value [] t.step.fields)

/-- What the result is bound to, if the step is done and names a variable. -/
def resultWrites : List (String × Value) :=
  match t.step.result, t.fate with
  | some name, .done v => [(name, v)]
  | _, _ => []

/-- All that is bound, in order. -/
def writes : List (String × Value) :=
  t.fieldWrites ++ t.resultWrites

/-- The running case that the step leaves. -/
def left : CaseRun :=
  (exec (Case.runStep t.step) t.found).2

end Turn

namespace Case

/-- The steps that are come to, each with what the ones before it left, up to the first that gives
an error. -/
def turns : List Step → CaseRun → List Turn
  | [], _ => []
  | step :: rest, s =>
    ⟨step, s⟩ ::
      match exec (runStep step) s with
      | (.ok _, s') => turns rest s'
      | (.error _, _) => []

end Case

/-- A store with the result of a step, if there is one. -/
def Store.record (s : Store) (result : Option Value) : Store :=
  { s with lastResult := result.or s.lastResult }

/-- A context once variables were bound one after another and the result of a step was recorded. -/
def Context.written (c : Context) (entries : List (String × Value)) (result : Option Value) :
    Context :=
  { c with store := (c.store.setAll entries).record result }

theorem Context.lastResult_written (c : Context) (entries : List (String × Value))
    (result : Option Value) :
    (c.written entries result).store.lastResult = result.or c.store.lastResult :=
  congrArg result.or (c.store.lastResult_setAll entries)

theorem Context.find?_written (c : Context) (entries : List (String × Value))
    (result : Option Value) (name : String) :
    (c.written entries result).store.find? name =
      ((lastOf entries name).map fun v => ⟨v, false⟩).or (c.store.find? name) :=
  c.store.find?_setAll entries name

/-- A running case in another context. -/
def CaseRun.within (s : CaseRun) (context : Context) : CaseRun :=
  { s with bench := { s.bench with context } }

/-! ## One step -/

theorem context_exec_recordResult (name : Option String) (v : Value) (s : CaseRun) :
    (exec (Case.recordResult name v) s).2.bench.context = { s.bench.context with
      store := Store.setLastResult (match name with
        | some name => s.bench.context.store.set name v
        | none => s.bench.context.store) v } := rfl

namespace Turn

variable {t : Turn}

/-- A step does what its fate says. -/
structure Effect (t : Turn) : Prop where
  outcome : (exec (Case.runStep t.step) t.found).1 = t.fate.outcome
  context : t.left.bench.context = t.context.written t.writes t.fate.value?
  executors : t.left.bench.executors =
    if t.fate.isCalled then t.executors.countCall t.step.kind else t.executors

/-- A step of a kind without an executor is noted and counted, whatever its fields are. -/
theorem exec_runStep_of_find?_none (h : t.executors.find? t.step.kind = none) :
    exec (Case.runStep t.step) t.found = exec (do
      trace .normal s!"skipped '{t.step.kind.key}' step: no executor"
      updateResult fun r => { r with stepsSkipped := r.stepsSkipped + 1 }) t.found := by
  have hcontains : t.found.bench.executors.contains t.step.kind = false := by
    rw [Executors.contains]
    exact congrArg Option.isSome h
  exact Case.exec_runStep_eq_of_not_contains hcontains

theorem fate_eq_skipped_iff : t.fate = .skipped ↔ t.executors.find? t.step.kind = none := by
  constructor
  · intro h
    rw [fate] at h
    split at h
    · assumption
    · split at h
      · cases h
      · split at h <;> cases h
  · intro h
    rw [fate, h]

theorem writes_of_skipped (h : t.fate = .skipped) : t.writes = [] := by
  rw [writes, fieldWrites, resultWrites, h]
  cases t.step.result <;> rfl

theorem value?_of_outcome_error {e : Error} (h : t.fate.outcome = .error e) :
    t.fate.value? = none := by
  cases hfate : t.fate with
  | done v => rw [hfate] at h; cases h
  | _ => rfl

/-- A step that fails binds no result. -/
theorem writes_of_outcome_error {e : Error} (h : t.fate.outcome = .error e) :
    t.writes = t.fieldWrites := by
  rw [writes, resultWrites]
  cases hfate : t.fate with
  | done v => rw [hfate] at h; cases h
  | _ => cases t.step.result <;> exact List.append_nil _

theorem effect_of_find?_none (h : t.executors.find? t.step.kind = none) : t.Effect := by
  have hfate : t.fate = .skipped := fate_eq_skipped_iff.mpr h
  have hexec := exec_runStep_of_find?_none h
  constructor
  case outcome => rw [hexec, hfate]; rfl
  case context => rw [left, hexec, writes_of_skipped hfate, hfate]; rfl
  case executors => rw [left, hexec, hfate]; rfl

section Called

variable {r : Registered} (h : t.executors.find? t.step.kind = some r)

include h

theorem exec_runStep_of_find?_some :
    exec (Case.runStep t.step) t.found = exec (do
      let fields ← evaluate fun context => context.resolveValue t.step.fields
      trace .step s!"{t.step.kind.key} {Json.compact fields}"
      match ← Case.execute t.step.kind fields with
      | none => return
      | some v => Case.recordResult t.step.result v) t.found := by
  have hcontains : t.found.bench.executors.contains t.step.kind = true := by
    rw [Executors.contains]
    exact congrArg Option.isSome h
  exact Case.exec_runStep_eq_of_contains hcontains

theorem fieldWrites_of_find?_some :
    t.fieldWrites = t.context.writes (t.context.level.value [] t.step.fields) := by
  have hfate : t.fate ≠ .skipped := by
    intro hfate
    cases (fate_eq_skipped_iff.mp hfate).symm.trans h
  rw [fieldWrites]
  split
  · contradiction
  · rfl

variable (hverbs : t.context.verbs = Builtin.registry)

include hverbs

/-- The fields of a step that is not skipped are evaluated. -/
theorem resolveValue_fields {result : Except Error Value}
    (hresult : (t.context.resolveValue t.step.fields).1 = result) :
    t.context.resolveValue t.step.fields = (result, t.context.setAll t.fieldWrites) := by
  rw [fieldWrites_of_find?_some h, ← Context.resolveValue_snd hverbs, ← hresult]

theorem exec_evaluate_fields {result : Except Error Value}
    (hresult : (t.context.resolveValue t.step.fields).1 = result) :
    exec (evaluate fun context => context.resolveValue t.step.fields) t.found =
      (result, t.found.within (t.context.setAll t.fieldWrites)) := by
  show ((t.context.resolveValue t.step.fields).1,
    t.found.within (t.context.resolveValue t.step.fields).2) = _
  rw [resolveValue_fields h hverbs hresult]

theorem effect_of_fields_error {e : Error}
    (hfields : (t.context.resolveValue t.step.fields).1 = .error e) : t.Effect := by
  have hfate : t.fate = .unresolved e := by
    rw [fate, h, resolveValue_fields h hverbs hfields]
  have hwrites : t.writes = t.fieldWrites := writes_of_outcome_error (by rw [hfate]; rfl)
  have hexec : exec (Case.runStep t.step) t.found =
      (.error e, t.found.within (t.context.setAll t.fieldWrites)) := by
    rw [exec_runStep_of_find?_some h]
    exact exec_bind_eq_error.mpr (.inl (exec_evaluate_fields h hverbs hfields))
  constructor
  case outcome => rw [hexec, hfate]; rfl
  case context => rw [left, hexec, hwrites, hfate]; rfl
  case executors => rw [left, hexec, hfate]; rfl

/-- The executor is called with the evaluated fields, in the store that their evaluation left. -/
theorem exists_exec_runStep_of_fields_ok {fields : Value} {answer : Except Error Value}
    (hfields : (t.context.resolveValue t.step.fields).1 = .ok fields)
    (hanswer : r.executor.answer r.calls t.step.kind fields
      (t.context.setAll t.fieldWrites).store = answer) :
    ∃ s, s.bench.context = t.context.setAll t.fieldWrites ∧
      s.bench.executors = t.executors.countCall t.step.kind ∧
      exec (Case.runStep t.step) t.found =
        match answer with
        | .error e => (.error e, s)
        | .ok v => exec (Case.recordResult t.step.result v) s := by
  -- What is noted in the trace changes neither the context nor the executors.
  obtain ⟨s, hs⟩ : ∃ s, exec (trace .step s!"{t.step.kind.key} {Json.compact fields}")
      (t.found.within (t.context.setAll t.fieldWrites)) = (.ok (), s) := ⟨_, rfl⟩
  have hcontext : s.bench.context = t.context.setAll t.fieldWrites := by cases hs; rfl
  have hexecutors : s.bench.executors = t.executors := by cases hs; rfl
  have hexecute := Case.exec_execute_of_some fields (hexecutors ▸ h)
  rw [hcontext, hexecutors, hanswer] at hexecute
  refine ⟨{ s with bench :=
    { s.bench with executors := t.executors.countCall t.step.kind } }, hcontext, rfl, ?_⟩
  rw [exec_runStep_of_find?_some h, exec_bind_of_ok (exec_evaluate_fields h hverbs hfields),
    exec_bind_of_ok hs]
  cases answer with
  | error e => exact exec_bind_eq_error.mpr (.inl hexecute)
  | ok v => exact exec_bind_of_ok hexecute

theorem effect_of_fields_ok {fields : Value}
    (hfields : (t.context.resolveValue t.step.fields).1 = .ok fields) : t.Effect := by
  have hresolve := resolveValue_fields h hverbs hfields
  cases hanswer : r.executor.answer r.calls t.step.kind fields
    (t.context.setAll t.fieldWrites).store with
  | error e =>
    obtain ⟨s, hcontext, hexecutors, hexec⟩ :=
      exists_exec_runStep_of_fields_ok h hverbs hfields hanswer
    have hfate : t.fate = .refused e := by
      rw [fate, h, hresolve]
      dsimp only
      rw [hanswer]
    have hwrites : t.writes = t.fieldWrites := writes_of_outcome_error (by rw [hfate]; rfl)
    constructor
    case outcome => rw [hexec, hfate]; rfl
    case context => rw [left, hexec, hcontext, hwrites, hfate]; rfl
    case executors => rw [left, hexec, hexecutors, hfate]; rfl
  | ok v =>
    obtain ⟨s, hcontext, hexecutors, hexec⟩ :=
      exists_exec_runStep_of_fields_ok h hverbs hfields hanswer
    have hfate : t.fate = .done v := by
      rw [fate, h, hresolve]
      dsimp only
      rw [hanswer]
    constructor
    case outcome => rw [hexec, hfate]; rfl
    case context =>
      rw [left, hexec, context_exec_recordResult, hcontext, writes, resultWrites, hfate]
      cases t.step.result with
      | none => rw [List.append_nil]; rfl
      | some name => rw [Context.written, Store.setAll_append]; rfl
    case executors => rw [left, hexec, hfate]; exact hexecutors

end Called

theorem effect (t : Turn) (hverbs : t.context.verbs = Builtin.registry) : t.Effect := by
  cases h : t.executors.find? t.step.kind with
  | none => exact effect_of_find?_none h
  | some r =>
    cases hfields : (t.context.resolveValue t.step.fields).1 with
    | error e => exact effect_of_fields_error h hverbs hfields
    | ok fields => exact effect_of_fields_ok h hverbs hfields

end Turn

/-- A step that is skipped leaves what it found. -/
theorem Turn.Effect.stage_of_skipped {t : Turn} (h : t.Effect) (hfate : t.fate = .skipped) :
    t.left.bench.context = t.context ∧ t.left.bench.executors = t.executors := by
  constructor
  · rw [h.context, Turn.writes_of_skipped hfate, hfate]
    rfl
  · rw [h.executors, hfate]
    rfl

/-- A step that fails leaves the store that it found, with what the verbs in its fields bind. -/
theorem Turn.Effect.store_of_failed {t : Turn} (h : t.Effect) {e : Error}
    (hfailed : t.fate.outcome = .error e) :
    t.left.bench.context.store = t.context.store.setAll t.fieldWrites := by
  rw [h.context, Turn.writes_of_outcome_error hfailed, Turn.value?_of_outcome_error hfailed]
  rfl

/-! ## One step after another -/

namespace Store

theorem setAll_record (s : Store) (entries : List (String × Value)) (result : Option Value) :
    (s.record result).setAll entries = (s.setAll entries).record result := by
  induction entries generalizing s with
  | nil => rfl
  | cons entry entries ih => exact ih (s.set entry.1 entry.2)

theorem record_record (s : Store) (result later : Option Value) :
    (s.record result).record later = s.record (later.or result) := by
  rw [record, record, record, Option.or_assoc]

end Store

theorem Context.written_written (c : Context) (entries more : List (String × Value))
    (result later : Option Value) :
    (c.written entries result).written more later =
      c.written (entries ++ more) (later.or result) := by
  rw [written, written, written, Store.setAll_record, Store.record_record, Store.setAll_append]

namespace Case

variable {step : Step} {s : CaseRun}

/-- Steps are gone on with where a step that is got through ends. -/
theorem runSteps_cons_of_ok (rest : List Step) (h : (exec (runStep step) s).1 = .ok ()) :
    turns (step :: rest) s = ⟨step, s⟩ :: turns rest (Turn.mk step s).left ∧
      exec (runSteps (step :: rest)) s = exec (runSteps rest) (Turn.mk step s).left := by
  rw [turns, runSteps, Turn.left]
  rcases hexec : exec (runStep step) s with ⟨result, s'⟩
  rw [hexec] at h
  subst h
  exact ⟨rfl, exec_bind_of_ok hexec⟩

/-- Nothing comes behind a step that gives an error. -/
theorem runSteps_cons_of_error (rest : List Step) {e : Error}
    (h : (exec (runStep step) s).1 = .error e) :
    turns (step :: rest) s = [⟨step, s⟩] ∧
      exec (runSteps (step :: rest)) s = (.error e, (Turn.mk step s).left) := by
  rw [turns, runSteps, Turn.left]
  rcases hexec : exec (runStep step) s with ⟨result, s'⟩
  rw [hexec] at h
  subst h
  exact ⟨rfl, exec_bind_eq_error.mpr (.inl hexec)⟩

end Case

/-- What turns leave: all that they write is bound one after another, the last result is recorded,
and the calls of executors are counted. -/
structure TurnsLeave (ts : List Turn) (b b' : Bench) : Prop where
  context : b'.context =
    b.context.written (ts.flatMap Turn.writes) (ts.filterMap fun t => t.fate.value?).getLast?
  executors : b'.executors =
    (ts.filter fun t => t.fate.isCalled).foldl (fun es t => es.countCall t.step.kind) b.executors

theorem turnsLeave_nil (b : Bench) : TurnsLeave [] b b := ⟨rfl, rfl⟩

/-- The result of the last of some turns is that of the first if none of the others has one. -/
theorem getLast?_filterMap_cons {α β : Type} (f : α → Option β) (a : α) (rest : List α) :
    ((a :: rest).filterMap f).getLast? = ((rest.filterMap f).getLast?).or (f a) := by
  rw [List.filterMap_cons]
  cases f a with
  | none => rw [Option.or_none]
  | some b =>
    rw [List.getLast?_cons]
    cases (rest.filterMap f).getLast? <;> rfl

/-- A turn leaves what its effect says, and the turns behind it go on from there. -/
theorem Turn.Effect.turnsLeave_cons {t : Turn} (h : t.Effect) {later : List Turn} {b' : Bench}
    (hlater : TurnsLeave later t.left.bench b') : TurnsLeave (t :: later) t.found.bench b' where
  context := by
    rw [hlater.context, h.context, Context.written_written, List.flatMap_cons,
      getLast?_filterMap_cons]
    rfl
  executors := by
    rw [hlater.executors, h.executors, List.filter_cons]
    cases t.fate.isCalled <;> rfl

namespace TurnsLeave

variable {ts : List Turn} {b b' : Bench}

theorem lastResult (h : TurnsLeave ts b b') : b'.context.store.lastResult =
    (ts.filterMap fun t => t.fate.value?).getLast?.or b.context.store.lastResult := by
  rw [h.context, Context.lastResult_written]

theorem find? (h : TurnsLeave ts b b') (name : String) : b'.context.store.find? name =
    ((lastOf (ts.flatMap Turn.writes) name).map fun v => ⟨v, false⟩).or
      (b.context.store.find? name) := by
  rw [h.context, Context.find?_written]

/-- The variable of a step that was done is bound to its result, unless it is written later. -/
theorem find?_result {before later : List Turn} {t : Turn} {v : Value} {name : String}
    (h : TurnsLeave (before ++ t :: later) b b') (hfate : t.fate = .done v)
    (hname : t.step.result = some name) :
    b'.context.store.find? name =
      some ⟨(lastOf (later.flatMap Turn.writes) name).getD v, false⟩ := by
  have hwrites : t.writes = t.fieldWrites ++ [(name, v)] := by
    rw [Turn.writes, Turn.resultWrites, hname, hfate]
  have hlast : lastOf [(name, v)] name = some v := by rw [lastOf_cons, if_pos rfl]; rfl
  -- The result is written after all that the turns before it write.
  rw [h.find?, List.flatMap_append, List.flatMap_cons, hwrites, lastOf_append, lastOf_append,
    lastOf_append, hlast]
  cases lastOf (later.flatMap Turn.writes) name <;> rfl

end TurnsLeave

namespace Case

/-- Steps leave what their turns leave. The induction is on the steps. -/
theorem turnsLeave_runSteps (steps : List Step) (s : CaseRun)
    (hverbs : s.bench.context.verbs = Builtin.registry) :
    TurnsLeave (turns steps s) s.bench (exec (runSteps steps) s).2.bench := by
  induction steps generalizing s with
  | nil => exact turnsLeave_nil s.bench
  | cons step rest ih =>
    have heffect := Turn.effect ⟨step, s⟩ hverbs
    cases hresult : (exec (runStep step) s).1 with
    | error e =>
      obtain ⟨hturns, hexec⟩ := runSteps_cons_of_error rest hresult
      rw [hturns, hexec]
      exact heffect.turnsLeave_cons (turnsLeave_nil _)
    | ok _ =>
      obtain ⟨hturns, hexec⟩ := runSteps_cons_of_ok rest hresult
      rw [hturns, hexec]
      refine heffect.turnsLeave_cons (ih _ ?_)
      rw [heffect.context]
      exact hverbs

/-- Where steps stop: all of them are got through, or the last that is come to gives an error. -/
inductive Stops (steps : List Step) (s : CaseRun) : Prop where
  | through (turns_eq : (turns steps s).map Turn.step = steps)
      (ok : ∀ t ∈ turns steps s, t.fate.outcome = .ok ())
      (result : (exec (runSteps steps) s).1 = .ok ())
  | error (before : List Turn) {last : Turn} {e : Error}
      (turns_eq : turns steps s = before ++ [last])
      (begin_eq : (turns steps s).map Turn.step <+: steps)
      (ok : ∀ t ∈ before, t.fate.outcome = .ok ()) (failed : last.fate.outcome = .error e)
      (result : exec (runSteps steps) s = (.error e, last.left))

/-- A step that fails is where steps stop. -/
theorem Stops.exec_eq_of_failed {steps : List Step} {s : CaseRun} (h : Stops steps s) {t : Turn}
    (ht : t ∈ turns steps s) {e : Error} (hfailed : t.fate.outcome = .error e) :
    exec (runSteps steps) s = (.error e, t.left) := by
  cases h with
  | through _ ok _ => cases (ok t ht).symm.trans hfailed
  | error before turns_eq _ ok failed result =>
    rw [turns_eq] at ht
    rcases List.mem_append.mp ht with ht | ht
    · cases (ok t ht).symm.trans hfailed
    · cases List.mem_singleton.mp ht
      cases failed.symm.trans hfailed
      exact result

/-- The induction is on the steps: those behind one that is got through stop in what it leaves. -/
theorem stops_runSteps (steps : List Step) (s : CaseRun)
    (hverbs : s.bench.context.verbs = Builtin.registry) : Stops steps s := by
  induction steps generalizing s with
  | nil => exact .through rfl (List.forall_mem_nil _) rfl
  | cons step rest ih =>
    have heffect := Turn.effect ⟨step, s⟩ hverbs
    cases hresult : (exec (runStep step) s).1 with
    | error e =>
      obtain ⟨hturns, hexec⟩ := runSteps_cons_of_error rest hresult
      refine .error [] hturns ?_ (List.forall_mem_nil _) (heffect.outcome.symm.trans hresult) hexec
      rw [hturns]
      exact ⟨rest, rfl⟩
    | ok _ =>
      obtain ⟨hturns, hexec⟩ := runSteps_cons_of_ok rest hresult
      have hstep : (Turn.mk step s).fate.outcome = .ok () := heffect.outcome.symm.trans hresult
      have hverbs' : (Turn.mk step s).left.bench.context.verbs = Builtin.registry := by
        rw [heffect.context]
        exact hverbs
      cases ih (Turn.mk step s).left hverbs' with
      | through turns_eq ok result =>
        refine .through ?_ ?_ (hexec ▸ result)
        · rw [hturns, List.map_cons, turns_eq]
        · rw [hturns]
          exact List.forall_mem_cons.mpr ⟨hstep, ok⟩
      | error before turns_eq begin_eq ok failed result =>
        refine .error (⟨step, s⟩ :: before) ?_ ?_ (List.forall_mem_cons.mpr ⟨hstep, ok⟩) failed
          (hexec ▸ result)
        · rw [hturns, turns_eq, List.cons_append]
        · rw [hturns]
          exact List.cons_prefix_cons.mpr ⟨rfl, begin_eq⟩

/-- What a step finds is what the steps in front of it leave. -/
theorem exec_runSteps_before {steps : List Step} {s : CaseRun} {before later : List Turn} {t : Turn}
    (h : turns steps s = before ++ t :: later) :
    exec (runSteps (before.map Turn.step)) s = (.ok (), t.found) := by
  induction before generalizing steps s with
  | nil =>
    cases steps with
    | nil => cases h
    | cons step rest =>
      rw [turns, List.nil_append, List.cons.injEq] at h
      rw [← h.1]
      rfl
  | cons first before ih =>
    cases steps with
    | nil => cases h
    | cons step rest =>
      cases hresult : (exec (runStep step) s).1 with
      | error e =>
        -- Nothing is come to behind a step that fails, but `t` is.
        rw [(runSteps_cons_of_error rest hresult).1, List.cons_append, List.cons.injEq] at h
        exact absurd h.2.symm (List.append_ne_nil_of_right_ne_nil _ (List.cons_ne_nil _ _))
      | ok _ =>
        rw [(runSteps_cons_of_ok rest hresult).1, List.cons_append, List.cons.injEq] at h
        rw [← h.1, List.map_cons, (runSteps_cons_of_ok _ hresult).2]
        exact ih h.2

theorem verbs_of_mem_turns {steps : List Step} {s : CaseRun}
    (hverbs : s.bench.context.verbs = Builtin.registry) {t : Turn} (ht : t ∈ turns steps s) :
    t.context.verbs = Builtin.registry := by
  obtain ⟨before, later, hturns⟩ := List.append_of_mem ht
  have hleave := turnsLeave_runSteps (before.map Turn.step) s hverbs
  rw [exec_runSteps_before hturns] at hleave
  rw [Turn.context, hleave.context]
  exact hverbs

/-! ## What the steps of a case leave -/

/-- What steps leave that stop somewhere, each of them in what the steps in front of it left. -/
structure StepsLeave (steps : List Step) (s : CaseRun) (b : Bench) : Prop where
  stops : Stops steps s
  /-- The steps in front of one that is come to are got through, and it finds what they leave. -/
  found : ∀ before t later, turns steps s = before ++ t :: later →
    exec (runSteps (before.map Turn.step)) s = (.ok (), t.found)
  /-- The last result is that of the last step that was done. -/
  lastResult : b.context.store.lastResult =
    ((turns steps s).filterMap fun t => t.fate.value?).getLast?.or s.bench.context.store.lastResult
  /-- The variable of a step that was done is bound to its result as it is, unless something that is
  written later binds it. -/
  result : ∀ before t later v name, turns steps s = before ++ t :: later → t.fate = .done v →
    t.step.result = some name →
      b.context.store.find? name =
        some ⟨(lastOf (later.flatMap Turn.writes) name).getD v, false⟩
  /-- Every variable has the value that was written last, as it is, or the binding from before. -/
  bindings : ∀ name, b.context.store.find? name =
    ((lastOf ((turns steps s).flatMap Turn.writes) name).map fun v => ⟨v, false⟩).or
      (s.bench.context.store.find? name)
  /-- A step that is skipped changes nothing, whatever its fields are. -/
  skipped : ∀ t ∈ turns steps s, t.fate = .skipped →
    t.left.bench.context = t.context ∧ t.left.bench.executors = t.executors ∧
      ∀ fields, exec (runStep { t.step with fields }) t.found = exec (runStep t.step) t.found
  /-- A step that fails is the last one. It changes the store by what the verbs in its fields bind,
  and nothing else in it: neither the last result nor any other variable, its own included. -/
  failed : ∀ t ∈ turns steps s, ∀ e, t.fate.outcome = .error e →
    b = t.left.bench ∧ b.context.store = t.context.store.setAll t.fieldWrites ∧
      b.context.store.lastResult = t.context.store.lastResult ∧
      ∀ name, lastOf t.fieldWrites name = none →
        b.context.store.find? name = t.context.store.find? name
  /-- A step whose fields give an error calls no executor. -/
  unresolved : ∀ t ∈ turns steps s, ∀ e, t.fate = .unresolved e →
    t.left.bench.executors = t.executors
  /-- No executors are called but those of the steps that are done and of the one that its executor
  refused. -/
  calls : b.executors = ((turns steps s).filter fun t => t.fate.isCalled).foldl
    (fun es t => es.countCall t.step.kind) s.bench.executors

/-- Wherever the steps of a case stop, they leave the result of the last step that was done, or
the one from before; the variables of steps that were done are bound to their results as they are,
later bindings winning; a step that is skipped changes nothing and its fields are not evaluated; and
a step that fails changes nothing but what verbs in its fields bind. No executor is called for a
step whose fields give an error, nor for any behind one that fails. -/
theorem runSteps_leaves (c : Case) (s : CaseRun)
    (hverbs : s.bench.context.verbs = Builtin.registry) :
    StepsLeave c.steps s (exec (runSteps c.steps) s).2.bench := by
  have hleave := turnsLeave_runSteps c.steps s hverbs
  have hstops := stops_runSteps c.steps s hverbs
  have heffect {t : Turn} (ht : t ∈ turns c.steps s) : t.Effect :=
    t.effect (verbs_of_mem_turns hverbs ht)
  constructor
  case stops => exact hstops
  case found => exact fun before t later hturns => exec_runSteps_before hturns
  case lastResult => exact hleave.lastResult
  case result =>
    intro before t later v name hturns hfate hname
    rw [hturns] at hleave
    exact hleave.find?_result hfate hname
  case bindings => exact hleave.find?
  case skipped =>
    intro t ht hfate
    have hnone := Turn.fate_eq_skipped_iff.mp hfate
    have hstage := (heffect ht).stage_of_skipped hfate
    refine ⟨hstage.1, hstage.2, fun fields => ?_⟩
    rw [Turn.exec_runStep_of_find?_none hnone]
    exact Turn.exec_runStep_of_find?_none (t := ⟨{ t.step with fields }, t.found⟩) hnone
  case failed =>
    intro t ht e hfailed
    have hstore := (heffect ht).store_of_failed hfailed
    rw [hstops.exec_eq_of_failed ht hfailed]
    refine ⟨rfl, hstore, ?_, fun name hname => ?_⟩
    · rw [hstore, Store.lastResult_setAll]
    · rw [hstore, Store.find?_setAll, hname]
      rfl
  case unresolved =>
    intro t ht e hfate
    rw [(heffect ht).executors, hfate]
    rfl
  case calls => exact hleave.executors

/-- Of the steps of this case the first has no executor, and the others go to the same one. The
fields of the last one bind the variable that it names. -/
def visits : Case :=
  { blank "C1" "visits" with
    steps :=
      [ ⟨.other "ftp", .nat 21, some "file"⟩, ⟨.request, .nat 80, some "page"⟩,
        ⟨.request, .string "$\x7bSetVar(page, 2)\x7d", some "page"⟩ ] }

/-- A case whose executor answers only once, and in whose context a variable is deferred. -/
def visiting : CaseRun where
  bench :=
    { context :=
        { store := (Store.empty 0).define "page" (.string "$\x7bnext\x7d")
          verbs := Builtin.registry
          limit := 3 }
      recorder := .empty
      executors := Executors.empty.register .request ⟨fun calls _ fields _ =>
        if calls = 0 then .ok fields else .error (.stepFailed "request" "closed")⟩ }
  result := .ofCase visits "shop"

/-- The page that was got stays the last result, though the last step was refused. The variable is
not deferred any more, and what the verb in the fields of the last step bound it to wins. -/
theorem runSteps_leaves_visits :
    visiting.bench.context.verbs = Builtin.registry ∧
      (turns visits.steps visiting).map Turn.fate =
        [.skipped, .done (.nat 80), .refused (.stepFailed "request" "closed")] ∧
      (exec (runSteps visits.steps) visiting).2.bench.context.store.lastResult = some (.nat 80) ∧
      (exec (runSteps visits.steps) visiting).2.bench.context.store.find? "page" =
        some ⟨.nat 2, false⟩ ∧
      (exec (runSteps visits.steps) visiting).2.bench.context.store.find? "file" = none := by
  have hverbs : visiting.bench.context.verbs = Builtin.registry := rfl
  have hleave := runSteps_leaves visits visiting hverbs
  have hfates : (turns visits.steps visiting).map Turn.fate =
      [.skipped, .done (.nat 80), .refused (.stepFailed "request" "closed")] := by cbv
  have hwrites : (turns visits.steps visiting).flatMap Turn.writes =
      [("page", .nat 80), ("page", .nat 2)] := by cbv
  have hvalues : ((turns visits.steps visiting).filterMap fun t => t.fate.value?) = [.nat 80] := by
    rw [← Function.comp_def, ← List.filterMap_map, hfates]
    rfl
  refine ⟨hverbs, hfates, ?_, ?_, ?_⟩
  · rw [hleave.lastResult, hvalues]
    rfl
  · rw [hleave.bindings, hwrites]
    rfl
  · rw [hleave.bindings, hwrites]
    rfl

end Case

end Casebook
