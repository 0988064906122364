import Casebook.Context.Builtin
import Casebook.Proofs.Context.Nesting
import Casebook.Proofs.Context.Placeholders
import Casebook.Proofs.Run.Verdict
import Mathlib.Data.Fintype.Perm

/-!
# Verify actions that do not disturb each other

The verbs that only look at the store leave it as it is, so an evaluation that runs no other verbs
does too, however it ends. Main statement: verify actions that run only such verbs, be it directly,
in arguments or in the values of deferred variables, leave the context unchanged, each of them has
the outcome that it has alone, and in another order they have the same outcomes in that order and
the same verdict.
-/

namespace Casebook

open Computation

/-! ## Verbs that leave the store -/

/-- A verb leaves every store as it is, whatever it gives. -/
def Verb.IsQuiet (verb : Verb) : Prop :=
  match verb.body with
  | .direct run => ∀ args, Moves (Same id) (run args)
  | .onVariable run => ∀ args found, Moves (Same id) (run args found)

namespace Builtin

/-- The names of the built-in verbs that only look at the store. -/
def lookingNames : List String :=
  ["GetVar", "VerifyVar", "VerifyEqual", "VerifyCode", "VerifyContain", "VerifyNotNull"]

theorem moves_verify (holds : Bool) (problem : String) :
    Moves (Same id) (verify holds problem) := by
  unfold verify
  split
  · exact moves_pure _
  · exact moves_throw _

theorem moves_getVar (args : Arguments) (found : Except Error Value) :
    Moves (Same id) (getVar args found) :=
  fun _ => rfl

theorem moves_verifyVar (args : Arguments) (found : Except Error Value) :
    Moves (Same id) (verifyVar args found) := by
  unfold verifyVar
  dsimp only
  split
  · exact moves_verify _ _
  · exact moves_throw _
  · exact moves_throw _

theorem moves_verifyEqual (args : Arguments) : Moves (Same id) (verifyEqual args) :=
  moves_verify _ _

theorem moves_verifyCode (args : Arguments) : Moves (Same id) (verifyCode args) := by
  refine moves_bind moves_get fun store => ?_
  split
  · exact moves_throw _
  · split
    · exact moves_throw _
    · exact moves_verify _ _

theorem moves_verifyContain (args : Arguments) : Moves (Same id) (verifyContain args) := by
  refine moves_bind moves_get fun store => ?_
  split
  · exact moves_throw _
  · exact moves_verify _ _

theorem moves_verifyNotNull (args : Arguments) : Moves (Same id) (verifyNotNull args) := by
  refine moves_bind moves_get fun store => ?_
  split
  · exact moves_throw _
  · exact moves_throw _
  · exact moves_pure _

/-- The verbs that only look at the store leave it as it is; all others have other names. -/
theorem isQuiet_of_mem_lookingNames {b : Builtin} (hb : b ∈ all) (hname : b.name ∈ lookingNames) :
    b.verb.IsQuiet := by
  simp only [all, List.mem_cons, List.not_mem_nil, or_false] at hb
  rcases hb with rfl | rfl | rfl | rfl | rfl | rfl | rfl | rfl | rfl | rfl | rfl
  · exact absurd hname (by decide)
  · exact absurd hname (by decide)
  · exact moves_getVar
  · exact absurd hname (by decide)
  · exact absurd hname (by decide)
  · exact absurd hname (by decide)
  · exact moves_verifyVar
  · exact moves_verifyEqual
  · exact moves_verifyCode
  · exact moves_verifyContain
  · exact moves_verifyNotNull

end Builtin

/-- A name is that of a built-in verb that only looks at the store, in the registry too. -/
def Registry.OnlyLooks (verbs : Registry) (name : String) : Prop :=
  name ∈ Builtin.lookingNames ∧ ∃ b ∈ Builtin.all, b.name = name ∧ verbs.get? name = some b.verb

theorem Registry.OnlyLooks.isQuiet {verbs : Registry} {name : String} (h : verbs.OnlyLooks name)
    {verb : Verb} (hverb : verbs.get? name = some verb) : verb.IsQuiet := by
  obtain ⟨hname, b, hb, rfl, hfound⟩ := h
  cases hfound.symm.trans hverb
  exact Builtin.isQuiet_of_mem_lookingNames hb hname

/-- Among the built-in verbs, those of these names only look at the store. -/
theorem Builtin.onlyLooks_registry {name : String} (hname : name ∈ lookingNames) :
    registry.OnlyLooks name := by
  refine ⟨hname, ?_⟩
  have hfound {b : Builtin} (hb : b ∈ all) (h : registry.get? b.name = some b.verb) :
      ∃ b' ∈ all, b'.name = b.name ∧ registry.get? b.name = some b'.verb := ⟨b, hb, rfl, h⟩
  simp only [lookingNames, List.mem_cons, List.not_mem_nil, or_false] at hname
  rcases hname with rfl | rfl | rfl | rfl | rfl | rfl
  · exact hfound (b := all[2]) (List.getElem_mem _) rfl
  · exact hfound (b := all[6]) (List.getElem_mem _) rfl
  · exact hfound (b := all[7]) (List.getElem_mem _) rfl
  · exact hfound (b := all[8]) (List.getElem_mem _) rfl
  · exact hfound (b := all[9]) (List.getElem_mem _) rfl
  · exact hfound (b := all[10]) (List.getElem_mem _) rfl

/-! ## Evaluations that run quiet verbs -/

/-- The verb that was run, if that is what was done. -/
def Event.verb? : Event → Option String
  | .invoked name _ => some name
  | .opened _ _ => none
  | .closed => none

/-- What an evaluation notes is added to the journal, and it leaves the store as it is if all the
verbs that it notes only look at it. -/
def Quiet (rules : Rules) (α : Type) (m : Evaluation α) : Prop :=
  ∀ s, ∃ noted, (exec m s).2.journal = noted ++ s.journal ∧
    ((∀ name ∈ noted.filterMap Event.verb?, rules.verbs.OnlyLooks name) →
      (exec m s).2.store = s.store)

/-- Runs of verbs that only look at the store leave it, one after another. -/
theorem records_quiet (rules : Rules) : Records rules fun noted store store' =>
    (∀ name ∈ noted.filterMap Event.verb?, rules.verbs.OnlyLooks name) → store' = store where
  nil _ _ := rfl
  append h h' looks := by
    rw [List.filterMap_append, List.forall_mem_append] at looks
    exact (h' looks.1).trans (h looks.2)
  opened _ _ _ _ := rfl
  closed _ _ := rfl
  direct {name verb run} hverb hbody args store looks := by
    have hquiet := (looks name List.mem_cons_self).isQuiet hverb
    rw [Verb.IsQuiet, hbody] at hquiet
    exact hquiet args store
  onVariable {name verb run} hverb hbody args found {noted store store'} h looks := by
    -- The verb itself is among those that were noted.
    rw [List.filterMap_append, List.forall_mem_append] at looks
    have hquiet := (looks.2 name List.mem_cons_self).isQuiet hverb
    rw [Verb.IsQuiet, hbody] at hquiet
    exact (hquiet args found store').trans (h looks.1)

theorem pervades_quiet (rules : Rules) : Pervades rules (Quiet rules) :=
  pervades_noting (records_quiet rules)

namespace Context

/-- The verbs that are run when a call is evaluated, the latest first: that of the call, those of
calls in its arguments, and those of calls in the values of deferred variables. -/
def verbsRunBy (c : Context) (call : Call) : List String :=
  (exec (c.level.template [] [.call call]) ⟨c.store, []⟩).2.journal.filterMap Event.verb?

/-- A call that runs only verbs that look at the store leaves the context as it is. -/
theorem evaluateCall_snd_of_onlyLooks {c : Context} {call : Call}
    (looks : ∀ name ∈ c.verbsRunBy call, c.verbs.OnlyLooks name) :
    (c.evaluateCall call).2 = c := by
  have hquiet := ((pervades_quiet c.rules).tower ((pervades_quiet c.rules).fresh c.readings)
    c.limit 0).template [] [.call call]
  obtain ⟨noted, hjournal, hstore⟩ := hquiet ⟨c.store, []⟩
  rw [List.append_nil] at hjournal
  have hsame : (exec (c.level.template [] [.call call]) ⟨c.store, []⟩).2.store = c.store := by
    refine hstore fun name hname => looks name ?_
    rw [← hjournal] at hname
    exact hname
  exact congrArg (fun store => { c with store }) hsame

end Context

/-! ## Verify actions -/

/-- The verdict does not depend on the order of the outcomes. -/
theorem CaseResult.status_finish_of_perm (r : CaseResult) {outcomes outcomes' : List VerifyOutcome}
    (h : outcomes.Perm outcomes') : (r.finish outcomes).status = (r.finish outcomes').status := by
  rw [finish, finish, h.all_eq]

namespace Case

/-- The outcome that a verify action has on its own. -/
def outcomeAlone (c : Context) (a : Action) : VerifyOutcome :=
  outcomeOf a (c.evaluateCall a.call).1

/-- A verify action that leaves the context as it is hands it on to the actions behind it. -/
theorem exists_exec_runVerify_cons {a : Action} (rest : List Action) {s : CaseRun}
    (hcontext : (s.bench.context.evaluateCall a.call).2 = s.bench.context) :
    ∃ s₁, s₁.bench.context = s.bench.context ∧
      exec (runVerify (a :: rest)) s =
        exec (runVerify rest >>= fun os =>
          pure (outcomeAlone s.bench.context a :: os)) s₁ := by
  have houtcome : exec (runAction a).outcome s = (.ok (s.bench.context.evaluateCall a.call).1,
      { s with bench :=
        { s.bench with context := (s.bench.context.evaluateCall a.call).2 } }) := rfl
  rw [hcontext] at houtcome
  rw [runVerify, exec_bind_of_ok houtcome]
  -- What is noted in the trace leaves the context.
  by_cases hpassed : (outcomeAlone s.bench.context a).passed
  · exact ⟨(exec (Running.trace .normal s!"verify {a.source}: pass") s).2, rfl, by
      simp only [outcomeAlone] at hpassed
      simp only [hpassed, if_true]
      rfl⟩
  · exact ⟨(exec (Running.trace .error
      s!"verify {a.source}: {(outcomeAlone s.bench.context a).reason}") s).2, rfl, by
      simp only [outcomeAlone] at hpassed
      simp only [hpassed, Bool.false_eq_true, if_false]
      rfl⟩

/-- Actions that run only verbs that look at the store have the outcomes that they have on their
own. The induction is on the actions; each of them finds the context that the first one found. -/
theorem exists_exec_runVerify_of_onlyLooks (actions : List Action) (s : CaseRun)
    (looks : ∀ a ∈ actions, ∀ name ∈ s.bench.context.verbsRunBy a.call,
      s.bench.context.verbs.OnlyLooks name) :
    ∃ s', exec (runVerify actions) s = (.ok (actions.map (outcomeAlone s.bench.context)), s') ∧
      s'.bench.context = s.bench.context := by
  induction actions generalizing s with
  | nil => exact ⟨s, rfl, rfl⟩
  | cons a rest ih =>
    have hcontext := Context.evaluateCall_snd_of_onlyLooks (looks a List.mem_cons_self)
    obtain ⟨s₁, hs₁, hexec⟩ := exists_exec_runVerify_cons rest hcontext
    obtain ⟨s', hrest, hs'⟩ := ih s₁ fun b hb => by
      rw [hs₁]
      exact looks b (List.mem_cons_of_mem a hb)
    rw [hs₁] at hrest hs'
    refine ⟨s', ?_, hs'⟩
    rw [hexec, exec_bind_of_ok hrest]
    rfl

/-- Verify actions that run only verbs that look at the store do not disturb each other. They leave
the context as it is, each of them has the outcome that it has when it is run alone, and in any
other order they have the same outcomes, in that order, and the case gets the same verdict. -/
theorem runVerify_independent (s : CaseRun) (actions : List Action)
    (looks : ∀ a ∈ actions, ∀ name ∈ s.bench.context.verbsRunBy a.call,
      s.bench.context.verbs.OnlyLooks name) :
    ∃ outcomes : Fin actions.length → VerifyOutcome,
      (∀ i, (exec (runVerify [actions[i]]) s).1 = .ok [outcomes i]) ∧
        (exec (runVerify actions) s).1 = .ok (List.ofFn outcomes) ∧
        (exec (runVerify actions) s).2.bench.context = s.bench.context ∧
        ∀ σ : Equiv.Perm (Fin actions.length),
          let run := exec (runVerify (List.ofFn fun i => actions[σ i])) s
          run.1 = .ok (List.ofFn fun i => outcomes (σ i)) ∧
            run.2.bench.context = s.bench.context ∧
            ∀ r : CaseResult, (r.finish (List.ofFn fun i => outcomes (σ i))).status =
              (r.finish (List.ofFn outcomes)).status := by
  let outcomes (i : Fin actions.length) := outcomeAlone s.bench.context actions[i]
  -- Whatever actions of the list are run, in whatever order, they have these outcomes.
  have hselected {n : ℕ} (f : Fin n → Fin actions.length) :
      ∃ s', exec (runVerify (List.ofFn fun i => actions[f i])) s =
          (.ok (List.ofFn fun i => outcomes (f i)), s') ∧
        s'.bench.context = s.bench.context := by
    obtain ⟨s', hexec, hs'⟩ := exists_exec_runVerify_of_onlyLooks
      (List.ofFn fun i => actions[f i]) s fun a ha => by
        obtain ⟨i, rfl⟩ := (List.mem_ofFn' _ _).mp ha
        exact looks _ (List.getElem_mem _)
    rw [List.map_ofFn] at hexec
    exact ⟨s', hexec, hs'⟩
  have hwhole : (List.ofFn fun i : Fin actions.length => actions[i]) = actions := List.ofFn_getElem
  refine ⟨outcomes, fun i => ?_, ?_, ?_, fun σ => ?_⟩
  · obtain ⟨s', hexec, -⟩ := hselected fun _ : Fin 1 => i
    exact congrArg Prod.fst hexec
  · obtain ⟨s', hexec, -⟩ := hselected fun i => i
    rw [hwhole] at hexec
    exact congrArg Prod.fst hexec
  · obtain ⟨s', hexec, hs'⟩ := hselected fun i => i
    rw [hwhole] at hexec
    rw [hexec]
    exact hs'
  · obtain ⟨s', hexec, hs'⟩ := hselected σ
    refine ⟨congrArg Prod.fst hexec, ?_, fun r => ?_⟩
    · rw [hexec]
      exact hs'
    · have hperm : (List.ofFn fun i => outcomes (σ i)).Perm (List.ofFn outcomes) :=
        Equiv.Perm.ofFn_comp_perm σ outcomes
      exact r.status_finish_of_perm hperm

/-- A case in whose context a deferred variable leads to a call. -/
def deferring : CaseRun where
  bench :=
    { context :=
        { store := ((Store.empty 0).define "a" (.string "$\x7bGetVar(b)\x7d")).set "b" (.nat 1)
          verbs := Builtin.registry
          limit := 3 }
      recorder := .empty
      executors := .empty }
  result := ⟨"C1", "deferring", "", "", .passed, .verify, none, [], 0, 0⟩

/-- A check that fails, one that gives an error, and one that passes. -/
def checks : List Action :=
  [ ⟨"VerifyVar(a, 2)",
      ⟨"VerifyVar", [.literal none (.string "a") "a", .literal none (.nat 2) "2"]⟩⟩,
    ⟨"VerifyEqual($c, 1)",
      ⟨"VerifyEqual", [.expr none [.var "c"] "$c", .literal none (.nat 1) "1"]⟩⟩,
    ⟨"VerifyEqual($a, 1)",
      ⟨"VerifyEqual", [.expr none [.var "a"] "$a", .literal none (.nat 1) "1"]⟩⟩ ]

/-- The checks run only verbs that look at the store, so backwards they have the same outcomes, the
last first. -/
theorem runVerify_independent_checks :
    (∀ a ∈ checks, ∀ name ∈ deferring.bench.context.verbsRunBy a.call,
        deferring.bench.context.verbs.OnlyLooks name) ∧
      ∃ failed unbound equal : VerifyOutcome,
        (exec (runVerify checks) deferring).1 = .ok [failed, unbound, equal] ∧
          (exec (runVerify checks.reverse) deferring).1 = .ok [equal, unbound, failed] ∧
          (exec (runVerify checks.reverse) deferring).2.bench.context =
            deferring.bench.context := by
  let rules : Rules := ⟨Builtin.registry, 3⟩
  have hlevel : deferring.bench.context.level = Level.tower rules (fun name =>
      (Level.tower rules (rules.fresh 0) 3 0).template [] [.var name]) 3 0 := rfl
  have hnames : ∀ a ∈ checks, ∀ name ∈ deferring.bench.context.verbsRunBy a.call,
      name ∈ Builtin.lookingNames := by
    simp only [Context.verbsRunBy, hlevel, rules, Level.tower, Rules.fresh,
      Context.above_eq_parsing]
    decide +kernel
  have hlooks : ∀ a ∈ checks, ∀ name ∈ deferring.bench.context.verbsRunBy a.call,
      deferring.bench.context.verbs.OnlyLooks name :=
    fun a ha name hname => Builtin.onlyLooks_registry (hnames a ha name hname)
  obtain ⟨outcomes, -, hrun, -, hpermuted⟩ := runVerify_independent deferring checks hlooks
  obtain ⟨hbackwards, hcontext, -⟩ := hpermuted Fin.revPerm
  exact ⟨hlooks, outcomes (0 : Fin 3), outcomes (1 : Fin 3), outcomes (2 : Fin 3), hrun,
    hbackwards, hcontext⟩

end Case

end Casebook
