import Casebook.Proofs.Run.Reports
import Casebook.Run.Trace

/-!
# What a trace holds

The recorder is told of a case while the case is run, and the result of the case is put together
apart from that. Main statement: a run leaves one closed record for each case, in order, and what
the record tells agrees with the result. It names the phases up to the one in which the case ended,
has an error for an error that stopped the case or else for each verify action that failed, and a
step for each step that was carried out; only the step at which an error stopped the case may be
noted without being counted.

`Recorded` is what holds while a case is in a phase, and each part of the pipeline leads from there
to the same, or on to the next phase. An error leaves at most one step uncounted.
-/

namespace Casebook

open Casebook.Computation Running

namespace TraceEntry

/-- The messages of one kind among entries, in order. -/
def messages (level : TraceLevel) (entries : List TraceEntry) : List String :=
  (entries.filter fun e => e.level = level).map message

theorem messages_concat (level : TraceLevel) (entries : List TraceEntry) (e : TraceEntry) :
    messages level (entries ++ [e]) =
      messages level entries ++ if e.level = level then [e.message] else [] := by
  rw [messages, List.filter_append, List.map_append, List.filter_singleton]
  by_cases h : e.level = level <;> simp [messages, h]

end TraceEntry

open TraceEntry

/-- Verification ends in a verdict that is no error. -/
theorem CaseResult.status_finish_ne_error (r : CaseResult) (verifies : List VerifyOutcome) :
    (r.finish verifies).status ≠ .error := by
  unfold finish
  dsimp only
  split <;> decide

namespace Case

/-! ## What a record tells -/

/-- The names under which the phases are entered, in order. -/
def sectionNames : List String :=
  ["pre_command", "steps", "post_command", "verify"]

/-- A record tells of a case that was run in a module and came to a result. -/
structure ToldBy (c : Case) (module : String) (r : CaseResult) (t : CaseTrace) : Prop where
  module : t.module = module
  case : t.case = c.name
  responsible : t.responsible = c.responsible
  tester : t.tester = c.tester
  /-- The phases are named up to the one in which the case ended. -/
  sections : t.messages .section = sectionNames.take r.phase.rank
  errors : (t.messages .error).length =
    if r.status = .error then 1 else r.failedVerifies.length
  stepsRun_le : r.stepsRun ≤ (t.messages .step).length
  /-- The step at which an error stopped the case may have been noted, too. -/
  steps_le : (t.messages .step).length ≤ r.stepsRun + if r.phase = .steps then 1 else 0

/-- A case is in a phase, and its open record tells of so many errors, and of so many steps more
than were counted as carried out. -/
structure Recorded (finished : List CaseTrace) (opened : CaseTrace) (p : Phase) (errors ahead : ℕ)
    (s : CaseRun) : Prop where
  phase : s.result.phase = p
  entries : ∃ es, s.bench.recorder = ⟨finished, some { opened with entries := es }⟩ ∧
    messages .section es = sectionNames.take p.rank ∧
    (messages .error es).length = errors ∧
    (messages .step es).length = s.result.stepsRun + ahead

/-- An error stopped a case in a phase, where at most one step was noted without being counted. -/
def StoppedIn (finished : List CaseTrace) (opened : CaseTrace) (s : CaseRun) : Prop :=
  ∃ ahead, Recorded finished opened s.result.phase 0 ahead s ∧
    ahead ≤ if s.result.phase = .steps then 1 else 0

section

variable {finished : List CaseTrace} {opened : CaseTrace} {p : Phase} {errors ahead : ℕ}
  {s s' : CaseRun}

theorem Recorded.stoppedIn (h : Recorded finished opened p 0 0 s) :
    StoppedIn finished opened s :=
  ⟨0, h.phase.symm ▸ h, Nat.zero_le _⟩

/-- Only the phase, the number of steps that were carried out and the recorder matter. -/
theorem Recorded.of_eq (h : Recorded finished opened p errors ahead s)
    (hphase : s'.result.phase = s.result.phase)
    (hsteps : s'.result.stepsRun = s.result.stepsRun)
    (hrecorder : s'.bench.recorder = s.bench.recorder) :
    Recorded finished opened p errors ahead s' where
  phase := hphase.trans h.phase
  entries := by
    rw [hrecorder, hsteps]
    exact h.entries

/-! ## Entries -/

/-- An entry that is no section counts if it is an error or a step. -/
theorem leads_trace {level : TraceLevel} (message : String) (hlevel : level ≠ .section)
    {E : Error → CaseRun → Prop} :
    Leads (Recorded finished opened p errors ahead)
      (fun _ => Recorded finished opened p (errors + if level = .error then 1 else 0)
        (ahead + if level = .step then 1 else 0)) E (trace level message) := by
  refine leads_modify fun s hs => ⟨hs.phase, ?_⟩
  obtain ⟨es, hrecorder, hsections, herrors, hsteps⟩ := hs.entries
  refine ⟨es ++ [⟨level, message⟩], ?_, ?_, ?_, ?_⟩
  · show s.bench.recorder.add level message = _
    rw [hrecorder]
    rfl
  · rw [messages_concat, hsections, if_neg hlevel, List.append_nil]
  · rw [messages_concat, List.length_append, herrors]
    split <;> rfl
  · rw [messages_concat, List.length_append, hsteps, Nat.add_assoc]
    split <;> rfl

theorem leads_normal (message : String) {E : Error → CaseRun → Prop} :
    Leads (Recorded finished opened p errors ahead)
      (fun _ => Recorded finished opened p errors ahead) E (trace .normal message) :=
  leads_trace message (by decide)

/-- The phases follow each other under their names. -/
theorem leads_enter {next : Phase} {name : String}
    (hnext : sectionNames.take p.rank ++ [name] = sectionNames.take next.rank)
    {E : Error → CaseRun → Prop} :
    Leads (Recorded finished opened p errors ahead)
      (fun _ => Recorded finished opened next errors ahead) E (enter next name) := by
  refine fun s hs => ?_
  obtain ⟨s₁, hs₁, hexec⟩ : ∃ s₁ : CaseRun, s₁ = ⟨{ s.bench with
      recorder := s.bench.recorder.add .section name }, s.result.entered next⟩ ∧
      exec (enter next name) s = (.ok (), s₁) := ⟨_, rfl, rfl⟩
  rw [hexec]
  refine ⟨fun _ s' heq => ?_, fun _ _ heq => nomatch congrArg Prod.fst heq⟩
  obtain rfl : s₁ = s' := congrArg Prod.snd heq
  subst hs₁
  obtain ⟨es, hrecorder, hsections, herrors, hsteps⟩ := hs.entries
  have hother {level : TraceLevel} (h : level ≠ .section) :
      messages level (es ++ [⟨.section, name⟩]) = messages level es := by
    rw [messages_concat, if_neg h.symm, List.append_nil]
  refine ⟨rfl, es ++ [⟨.section, name⟩], ?_, ?_, ?_, ?_⟩
  · show s.bench.recorder.add .section name = _
    rw [hrecorder]
    rfl
  · rw [messages_concat, hsections, if_pos rfl, hnext]
  · rw [hother (by decide), herrors]
  · rw [hother (by decide), hsteps]
    rfl

/-! ## What makes no entry -/

/-- The phase, the number of steps that were carried out, and the recorder. -/
def noted (s : CaseRun) : Phase × ℕ × Recorder :=
  (s.result.phase, s.result.stepsRun, s.bench.recorder)

theorem leads_of_noted {α : Type} {m : Running α} (hm : Moves (Same noted) m) :
    Leads (Recorded finished opened p errors ahead)
      (fun _ => Recorded finished opened p errors ahead)
      (fun _ => Recorded finished opened p errors ahead) m := by
  refine leads_of_moves hm fun s s' hsame hs => ?_
  simp only [Same, noted, Prod.mk.injEq] at hsame
  exact hs.of_eq hsame.1 hsame.2.1 hsame.2.2

theorem noted_evaluate {α : Type} (f : Context → Except Error α × Context) :
    Moves (Same noted) (evaluate f) :=
  fun _ => rfl

theorem noted_execute (kind : StepKind) (fields : Value) :
    Moves (Same noted) (execute kind fields) := by
  intro s
  show noted (exec (execute kind fields) s).2 = noted s
  cases h : s.bench.executors.find? kind with
  | none => rw [exec_execute_of_none fields h]
  | some r => rw [exec_execute_of_some fields h]; rfl

/-! ## Phases -/

theorem leads_runActions (actions : List Action) :
    Leads (Recorded finished opened p errors ahead)
      (fun _ => Recorded finished opened p errors ahead)
      (fun _ => Recorded finished opened p errors ahead) (runActions actions) := by
  induction actions with
  | nil => exact leads_pure fun _ hs => hs
  | cons a rest ih =>
    exact (leads_of_noted (noted_evaluate _)).bind fun _ => (leads_normal _).bind fun _ => ih

theorem leads_bindGlobals (c : Case) {E : Error → CaseRun → Prop} :
    Leads (Recorded finished opened p errors ahead)
      (fun _ => Recorded finished opened p errors ahead) E (bindGlobals c) := by
  have hstore (f : Store → Store) : Leads (Recorded finished opened p errors ahead)
      (fun _ => Recorded finished opened p errors ahead) E (updateStore f) :=
    leads_modify fun s hs => hs.of_eq rfl rfl rfl
  refine (hstore _).bind fun _ => ?_
  split
  · exact leads_normal _
  · exact leads_pure fun _ hs => hs

/-- An error stops a step before it is counted, when it may have been noted already. -/
def StepStopped (finished : List CaseTrace) (opened : CaseTrace) (p : Phase) (s : CaseRun) : Prop :=
  ∃ ahead ≤ 1, Recorded finished opened p 0 ahead s

/-- A step of a kind that has an executor may be carried out. -/
structure Ready (finished : List CaseTrace) (opened : CaseTrace) (p : Phase) (kind : StepKind)
    (ahead : ℕ) (s : CaseRun) : Prop where
  recorded : Recorded finished opened p 0 ahead s
  contains : s.bench.executors.contains kind = true

section

variable {kind : StepKind}

theorem leads_ready {α : Type} {m : Running α} {after : ℕ}
    (h : Leads (Recorded finished opened p 0 ahead) (fun _ => Recorded finished opened p 0 after)
      (fun _ => StepStopped finished opened p) m) (hm : Moves (Same standing) m) :
    Leads (Ready finished opened p kind ahead) (fun _ => Ready finished opened p kind after)
      (fun _ => StepStopped finished opened p) m := by
  intro s hs
  obtain ⟨hvalue, herror⟩ := h s hs.recorded
  refine ⟨fun a s' hexec => ⟨hvalue a s' hexec, ?_⟩, herror⟩
  have hsame : s'.bench.executors.contains kind = s.bench.executors.contains kind :=
    congrFun (congrArg Prod.snd (standing_of_exec hm hexec)) kind
  exact hsame.trans hs.contains

theorem leads_evaluate_fields {α : Type} (f : Context → Except Error α × Context) :
    Leads (Ready finished opened p kind 0) (fun _ => Ready finished opened p kind 0)
      (fun _ => StepStopped finished opened p) (evaluate f) :=
  leads_ready ((leads_of_noted (noted_evaluate f)).mono (fun _ _ hs => hs) fun _ _ hs =>
    ⟨0, Nat.zero_le 1, hs⟩) (moves_evaluate f)

/-- A kind that has an executor gets an answer. -/
theorem leads_execute (fields : Value) :
    Leads (Ready finished opened p kind 1)
      (fun answer s => (∃ v, answer = some v) ∧ Recorded finished opened p 0 1 s)
      (fun _ => StepStopped finished opened p) (execute kind fields) := by
  intro s hs
  obtain ⟨hvalue, herror⟩ := leads_of_noted (noted_execute kind fields) s hs.recorded
  exact ⟨fun answer s' hexec => ⟨exists_of_exec_execute_ok hs.contains hexec,
    hvalue answer s' hexec⟩, fun e s' hexec => ⟨1, Nat.le_refl 1, herror e s' hexec⟩⟩

/-- A step is noted when its fields are known, and counted when it was carried out. -/
theorem leads_runStep (step : Step) :
    Leads (Recorded finished opened p 0 0) (fun _ => Recorded finished opened p 0 0)
      (fun _ => StepStopped finished opened p) (runStep step) := by
  refine leads_get.bind fun s => ?_
  split
  · refine ((leads_normal _).bind fun _ => ?_).of_imp fun _ hs => hs.1
    exact leads_modify fun s hs => hs.of_eq rfl rfl rfl
  · next hc =>
    have hready (t : CaseRun) (ht : Recorded finished opened p 0 0 t ∧ s = t) :
        Ready finished opened p step.kind 0 t := ⟨ht.1, by simpa [← ht.2] using hc⟩
    refine Leads.of_imp ?_ hready
    refine (leads_evaluate_fields _).bind fun fields => ?_
    refine (leads_ready (leads_trace _ (by decide)) (moves_trace _ _)).bind fun _ => ?_
    refine (leads_execute fields).bind fun answer => ?_
    cases answer with
    | none => exact fun s hs => nomatch hs.1
    | some v =>
      have hstore (f : Store → Store) : Leads
          (fun s => (∃ w, some v = some w) ∧ Recorded finished opened p 0 1 s)
          (fun _ => Recorded finished opened p 0 1) (fun _ => StepStopped finished opened p)
          (updateStore f) := leads_modify fun s hs => hs.2.of_eq rfl rfl rfl
      refine (hstore _).bind fun _ => leads_modify fun s hs => ⟨hs.phase, ?_⟩
      obtain ⟨es, hrecorder, hsections, herrors, hsteps⟩ := hs.entries
      exact ⟨es, hrecorder, hsections, herrors, hsteps⟩

theorem leads_runSteps (steps : List Step) :
    Leads (Recorded finished opened p 0 0) (fun _ => Recorded finished opened p 0 0)
      (fun _ => StepStopped finished opened p) (runSteps steps) := by
  induction steps with
  | nil => exact leads_pure fun _ hs => hs
  | cons step rest ih => exact (leads_runStep step).bind fun _ => ih

end

/-- The phases follow each other, and an error stops a case in the one that was entered last. -/
theorem leads_runFatalPhases (c : Case) :
    Leads (Recorded finished opened .start 0 0) (fun _ => Recorded finished opened .postCommand 0 0)
      (fun _ => StoppedIn finished opened) (runFatalPhases c) := by
  have hactions (p : Phase) (actions : List Action) :
      Leads (Recorded finished opened p 0 0) (fun _ => Recorded finished opened p 0 0)
        (fun _ => StoppedIn finished opened) (runActions actions) :=
    (leads_runActions actions).mono (fun _ _ hs => hs) fun _ _ hs => hs.stoppedIn
  have hsteps : Leads (Recorded finished opened .steps 0 0)
      (fun _ => Recorded finished opened .steps 0 0) (fun _ => StoppedIn finished opened)
      (runSteps c.steps) := by
    refine (leads_runSteps c.steps).mono (fun _ _ hs => hs) fun _ s hs => ?_
    obtain ⟨ahead, hle, hrecorded⟩ := hs
    rw [StoppedIn, hrecorded.phase]
    exact ⟨ahead, hrecorded, hle⟩
  exact (leads_enter rfl).bind fun _ => (leads_bindGlobals c).bind fun _ =>
    (hactions .preCommand c.preCommand).bind fun _ => (leads_enter rfl).bind fun _ =>
      hsteps.bind fun _ => (leads_enter rfl).bind fun _ => hactions .postCommand c.postCommand

/-! ## Verification -/

/-- What holds of a state for a result that is a value, or for one that is an error. -/
def Outcome {α : Type} (V : α → CaseRun → Prop) (E : Error → CaseRun → Prop) :
    Except Error α → CaseRun → Prop
  | .ok a => V a
  | .error e => E e

/-- The outcome of a computation is known whatever it is, and is no error itself. -/
theorem leads_outcome {α : Type} {I : CaseRun → Prop} {V : α → CaseRun → Prop}
    {E F : Error → CaseRun → Prop} {m : Running α} (h : Leads I V E m) :
    Leads I (Outcome V E) F m.outcome := by
  intro s hs
  rw [exec_outcome]
  refine ⟨fun result s' heq => ?_, fun _ _ heq => nomatch congrArg Prod.fst heq⟩
  obtain rfl : (exec m s).1 = result := Except.ok.inj (congrArg Prod.fst heq)
  obtain rfl : (exec m s).2 = s' := congrArg Prod.snd heq
  obtain ⟨hvalue, herror⟩ := h s hs
  rcases hexec : exec m s with ⟨e | a, s'⟩
  · exact herror e s' hexec
  · exact hvalue a s' hexec

/-- Each verify action that fails makes an error. -/
theorem leads_runVerify (actions : List Action) {E : Error → CaseRun → Prop} :
    Leads (Recorded finished opened p errors ahead)
      (fun outcomes => Recorded finished opened p
        (errors + (outcomes.filter fun o => !o.passed).length) ahead) E (runVerify actions) := by
  induction actions generalizing errors with
  | nil => exact leads_pure fun _ hs => hs
  | cons a rest ih =>
    have hanswer : Leads (Recorded finished opened p errors ahead)
        (fun _ => Recorded finished opened p errors ahead) E (runAction a).outcome := by
      refine (leads_outcome (leads_of_noted (noted_evaluate _))).mono (fun result s hs => ?_)
        fun _ _ hs => hs
      cases result <;> exact hs
    refine hanswer.bind fun answer => ?_
    dsimp only
    split
    · next hpassed =>
      refine (leads_normal _).bind fun _ => ih.bind fun outcomes => leads_pure fun s hs => ?_
      rwa [List.filter_cons_of_neg (by simpa using hpassed)]
    · next hfailed =>
      refine (leads_trace _ (by decide)).bind fun _ => ih.bind fun outcomes =>
        leads_pure fun s hs => ?_
      rw [List.filter_cons_of_pos (by simpa using hfailed), List.length_cons,
        Nat.add_comm _ 1, ← Nat.add_assoc]
      exact hs

/-! ## A case -/

/-- When a case has come to its end, its record tells of its result. -/
theorem leads_runPhases (c : Case) (module : String) :
    Leads (Recorded finished ⟨module, c.name, c.responsible, c.tester, []⟩ .start 0 0)
      (fun _ s => ∃ t, s.bench.recorder = ⟨finished, some t⟩ ∧ c.ToldBy module s.result t)
      (fun _ _ => False) (runPhases c) := by
  refine (leads_outcome (leads_runFatalPhases c)).bind fun result => ?_
  cases result with
  | ok _ =>
    refine (leads_enter rfl).bind fun _ => (leads_runVerify c.verify).bind fun verifies =>
      leads_modify fun s hs => ?_
    obtain ⟨es, hrecorder, hsections, herrors, hsteps⟩ := hs.entries
    refine ⟨_, hrecorder, rfl, rfl, rfl, rfl, hsections, ?_, ?_, ?_⟩
    · rw [if_neg (s.result.status_finish_ne_error verifies)]
      exact herrors.trans (Nat.zero_add _)
    · exact Nat.le_of_eq hsteps.symm
    · exact Nat.le_of_eq hsteps
  | error e =>
    refine leads_get.bind fun t => ?_
    rintro s ⟨⟨ahead, hrecorded, hle⟩, rfl⟩
    refine ((leads_trace _ (by decide)).bind fun _ => leads_modify fun s hs => ?_) t hrecorded
    obtain ⟨es, hrecorder, hsections, herrors, hsteps⟩ := hs.entries
    rw [← hs.phase] at hsections hle
    refine ⟨_, hrecorder, rfl, rfl, rfl, rfl, hsections, ?_, ?_, ?_⟩
    · exact herrors
    · exact Nat.le.intro hsteps.symm
    · exact Nat.le_trans (Nat.le_of_eq hsteps) (Nat.add_le_add_left hle _)

/-- A case that is run leaves one closed record more, which tells of its result. -/
theorem exists_record_run (c : Case) (module : String) (b : Bench) :
    ∃ t, (c.run module b).2.recorder = ⟨b.recorder.stop.finished ++ [t], none⟩ ∧
      c.ToldBy module (c.run module b).1 t := by
  have hopened : Recorded b.recorder.stop.finished
      ⟨module, c.name, c.responsible, c.tester, []⟩ .start 0 0 (c.opened module b) :=
    ⟨rfl, [], rfl, rfl, rfl, rfl⟩
  obtain ⟨hvalue, herror⟩ := leads_runPhases c module _ hopened
  have hrun : ∃ t, (exec (runPhases c) (c.opened module b)).2.bench.recorder =
      ⟨b.recorder.stop.finished, some t⟩ ∧
        c.ToldBy module (exec (runPhases c) (c.opened module b)).2.result t := by
    rcases hexec : exec (runPhases c) (c.opened module b) with ⟨e | _, s⟩
    · exact (herror e s hexec).elim
    · exact hvalue _ s hexec
  obtain ⟨t, hrecorder, htold⟩ := hrun
  refine ⟨t, ?_, htold⟩
  show (exec (runPhases c) (c.opened module b)).2.bench.recorder.stop = _
  rw [hrecorder]
  rfl

end

end Case

/-! ## Runs of cases -/

/-- There is one record for each case, in order, and it tells of the result of the case. -/
inductive Mirrors : List (Case × String) → List CaseResult → List CaseTrace → Prop where
  | nil : Mirrors [] [] []
  | cons {c : Case} {module : String} {r : CaseResult} {t : CaseTrace}
    {cases : List (Case × String)} {results : List CaseResult} {records : List CaseTrace}
    (first : c.ToldBy module r t) (rest : Mirrors cases results records) :
    Mirrors ((c, module) :: cases) (r :: results) (t :: records)

theorem Mirrors.append {cases more : List (Case × String)} {results moreResults : List CaseResult}
    {records moreRecords : List CaseTrace} (h : Mirrors cases results records)
    (hmore : Mirrors more moreResults moreRecords) :
    Mirrors (cases ++ more) (results ++ moreResults) (records ++ moreRecords) := by
  induction h with
  | nil => exact hmore
  | cons first _ ih => exact .cons first ih

namespace Runner

/-- Cases that are run add their records to those that are closed. -/
theorem exists_records_runCases {b : Bench} {closed : List CaseTrace}
    (h : b.recorder = ⟨closed, none⟩) (module : String) (cases : List Case) :
    ∃ records, ((ofBench b).runCases module cases).2.bench.recorder = ⟨closed ++ records, none⟩ ∧
      Mirrors (cases.map fun c => (c, module)) ((ofBench b).runCases module cases).1 records := by
  induction cases generalizing b closed with
  | nil => exact ⟨[], by rw [List.append_nil]; exact h, .nil⟩
  | cons c rest ih =>
    obtain ⟨t, hrecorder, htold⟩ := c.exists_record_run module b
    rw [h] at hrecorder
    obtain ⟨records, hrecords, hrest⟩ := ih hrecorder
    refine ⟨t :: records, hrecords.trans ?_, .cons htold hrest⟩
    simp [Recorder.stop]

theorem exists_records_testsetResults {b : Bench} {closed : List CaseTrace}
    (h : b.recorder = ⟨closed, none⟩) (testsets : List TestSet) :
    ∃ records, ((ofBench b).testsetResults testsets).2.bench.recorder = ⟨closed ++ records, none⟩ ∧
      Mirrors (casesOf testsets) ((ofBench b).testsetResults testsets).1 records := by
  induction testsets generalizing b closed with
  | nil => exact ⟨[], by rw [List.append_nil]; exact h, .nil⟩
  | cons t rest ih =>
    obtain ⟨records, hrecords, hfirst⟩ := exists_records_runCases h t.project.module t.cases
    obtain ⟨more, hmore, hrest⟩ := ih hrecords
    rw [← runCases_snd] at hmore hrest
    rw [List.append_assoc] at hmore
    exact ⟨records ++ more, hmore, hfirst.append hrest⟩

end Runner

end Casebook
