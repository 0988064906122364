import Casebook.Context.Verb
import Casebook.Template.Parser

/-!
# Evaluation of templates

A template that is nothing but one placeholder has the value of the placeholder; any other
template is text, with the renderings of its placeholders in it. The arguments of a call are
evaluated from left to right before the verb runs, so the innermost call runs first.

Reading a deferred variable and calling a verb each open a level, which is closed again whatever
comes of it, and at most `limit` levels may be open. The levels are built one over the other:
`Level.above` says what a level does in terms of the level below it, and the lowest level can open
no other. A deferred variable that is being expanded may not be read again.

A verb may read a variable afresh, with all levels to itself. Such readings are stacked in the
same way, as deep as there are deferred variables: deeper they could only be in a circle.
-/

namespace Casebook

/-- What evaluation did, besides changing the store. -/
inductive Event where
  /-- A level was opened; so many are open now, and these variables are being expanded. -/
  | opened (depth : Nat) (expanding : List String)
  /-- The level that was opened last was closed. -/
  | closed
  /-- A verb was run with these arguments. -/
  | invoked (verb : String) (args : Arguments)

/-- The store during an evaluation, and what the evaluation did so far, the latest first. -/
structure Session where
  store : Store
  journal : List Event

/-- An evaluation; what it did before an error stays done. -/
abbrev Evaluation (α : Type) := ExceptT Error (StateM Session) α

namespace Evaluation

variable {α : Type}

/-- Work on the store. -/
def onStore (action : StoreAction α) : Evaluation α :=
  ExceptT.mk fun session =>
    let (result, store) := action.run.run session.store
    (result, { session with store })

/-- A result that is there already. -/
def lift (result : Except Error α) : Evaluation α :=
  ExceptT.mk (pure result)

/-- Note what was done. -/
def note (e : Event) : Evaluation Unit :=
  modify fun session => { session with journal := e :: session.journal }

/-- The outcome of an evaluation, be it a value or an error. -/
def outcome (e : Evaluation α) : Evaluation (Except Error α) :=
  ExceptT.mk fun session =>
    let (result, session) := e.run.run session
    (.ok result, session)

end Evaluation

/-- What evaluation goes by: the verbs, and how many levels may be open. -/
structure Rules where
  verbs : Registry
  limit : Nat

namespace Rules

/-- Run a verb with arguments that were evaluated already. -/
def invoke (rules : Rules) (fresh : String → Evaluation Value) (name : String) (args : Arguments) :
    Evaluation Value := do
  match rules.verbs.get? name with
  | none => throw (.unknownFunction name)
  | some verb =>
    let args ← Evaluation.lift (verb.signature.bind name args)
    Evaluation.note (.invoked name args)
    match verb.body with
    | .direct run => Evaluation.onStore (run args)
    | .onVariable run =>
      let found ← (fresh (args.text 0)).outcome
      Evaluation.onStore (run args found)

end Rules

/-- What can be evaluated at a level, while some variables are being expanded. -/
structure Level where
  /-- Evaluate a template. -/
  template : List String → List Segment → Evaluation Value
  /-- Evaluate the texts of a value. -/
  value : List String → Value → Evaluation Value

namespace Level

section Over

variable (rules : Rules) (fresh : String → Evaluation Value) (depth : Nat)
  (below : Option (Unit → Level))

/-- Open the level below, work there, and close it however the work ended. -/
def descend {α : Type} (expanding : List String) (work : Level → Evaluation α) :
    Evaluation α := do
  match below with
  | none => throw (.recursionLimit rules.limit)
  | some level =>
    Evaluation.note (.opened (depth + 1) expanding)
    let result ← (work (level ())).outcome
    Evaluation.note .closed
    Evaluation.lift result

/-- The value of a variable; a deferred one is expanded a level below. -/
def variableOver (expanding : List String) (name : String) : Evaluation Value := do
  match (← get).store.find? name with
  | none => throw (.unresolvedVariable name)
  | some binding =>
    if !binding.deferred then return binding.value
    if name ∈ expanding then
      throw (.cyclicVariable (Text.join " -> " (expanding ++ [name])))
    descend rules depth below (expanding ++ [name]) fun level =>
      level.value (expanding ++ [name]) binding.value

/-- The values of arguments, on top of those already evaluated. -/
def argumentsAt (level : Level) (expanding : List String) :
    List Argument → Arguments → Evaluation Arguments
  | [], done => return done
  | a :: rest, done => do
    let v ←
      match a with
      | .literal _ v _ => pure v
      | .quoted _ _ body _ => do
        let v ← level.template expanding body
        pure (Value.string v.render)
      | .expr _ body _ => level.template expanding body
    argumentsAt level expanding rest (done.add a.key v)

/-- The result of a call. The verb must be known before its arguments are looked at; they are
evaluated a level below. -/
def callOver (expanding : List String) (c : Call) : Evaluation Value := do
  if !rules.verbs.contains c.name then throw (.unknownFunction c.name)
  descend rules depth below expanding fun level => do
    let args ← argumentsAt level expanding c.args Arguments.none
    rules.invoke fresh c.name args

/-- The value of a piece of a template. -/
def segmentOver (expanding : List String) : Segment → Evaluation Value
  | .text s => return .string s
  | .var name => variableOver rules depth below expanding name
  | .call c => callOver rules fresh depth below expanding c

/-- The text of pieces, from left to right. -/
def textOver (expanding : List String) : List Segment → Evaluation String
  | [] => return ""
  | s :: rest => do
    let v ← segmentOver rules fresh depth below expanding s
    let more ← textOver expanding rest
    return v.render ++ more

/-- The value of a template. -/
def templateOver (expanding : List String) (segments : List Segment) : Evaluation Value := do
  match (Template.mk segments).solePlaceholder? with
  | some s => segmentOver rules fresh depth below expanding s
  | none => return .string (← textOver rules fresh depth below expanding segments)

/-- The value of a text that may hold placeholders. -/
def stringOver (expanding : List String) (text : String) : Evaluation Value := do
  if text.contains '$' then
    let t ← Evaluation.lift (Template.parse rules.limit text)
    templateOver rules fresh depth below expanding t.segments
  else return .string text

/-- The value with its texts and keys evaluated. -/
def valueOver (expanding : List String) (v : Value) : Evaluation Value :=
  v.mapTexts (stringOver rules fresh depth below expanding) fun key => do
    return (← stringOver rules fresh depth below expanding key).render

/-- A level over the one below it. -/
def above : Level where
  template := templateOver rules fresh depth below
  value := valueOver rules fresh depth below

end Over

/-- The level with so many levels below it, where so many are open. -/
def tower (rules : Rules) (fresh : String → Evaluation Value) : (room depth : Nat) → Level
  | 0, depth => above rules fresh depth none
  | room + 1, depth => above rules fresh depth (some fun _ => tower rules fresh room (depth + 1))

end Level

namespace Rules

/-- Read a variable afresh, where so many fresh readings may be stacked on this one. -/
def fresh (rules : Rules) : Nat → String → Evaluation Value
  | 0, name =>
    let unread (other : String) : Evaluation Value := throw (.unresolvedVariable other)
    (Level.above rules unread 0 none).template [] [.var name]
  | n + 1, name => (Level.tower rules (rules.fresh n) rules.limit 0).template [] [.var name]

/-- The highest level, with no level open. -/
def top (rules : Rules) (readings : Nat) : Level :=
  Level.tower rules (rules.fresh readings) rules.limit 0

end Rules

/-! ## Contexts -/

/-- A store with the verbs that work on it and the limit that evaluation keeps. -/
structure Context where
  store : Store
  verbs : Registry
  limit : Nat

namespace Context

variable {α : Type}

/-- The limit of levels if nothing else is said. -/
def defaultLimit : Nat := 32

/-- A context without variables. -/
def ofVerbs (verbs : Registry) (clock : Nat) : Context :=
  ⟨Store.empty clock, verbs, defaultLimit⟩

/-- Set the limit of levels, which is at least one. -/
def setLimit (c : Context) (limit : Nat) : Context :=
  { c with limit := max limit 1 }

/-- What evaluation in a context goes by. -/
def rules (c : Context) : Rules :=
  ⟨c.verbs, c.limit⟩

/-- Register a verb, replacing the one that had its name. -/
def register (c : Context) (name : String) (verb : Verb) : Context :=
  { c with verbs := c.verbs.insert name verb }

/-- Whether a verb is known. -/
def hasFunction (c : Context) (name : String) : Bool :=
  c.verbs.contains name

/-- How many fresh readings may be stacked in a context. -/
def readings (c : Context) : Nat :=
  c.store.deferredNames.length

/-- The highest level of a context. -/
def level (c : Context) : Level :=
  c.rules.top c.readings

/-- Run an evaluation in a context. -/
def run (c : Context) (e : Evaluation α) : Except Error α × Context :=
  let (result, session) := e.run.run ⟨c.store, []⟩
  (result, { c with store := session.store })

/-- The value with its texts and keys evaluated. -/
def resolveValue (c : Context) (v : Value) : Except Error Value × Context :=
  c.run (c.level.value [] v)

/-- The value of a text that may hold placeholders. -/
def resolveString (c : Context) (text : String) : Except Error Value × Context :=
  c.resolveValue (.string text)

/-- The value of a variable as a template reads it. -/
def readVariable (c : Context) (name : String) : Except Error Value × Context :=
  c.run (c.level.template [] [.var name])

/-- The result of a call whose arguments are yet to be evaluated. -/
def evaluateCall (c : Context) (call : Call) : Except Error Value × Context :=
  c.run (c.level.template [] [.call call])

/-- The result of a verb with arguments that were evaluated already. -/
def call (c : Context) (name : String) (args : Arguments) : Except Error Value × Context :=
  c.run (c.rules.invoke (c.rules.fresh c.readings) name args)

/-- The values one after another, each evaluated in the store that the ones before it left, be it
with an error. -/
def resolveAll (c : Context) : List Value → List (Except Error Value) × Context
  | [] => ([], c)
  | v :: rest =>
    let (result, c) := c.resolveValue v
    let (results, c) := c.resolveAll rest
    (result :: results, c)

end Context

end Casebook
