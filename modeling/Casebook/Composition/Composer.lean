import Casebook.Composition.Validation
import Casebook.Definition.Source

/-!
# Composition

A document is composed into a list of cases: an api fragment lays its execution fields over the case
that refers to it, and a suite stands for the cases its document expands to, suites in it included.

A composer serves one dependency area. It reads the fragments of a kind when the first reference of
that kind is met and keeps them, and it keeps the expansion of each suite under the key of the
reference. A suite may not be referred to while it is being expanded, so at most as many are being
expanded as there are suites, and `expandSuite` descends that far.
-/

namespace Casebook

/-- Fragments of one kind by name. -/
abbrev Library := Dict Fragment

namespace Library

/-- Add a fragment under a name that is still free. -/
def add (kind : FragmentKind) (l : Library) (f : Fragment) : Except Error Library :=
  match l.get? f.head.name with
  | some first => .error (.duplicateDefinition kind.name f.head.name first.path f.path)
  | none => .ok (l.insert f.head.name f)

/-- Add the fragments of the document at a path. -/
def addDocument (files : Files) (kind : FragmentKind) (limit : Nat) (l : Library)
    (path : String) : Except Error Library := do
  (← Source.readFragments files kind limit path).foldlM (add kind) l

/-- The fragments beneath a folder. -/
def read (files : Files) (kind : FragmentKind) (limit : Nat) (folder : String) :
    Except Error Library := do
  (← Source.definitionsIn files folder).foldlM (addDocument files kind limit) []

end Library

/-- What is known about a dependency area. -/
structure Composer where
  area : String
  layout : Layout
  /-- The api fragments, once they were asked for. -/
  apis : Option Library
  /-- The suites, once they were asked for. -/
  suites : Option Library
  /-- The expansions of suites by the keys of references. -/
  expanded : Dict (List Case)

/-- A step in the expansion of suites. -/
inductive SuiteEvent where
  /-- A reference to a suite was met. -/
  | met (r : Reference)
  /-- A suite was begun; these are being expanded now, outermost first. -/
  | begun (stack : List String)
  /-- The suite that was begun last came to its end, be it an error. -/
  | ended

/-- A composer at work, and what it did with suites so far, the latest first. -/
structure Composition where
  composer : Composer
  journal : List SuiteEvent

/-- A computation that composes; what was read and expanded before an error is kept. -/
abbrev Composing (α : Type) := ExceptT Error (StateM Composition) α

namespace Composing

/-- A result that is there already. -/
def lift {α : Type} (result : Except Error α) : Composing α :=
  ExceptT.mk (pure result)

/-- The composer as it is now. -/
def composer : Composing Composer :=
  return (← get).composer

/-- Change the composer. -/
def update (f : Composer → Composer) : Composing Unit :=
  modify fun s => { s with composer := f s.composer }

/-- Note a step in the expansion of suites. -/
def note (e : SuiteEvent) : Composing Unit :=
  modify fun s => { s with journal := e :: s.journal }

/-- The outcome of composing, be it a value or an error. -/
def outcome {α : Type} (action : Composing α) : Composing (Except Error α) :=
  ExceptT.mk fun s =>
    let (result, s) := action.run.run s
    (.ok result, s)

/-- Expand the innermost of these suites. -/
def within {α : Type} (stack : List String) (action : Composing α) : Composing α := do
  note (.begun stack)
  let result ← action.outcome
  note .ended
  lift result

end Composing

namespace Composer

/-- A composer for a dependency area that was not read yet. -/
def ofArea (area : String) (layout : Layout) : Composer :=
  { area, layout, apis := none, suites := none, expanded := [] }

/-- A composer for the dependency area of a testset. -/
def ofTestset (files : Files) (layout : Layout) (path : String) : Composer :=
  ofArea (layout.area files path) layout

/-- The fragments of a kind, if they were read. -/
def library? (c : Composer) : FragmentKind → Option Library
  | .api => c.apis
  | .suite => c.suites

/-- Keep the fragments of a kind. -/
def keep (c : Composer) (kind : FragmentKind) (l : Library) : Composer :=
  match kind with
  | .api => { c with apis := some l }
  | .suite => { c with suites := some l }

/-- The folder of a kind of fragments. -/
def folder (c : Composer) (kind : FragmentKind) : String :=
  c.layout.folder kind c.area

section

variable (files : Files)

/-- The fragments of a kind, read now if they were not before. -/
def library (kind : FragmentKind) : Composing Library := do
  let c ← Composing.composer
  match c.library? kind with
  | some l => return l
  | none =>
    let l ← Composing.lift (Library.read files kind c.layout.depth (c.folder kind))
    Composing.update fun c => c.keep kind l
    return l

/-- The fragment of a name. -/
def fragment (kind : FragmentKind) (name : String) : Composing Fragment := do
  match (← library files kind).get? name with
  | some f => return f
  | none => throw (.unresolved kind.name name [(← Composing.composer).folder kind])

/-- Lay the execution fields of an api fragment over a case. -/
def mergeApi (base : Case) (r : Reference) : Composing Case := do
  let f ← fragment files .api r.name
  let body ← Composing.lift (f.instantiate r)
  let limit := (← Composing.composer).layout.depth
  let fields ← Composing.lift
    (ExecutionFields.ofApiBody s!"{f.path} api '{f.head.name}'" limit body)
  return fields.overlay base

/-- The cases of an entry. -/
def expandEntry (suite : Reference → Composing (List Case)) : Entry → Composing (List Case)
  | .case c => return [c]
  | .api base r => return [← mergeApi files base r]
  | .suite r => suite r

/-- The cases of entries, in order. -/
def expandEntries (suite : Reference → Composing (List Case)) :
    List Entry → Composing (List Case)
  | [] => return []
  | e :: rest => do
    let cases ← expandEntry files suite e
    return cases ++ (← expandEntries suite rest)

/-- The suites that a reference would be inside of itself with. -/
def chain (stack : List String) (r : Reference) : Error :=
  .circularReference (Text.join " -> " (stack ++ [r.name]))

/-- The cases of the suite that a reference names, read from its document. -/
def expandFresh (suite : Reference → Composing (List Case)) (f : Fragment) (body : Value) :
    Composing (List Case) := do
  let limit := (← Composing.composer).layout.depth
  let document ← Composing.lift (Document.parse f.path limit body)
  expandEntries files suite document.entries

/-- The cases of a suite inside those that are being expanded, outermost first, where so many more
may be. -/
def expandSuite : Nat → List String → Reference → Composing (List Case)
  | room, stack, r => do
    Composing.note (.met r)
    if r.name ∈ stack then throw (chain stack r)
    let f ← fragment files .suite r.name
    let body ← Composing.lift (f.instantiate r)
    match (← Composing.composer).expanded.get? r.key with
    | some cases => return cases
    | none =>
      match room with
      | 0 => throw (chain stack r)
      | room + 1 =>
        let inner := stack ++ [r.name]
        let cases ← Composing.within inner (expandFresh files (expandSuite room inner) f body)
        Composing.update fun c => { c with expanded := c.expanded.insert r.key cases }
        return cases

/-- The cases of a suite. -/
def expand (r : Reference) : Composing (List Case) := do
  let room := (← library files .suite).length
  expandSuite files room [] r

/-- The testset that a document is composed into. -/
def composing (d : Document) : Composing TestSet := do
  let cases ← expandEntries files (expand files) d.entries
  Composing.lift (Case.validate cases)
  return { path := d.path, project := d.project, cases }

end

/-- Compose, and keep what was read and expanded. -/
def run {α : Type} (c : Composer) (action : Composing α) : Except Error α × Composer :=
  let (result, s) := action.run.run ⟨c, []⟩
  (result, s.composer)

/-- Compose a document. -/
def compose (c : Composer) (files : Files) (d : Document) : Except Error TestSet × Composer :=
  c.run (composing files d)

end Composer

end Casebook
