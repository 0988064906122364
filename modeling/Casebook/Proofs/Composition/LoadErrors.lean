import Casebook.Composition.Loading
import Casebook.Proofs.Composition.ReadingErrors
import Casebook.Proofs.Composition.Soundness

/-!
# Errors of loading

Whatever is read, parsed, bound, merged, expanded or validated on the way from files to testsets, an
error of it is an error of loading, so it stops a run before any case of it is run. An error comes of
what is read, or a suite is found inside of itself where suites are expanded.

`OnlyLoadErrors` says this of a result, and `FailsOnlyToLoad` says it of a computation that composes,
from any composer.
-/

namespace Casebook

open Casebook.Computation

/-! ## Results that fail with errors of loading only -/

/-- A result is a value or an error of loading. -/
def OnlyLoadErrors {α : Type} (result : Except Error α) : Prop :=
  ∀ e, result = .error e → e.isLoadError = true

theorem FailsOnly.onlyLoadErrors {α : Type} {x : Except Error α} (hx : OnlyReadingErrors x) :
    OnlyLoadErrors x :=
  hx.mono Error.isLoadError_of_isReadingError

theorem Document.onlyLoadErrors_parse (path : String) (limit : Nat) (v : Value) :
    OnlyLoadErrors (Document.parse path limit v) :=
  (Document.onlyReadingErrors_parse path limit v).onlyLoadErrors

namespace Source

variable (files : Files) (limit : Nat) (path : String)

theorem onlyLoadErrors_readDocument : OnlyLoadErrors (readDocument files limit path) :=
  (onlyReadingErrors_readDocument files limit path).onlyLoadErrors

theorem onlyLoadErrors_readApis : OnlyLoadErrors (readApis files limit path) :=
  (onlyReadingErrors_readApis files limit path).onlyLoadErrors

theorem onlyLoadErrors_readSuite : OnlyLoadErrors (readSuite files limit path) :=
  (onlyReadingErrors_readSuite files limit path).onlyLoadErrors

end Source

theorem Case.onlyLoadErrors_validate (cases : List Case) : OnlyLoadErrors (Case.validate cases) :=
  (Case.onlyReadingErrors_validate cases).onlyLoadErrors

/-! ## Composing -/

/-- From any composer, a computation that composes gives a value or an error of loading. -/
abbrev FailsOnlyToLoad {α : Type} (m : Composing α) : Prop :=
  ComposingFailsOnly Error.isLoadError m

namespace Composer

variable (files : Files)

theorem failsOnlyToLoad_library (kind : FragmentKind) : FailsOnlyToLoad (library files kind) :=
  (composingFailsOnly_library files kind).mono Error.isLoadError_of_isReadingError

theorem failsOnlyToLoad_fragment (kind : FragmentKind) (name : String) :
    FailsOnlyToLoad (fragment files kind name) :=
  (composingFailsOnly_fragment files kind name).mono Error.isLoadError_of_isReadingError

theorem failsOnlyToLoad_mergeApi (base : Case) (r : Reference) :
    FailsOnlyToLoad (mergeApi files base r) :=
  (composingFailsOnly_mergeApi files base r).mono Error.isLoadError_of_isReadingError

theorem failsOnlyToLoad_expandEntries {suite : Reference → Composing (List Case)}
    (hsuite : ∀ r, FailsOnlyToLoad (suite r)) (entries : List Entry) :
    FailsOnlyToLoad (expandEntries files suite entries) := by
  induction entries with
  | nil => exact composingFailsOnly_pure []
  | cons entry rest ih =>
    refine ComposingFailsOnly.bind ?_ fun cases =>
      ih.bind fun more => composingFailsOnly_pure (cases ++ more)
    cases entry with
    | case c => exact composingFailsOnly_pure [c]
    | api base r =>
      exact (failsOnlyToLoad_mergeApi files base r).bind fun c => composingFailsOnly_pure [c]
    | suite r => exact hsuite r

theorem failsOnlyToLoad_expandFresh {suite : Reference → Composing (List Case)}
    (hsuite : ∀ r, FailsOnlyToLoad (suite r)) (f : Fragment) (body : Value) :
    FailsOnlyToLoad (expandFresh files suite f body) :=
  composingFailsOnly_composer.bind fun _ =>
    (composingFailsOnly_lift (Document.onlyLoadErrors_parse f.path _ body)).bind fun d =>
      failsOnlyToLoad_expandEntries files hsuite d.entries

section Suite

open Composition

variable {room : Nat} {stack : List String} {r : Reference}

theorem failsOnlyToLoad_expandSuite_of_uncached
    (h : ∀ f body, FailsOnlyToLoad (expandUncached files room stack r f body)) :
    FailsOnlyToLoad (expandSuite files room stack r) := by
  rw [expandSuite_eq]
  refine (composingFailsOnly_modify _).bind fun _ => ?_
  split
  · exact composingFailsOnly_throw rfl
  refine (failsOnlyToLoad_fragment files .suite r.name).bind fun f => ?_
  refine (composingFailsOnly_lift (f.onlyReadingErrors_instantiate r).onlyLoadErrors).bind fun body => ?_
  refine composingFailsOnly_composer.bind fun c => ?_
  split
  · exact composingFailsOnly_pure _
  · exact h f body

variable (room stack r)

/-- The induction is on the room, which is one less inside a suite. -/
theorem failsOnlyToLoad_expandUncached (f : Fragment) (body : Value) :
    FailsOnlyToLoad (expandUncached files room stack r f body) := by
  induction room generalizing stack r f body with
  | zero => exact composingFailsOnly_throw rfl
  | succ room ih =>
    have hsuite r' := failsOnlyToLoad_expandSuite_of_uncached files (ih (stack ++ [r.name]) r')
    exact ((failsOnlyToLoad_expandFresh files hsuite f body).within _).bind fun cases =>
      (composingFailsOnly_modify _).bind fun _ => composingFailsOnly_pure cases

theorem failsOnlyToLoad_expand : FailsOnlyToLoad (expand files r) :=
  (failsOnlyToLoad_library files .suite).bind fun _ =>
    failsOnlyToLoad_expandSuite_of_uncached files (failsOnlyToLoad_expandUncached files _ [] r)

end Suite

end Composer

theorem Composer.onlyLoadErrors_compose (c : Composer) (files : Files) (d : Document) :
    OnlyLoadErrors (c.compose files d).1 := by
  have hcomposing : FailsOnlyToLoad (composing files d) :=
    (failsOnlyToLoad_expandEntries files (failsOnlyToLoad_expand files) d.entries).bind fun cases =>
      (composingFailsOnly_lift (Case.onlyLoadErrors_validate cases)).bind fun _ =>
        composingFailsOnly_pure _
  exact hcomposing ⟨c, []⟩

/-! ## Testsets -/

namespace TestSet

variable (files : Files) (layout : Layout)

theorem onlyLoadErrors_load (path : String) : OnlyLoadErrors (load files layout path) :=
  FailsOnly.bind (Source.onlyLoadErrors_readDocument files layout.depth path) fun d =>
    Composer.onlyLoadErrors_compose _ files d

theorem onlyLoadErrors_loadAll (paths : List String) :
    OnlyLoadErrors (loadAll files layout paths) := by
  refine (failsOnly_foldlM (fun l path => ?_) _ paths).bind fun l =>
    FailsOnly.bind (Case.onlyLoadErrors_validate _) fun _ => failsOnly_ok _
  refine FailsOnly.bind (Source.onlyReadingErrors_testsetsAt files layout path).onlyLoadErrors
    (failsOnly_foldlM (fun l path => ?_) l)
  refine FailsOnly.bind (Source.onlyLoadErrors_readDocument files layout.depth path) fun d => ?_
  exact FailsOnly.bind (Composer.onlyLoadErrors_compose (l.composer layout _) files d) fun t =>
    failsOnly_ok _

end TestSet

/-- Loading fails with errors of loading only: reading paths as one run, a testset, a document, api
fragments or a suite, composing a document with a composer that was used in any way before, and
validating cases. -/
theorem onlyLoadErrors_of_loading (files : Files) :
    (∀ layout paths, OnlyLoadErrors (TestSet.loadAll files layout paths)) ∧
      (∀ layout path, OnlyLoadErrors (TestSet.load files layout path)) ∧
      (∀ path limit v, OnlyLoadErrors (Document.parse path limit v)) ∧
      (∀ limit path, OnlyLoadErrors (Source.readApis files limit path)) ∧
      (∀ limit path, OnlyLoadErrors (Source.readSuite files limit path)) ∧
      (∀ (c : Composer) d, OnlyLoadErrors (c.compose files d).1) ∧
      ∀ cases, OnlyLoadErrors (Case.validate cases) :=
  ⟨TestSet.onlyLoadErrors_loadAll files, TestSet.onlyLoadErrors_load files,
    Document.onlyLoadErrors_parse, Source.onlyLoadErrors_readApis files,
    Source.onlyLoadErrors_readSuite files, fun c => c.onlyLoadErrors_compose files,
    Case.onlyLoadErrors_validate⟩

/-- An action without a closing parenthesis makes a document malformed. -/
example :
    (Document.parse "t.yaml" 32 (.array [.object [("case", .object [("id", .string "A"),
      ("desc", .string "d"), ("verify", .array [.string "Equal(1"])])]])).map (fun _ => ()) =
        .error (.malformed "t.yaml case 'A'"
          "Template syntax error in 'Equal(1': expected ',' or ')' at column 8") := by
  decide +kernel

end Casebook
