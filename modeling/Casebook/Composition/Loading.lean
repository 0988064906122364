import Casebook.Composition.Composer

/-!
# Loading testsets

A run is loaded from paths of documents and folders. Testsets that share a dependency area share a
composer, and the cases of all testsets together make a valid run.
-/

namespace Casebook.TestSet

/-- Load one testset. -/
def load (files : Files) (layout : Layout) (path : String) : Except Error TestSet := do
  let d ← Source.readDocument files layout.depth path
  ((Composer.ofTestset files layout path).compose files d).1

/-- The testsets loaded so far, and a composer for each dependency area they lie next to. -/
structure Loading where
  composers : List (List (List Char) × Composer)
  testsets : List TestSet

namespace Loading

/-- The composer for a dependency area. -/
def composer (l : Loading) (layout : Layout) (area : String) : Composer :=
  ((l.composers.find? fun entry => entry.1 = Path.components area).map Prod.snd).getD
    (Composer.ofArea area layout)

/-- Load the testset at a path. -/
def add (files : Files) (layout : Layout) (l : Loading) (path : String) :
    Except Error Loading := do
  let area := layout.area files path
  let d ← Source.readDocument files layout.depth path
  let (result, c) := (l.composer layout area).compose files d
  return {
    composers := (Path.components area, c) :: l.composers
    testsets := l.testsets ++ [← result] }

/-- Load the testsets that a path names. -/
def addAll (files : Files) (layout : Layout) (l : Loading) (path : String) :
    Except Error Loading := do
  (← Source.testsetsAt files layout path).foldlM (add files layout) l

end Loading

/-- Load the testsets that paths name, in order, as one run. -/
def loadAll (files : Files) (layout : Layout) (paths : List String) :
    Except Error (List TestSet) := do
  let l ← paths.foldlM (Loading.addAll files layout) ⟨[], []⟩
  Case.validate (l.testsets.flatMap TestSet.cases)
  return l.testsets

end Casebook.TestSet
