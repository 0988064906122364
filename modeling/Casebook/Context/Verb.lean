import Casebook.Context.Arguments
import Casebook.Context.Store

/-!
# Verbs

A verb is what a template calls: a signature and what it does with its bound arguments. Most
verbs work on the store directly. Some first read a variable as a template would, deferred
texts evaluated; they name it by their first argument and are handed the outcome, be it a value
or an error.
-/

namespace Casebook

/-- What a verb does. -/
inductive VerbBody where
  | direct (run : Arguments → StoreAction Value)
  | onVariable (run : Arguments → Except Error Value → StoreAction Value)

/-- A verb. -/
structure Verb where
  signature : Signature
  body : VerbBody

/-- Verbs by name. -/
abbrev Registry := Dict Verb

namespace Registry

/-- The names of the verbs with their signatures, in order of the names. -/
def signatures (verbs : Registry) : List (String × Signature) :=
  verbs.map fun entry => (entry.1, entry.2.signature)

end Registry

end Casebook
