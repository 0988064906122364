import Casebook.Pattern.Machine
import Casebook.Pattern.Parser
import Casebook.Pattern.Size

/-!
# Patterns

A pattern is a regular expression with the text it was read from. It is searched for in the
text of a step result, and what its groups matched is bound to a variable.
-/

namespace Casebook

/-- A pattern that was accepted. -/
structure Pattern where
  source : String
  regex : Pattern.Regex
  /-- The number of groups, the whole match apart. -/
  groups : Nat

namespace Pattern

/-- Read a pattern; none if the text is no pattern or its automata grow too large. -/
def ofSource? (source : String) : Option Pattern := do
  let (regex, groups) ← parse? source
  if regex.fits then some { source, regex, groups } else none

/-- What the groups of a pattern match in the first match from the left: the whole match, then each
group in order, none for one that took no part. -/
def captures (p : Pattern) (text : String) : Option (List (Option String)) :=
  firstMatch p.regex p.groups text.toList

end Pattern

end Casebook
