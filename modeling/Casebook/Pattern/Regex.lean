import Casebook.Unicode.CharSet

/-!
# Regular expressions

The tree of a pattern: sets of characters, conditions on a position, groups, and ways to put
them together. Of two alternatives the first is preferred, and a repetition prefers more rounds
unless it is lazy. Trees are put together by functions that leave out what makes no difference.
-/

namespace Casebook.Pattern

open Unicode

/-- A condition on the characters before and after a position. -/
inductive Condition where
  | textStart
  | textEnd
  | lineStart
  | lineEnd
  | lineStartCrlf
  | lineEndCrlf
  | wordBoundary (word : CharSet)
  | notWordBoundary (word : CharSet)
  | wordStart (word : CharSet)
  | wordEnd (word : CharSet)
  | wordStartHalf (word : CharSet)
  | wordEndHalf (word : CharSet)

namespace Condition

/-- Whether a condition holds between two characters; none is the outside of the text. -/
def holds : Condition → Option Char → Option Char → Bool
  | textStart, before, _ => before.isNone
  | textEnd, _, after => after.isNone
  | lineStart, before, _ => before.isNone || before == some '\n'
  | lineEnd, _, after => after.isNone || after == some '\n'
  | lineStartCrlf, before, after =>
    before.isNone || before == some '\n' || (before == some '\r' && after != some '\n')
  | lineEndCrlf, before, after =>
    after.isNone || after == some '\r' || (after == some '\n' && before != some '\r')
  | wordBoundary word, before, after => before.any word.contains != after.any word.contains
  | notWordBoundary word, before, after => before.any word.contains == after.any word.contains
  | wordStart word, before, after => !before.any word.contains && after.any word.contains
  | wordEnd word, before, after => before.any word.contains && !after.any word.contains
  | wordStartHalf word, before, _ => !before.any word.contains
  | wordEndHalf word, _, after => !after.any word.contains

end Condition

/-- A regular expression. -/
inductive Regex where
  | empty
  | set (members : CharSet)
  | condition (c : Condition)
  | group (index : Nat) (body : Regex)
  | seq (first second : Regex)
  | alt (first second : Regex)
  | repeated (min : Nat) (max : Option Nat) (greedy : Bool) (body : Regex)

namespace Regex

/-- Whether an expression can match the empty text. -/
def nullable : Regex → Bool
  | empty => true
  | set _ => false
  | condition _ => true
  | group _ body => body.nullable
  | seq first second => first.nullable && second.nullable
  | alt first second => first.nullable || second.nullable
  | repeated min _ _ body => min = 0 || body.nullable

/-- Whether an expression matches nothing but the empty text. -/
def neverConsumes : Regex → Bool
  | empty => true
  | set _ => false
  | condition _ => true
  | group _ body => body.neverConsumes
  | seq first second => first.neverConsumes && second.neverConsumes
  | alt first second => first.neverConsumes && second.neverConsumes
  | repeated _ max _ body => max = some 0 || body.neverConsumes

/-! ## Putting expressions together -/

/-- One expression after another. -/
def seqAll : List Regex → Regex
  | [] => empty
  | r :: rest =>
    match r, seqAll rest with
    | empty, tail => tail
    | r, empty => r
    | r, tail => seq r tail

/-- The alternatives that an expression is a choice between. -/
def alternatives : Regex → List Regex
  | alt first second => first.alternatives ++ second.alternatives
  | r => [r]

/-- The members of an expression that is a set. -/
def members? : Regex → Option CharSet
  | set members => some members
  | _ => none

/-- A choice between expressions that are themselves no choices, the first preferred. -/
def altList : List Regex → Regex
  | [] => empty
  | [r] => r
  | r :: rest => alt r (altList rest)

/-- A choice between expressions, the first preferred. A choice between sets is their union. -/
def altAll (rs : List Regex) : Regex :=
  match rs with
  | [r] => r
  | rs =>
    let rs := rs.flatMap alternatives
    match rs.mapM members? with
    | some sets => set (.unionAll sets)
    | none => altList rs

/-- So many rounds of an expression. More than one round of an expression that consumes nothing
adds nothing, no rounds are the empty expression, and one round is the expression itself. -/
def rounds (least : Nat) (most : Option Nat) (greedy : Bool) (body : Regex) : Regex :=
  let (least, most) :=
    if body.neverConsumes then (min least 1, some (min (most.getD 1) 1)) else (least, most)
  match least, most with
  | 0, some 0 => empty
  | 1, some 1 => body
  | least, most => repeated least most greedy body

end Regex

end Casebook.Pattern
