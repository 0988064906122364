import Casebook.Dict
import Casebook.Value.Basic
import Casebook.Text.Word

/-!
# Fragment parameters

A fragment is instantiated by replacing its parameters in the text of its document, before any
template is read: each `$p` and `${p}` whose name is a parameter becomes the text of the
argument. What is inserted is not looked at again, so it may hold placeholders of its own, which
are evaluated when the case runs.

`parts` cuts a text into the occurrences of names and everything else. An occurrence in the
argument list of a call takes the form of the argument that keeps its quotes, so that a quoted
argument stays one argument; any other occurrence takes the bare text.
-/

namespace Casebook

open Text

/-- What a parameter is replaced by. -/
structure Substitution where
  /-- Stands in plain text and inside quotes. -/
  text : String
  /-- Stands where a call expects an argument; quotes are kept. -/
  literal : String
  deriving DecidableEq, Inhabited

namespace Substitution

/-- One text for every position. -/
def plain (s : String) : Substitution :=
  { text := s, literal := s }

/-! ## Cutting a text into parts -/

/-- What surrounds a position of a text: an argument list, where a quote opens a string only at
the start of an argument, or a string between quotes. -/
inductive Scope where
  | arguments (atStart : Bool)
  | quoted (delimiter : Char)
  deriving DecidableEq

/-- A part of a text. -/
inductive Part where
  /-- Text that is kept as it is. -/
  | kept (s : List Char)
  /-- A name behind a dollar, perhaps in braces: how it is written, the name, and whether it
  stands directly in an argument list. -/
  | occurrence (written : List Char) (name : String) (inArguments : Bool)

/-- Whether a position stands directly in an argument list. -/
def inArguments : List Scope → Bool
  | .arguments _ :: _ => true
  | _ => false

/-- The scopes after a character that is not blank. -/
def begun : List Scope → List Scope
  | .arguments _ :: outer => .arguments false :: outer
  | scopes => scopes

/-- The scopes after a character that is no dollar, outside an escape. -/
def afterChar (c : Char) : List Scope → List Scope
  | .quoted q :: outer => if c = q then outer else .quoted q :: outer
  | .arguments atStart :: outer =>
    if c = ')' then outer
    else if c = ',' ∨ c = '=' then .arguments true :: outer
    else if (c = '"' ∨ c = '\'') ∧ atStart then .quoted c :: .arguments false :: outer
    else if isBlank c then .arguments atStart :: outer
    else .arguments false :: outer
  | [] => []

/-- Whether a backslash keeps the next character from being looked at. -/
def escapes : List Scope → Bool
  | .quoted _ :: _ => true
  | _ => false

/-- What starts with an opening brace behind a dollar: a name in braces, a call up to its opening
parenthesis, or neither. The text is given behind the brace, and so is the rest. -/
inductive Braced where
  | name (name : List Char) (rest : List Char)
  | call (rest : List Char)
  | other

/-- Tell what starts behind an opening brace. -/
def braced (s : List Char) : Braced :=
  match word (skipBlanks s) with
  | (name, after) =>
    match skipBlanks after with
    | '\x7d' :: rest => .name name rest
    | '(' :: rest => if name = [] then .other else .call rest
    | _ => .other

theorem length_braced_name {s name rest : List Char} (h : braced s = .name name rest) :
    rest.length < s.length := by
  have h1 := length_skipBlanks_le s
  have h2 := length_word_le (skipBlanks s)
  have h3 := length_skipBlanks_le (word (skipBlanks s)).2
  simp only [braced] at h
  split at h
  · next r hr =>
    rw [hr] at h3
    simp only [Braced.name.injEq] at h
    simp only [List.length_cons] at h3
    rw [← h.2]
    omega
  · split at h <;> simp at h
  · simp at h

theorem length_braced_call {s rest : List Char} (h : braced s = .call rest) :
    rest.length < s.length := by
  have h1 := length_skipBlanks_le s
  have h2 := length_word_le (skipBlanks s)
  have h3 := length_skipBlanks_le (word (skipBlanks s)).2
  simp only [braced] at h
  split at h
  · simp at h
  · next r hr =>
    rw [hr] at h3
    split at h
    · simp at h
    · simp only [Braced.call.injEq] at h
      simp only [List.length_cons] at h3
      rw [← h]
      omega
  · simp at h

/-- The text in front of a rest of it. -/
def upTo (s rest : List Char) : List Char :=
  s.take (s.length - rest.length)

/-- The parts of a text that stands in some scopes, innermost first. -/
def partsIn (scopes : List Scope) (s : List Char) : List Part :=
  match s with
  | [] => []
  | c :: rest =>
    if c = '$' then
      match rest with
      | [] => [.kept [c]]
      | x :: after =>
        if x = '$' then .kept [c, x] :: partsIn (begun scopes) after
        else if x = '\x7b' then
          match h : braced after with
          | .name name r =>
            have := length_braced_name h
            .occurrence (upTo (c :: x :: after) r) (String.ofList name) (inArguments scopes)
              :: partsIn (begun scopes) r
          | .call r =>
            have := length_braced_call h
            .kept (upTo (c :: x :: after) r) :: partsIn (.arguments true :: begun scopes) r
          | .other => .kept [c, x] :: partsIn (begun scopes) after
        else if isWord x then
          have := length_word_le (x :: after)
          .occurrence (c :: (word (x :: after)).1) (String.ofList (word (x :: after)).1)
              (inArguments scopes)
            :: partsIn (begun scopes) (word (x :: after)).2
        else .kept [c] :: partsIn (begun scopes) (x :: after)
    else if c = '\\' ∧ escapes scopes then
      match rest with
      | [] => [.kept [c]]
      | x :: after => .kept [c, x] :: partsIn scopes after
    else .kept [c] :: partsIn (afterChar c scopes) rest
termination_by s.length
decreasing_by
  all_goals simp only [List.length_cons] at *; omega

/-- The text behind the opening parenthesis of a call in its bare form, if a text starts so. -/
def bareCall? (s : List Char) : Option (List Char) :=
  match word (skipBlanks s) with
  | ([], _) => none
  | (_, after) =>
    match skipBlanks after with
    | '(' :: rest => some rest
    | _ => none

/-- The parts of a text. A text that starts like a call in its bare form is in the argument list
of that call. -/
def parts (s : List Char) : List Part :=
  match bareCall? s with
  | some rest => .kept (upTo s rest) :: partsIn [.arguments true] rest
  | none => partsIn [] s

/-! ## Replacing -/

/-- The form of a substitution for a position. -/
def form (sub : Substitution) (inArguments : Bool) : String :=
  if inArguments then sub.literal else sub.text

/-- What a part becomes. -/
def Part.replace (mapping : Dict Substitution) : Part → List Char
  | .kept s => s
  | .occurrence written name inArguments =>
    match mapping.get? name with
    | some sub => (sub.form inArguments).toList
    | none => written

/-- Replace the parameters in a text. -/
def apply (mapping : Dict Substitution) (text : String) : String :=
  String.ofList ((parts text.toList).flatMap (Part.replace mapping))

/-- Replace the parameters in every string and key of a value. -/
def applyToValue (mapping : Dict Substitution) (v : Value) : Value :=
  let onText (s : String) : Id Value := pure (.string (apply mapping s))
  Id.run (v.mapTexts onText fun key => pure (apply mapping key))

end Substitution

end Casebook
