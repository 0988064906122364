import Casebook.Proofs.Template.Agreement
import Casebook.Proofs.Text.Trimming

/-!
# The parser stays inside its text

A cursor over a text may slip, and it slips if its calls nest deeper than they may. With six nested
calls for every character it reads like the parser, and so it does not slip. What is left are the
columns that problems are reported at and the one problem that no template has.
-/

namespace Casebook.Template

open Text Casebook.Computation

/-! ## Columns -/

/-- An error of a text that was read up to a limit: too many levels, or a problem at a column from
that of the first character up to the one behind the last. -/
def ReportedIn (limit : ℕ) (text : String) (e : Error) : Prop :=
  e = .recursionLimit limit ∨ ∃ (p : Problem) (column : ℕ), 1 ≤ column ∧ column ≤ text.length + 1 ∧
    e = .templateSyntax text s!"{p.message} at column {column}"

/-- The fault of a failure is at a column of the text. -/
theorem reportedIn_ofFailure (limit : ℕ) (text : String) (failure : Failure) :
    ReportedIn limit text ((Fault.ofFailure text.toList limit failure).toError text) := by
  cases failure with
  | tooDeep => exact .inl rfl
  | problem p rest =>
    refine .inr ⟨p, text.toList.length - rest.length + 1, by omega, ?_, rfl⟩
    rw [String.length_toList]
    omega

theorem reportedIn_of_parse {limit : ℕ} {text : String} {e : Error}
    (h : parse limit text = .error e) : ReportedIn limit text e := by
  unfold parse read at h
  generalize pieces (placeholder limit) .never text.toList = x at h
  rcases x with failure | r
  · cases h
    exact reportedIn_ofFailure limit text failure
  · cases h

theorem reportedIn_of_parseCall {limit : ℕ} {text : String} {e : Error}
    (h : parseCall limit text = .error e) : ReportedIn limit (trimmed text) e := by
  have htext : trim text.toList = (trimmed text).toList := String.toList_ofList.symm
  unfold parseCall readCall at h
  rw [htext] at h
  generalize callInFront limit (trimmed text).toList = x at h
  rcases x with failure | ⟨call, rest⟩
  · cases h
    exact reportedIn_ofFailure limit (trimmed text) failure
  · dsimp only at h
    generalize skipBlanks rest = last at h
    cases last with
    | nil => cases h
    | cons x after =>
      cases h
      exact reportedIn_ofFailure limit (trimmed text) _

/-- A template ends with its text, so none has trailing input. -/
theorem ne_trailingInput_of_read {limit : ℕ} {text : String} {p : Problem} {column : ℕ}
    (h : read limit text.toList = .error (.problem p column)) : p ≠ .trailingInput := by
  have hagrees := Cursor.agrees_wholeTemplate limit (Nat.le_refl (6 * text.length + 2))
  unfold read at h
  generalize pieces (placeholder limit) .never text.toList = x at h hagrees
  generalize Cursor.exec (Cursor.wholeTemplate text limit _) ⟨0, 0⟩ = y at hagrees
  rcases x with (⟨p', rest⟩ | _) | r
  · cases h
    cases hagrees with
    | problem inner stands => exact inner
  · cases h
  · cases h

/-- The first letters of a reason are those of the problem. -/
theorem take_reason (p : Problem) (column : ℕ) :
    (s!"{p.message} at column {column}").toList.take 3 = p.message.toList.take 3 := by
  have hlong : 3 ≤ p.message.toList.length := by cases p <;> decide
  show ((p.message ++ " at column ") ++ toString column).toList.take 3 = _
  rw [String.toList_append, String.toList_append, List.append_assoc,
    List.take_append_of_le_length hlong]

/-- No other problem is worded like trailing input: the third letters differ. -/
theorem eq_trailingInput {p : Problem} {column other : ℕ}
    (h : s!"{p.message} at column {column}" =
      s!"{Problem.trailingInput.message} at column {other}") : p = .trailingInput := by
  have hfirst := congrArg (fun reason => reason.toList.take 3) h
  rw [take_reason, take_reason] at hfirst
  revert hfirst
  cases p <;> decide

/-! ## The parser -/

theorem parse_ne_trailingInput (limit : ℕ) (text input : String) (column : ℕ) :
    parse limit text ≠
      .error (.templateSyntax input s!"{Problem.trailingInput.message} at column {column}") := by
  intro h
  unfold parse at h
  cases hread : read limit text.toList with
  | ok t =>
    rw [hread] at h
    cases h
  | error fault =>
    rw [hread] at h
    cases fault with
    | tooDeep n => cases h
    | problem p column' =>
      obtain ⟨-, hreason⟩ := Error.templateSyntax.inj (Except.error.inj h)
      exact ne_trailingInput_of_read hread (eq_trailingInput hreason)

/-- **The parser stays inside its text.** A cursor looks at characters by their position, cuts text
out between positions and counts the placeholders it is in. If it may nest six calls for every
character of a text and two more, or any larger number, it reads the text under every limit the way
the parser does, as a template and as a call: it comes to the same value or the same error and never
slips. So it comes to an end, takes no character and cuts out no text that is not there, and leaves
no placeholder that it has not entered. What is wrong with a text is reported at a column of the
text that the error carries, or right behind the last one, and a template never has trailing
input. -/
theorem parser_stays_inside (limit more : ℕ) (text : String) :
    Cursor.parse (6 * text.length + 2 + more) limit text =
        (parse limit text).mapError .error ∧
      Cursor.parseCall (6 * text.length + 2 + more) limit text =
        (parseCall limit text).mapError .error ∧
      (∀ e, parse limit text = .error e → ReportedIn limit text e) ∧
      (∀ e, parseCall limit text = .error e → ReportedIn limit (trimmed text) e) ∧
      ∀ (input : String) (column : ℕ), parse limit text ≠
        .error (.templateSyntax input s!"{Problem.trailingInput.message} at column {column}") := by
  have hlength := length_trimmed_le text
  refine ⟨?template, ?call, fun _ => reportedIn_of_parse, fun _ => reportedIn_of_parseCall,
    parse_ne_trailingInput limit text⟩
  case template => exact Cursor.parse_eq limit (by omega)
  case call => exact Cursor.parseCall_eq limit (by omega)

end Casebook.Template
