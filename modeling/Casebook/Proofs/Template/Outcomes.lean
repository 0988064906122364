import Casebook.Proofs.Template.Grammar

/-!
# What readers come to

A reader returns what it read with a proof that the rest is no longer than its text, so two of its
results have the same type only if they are of the same text. `outcome` leaves the proof out. Here
every reader is written in terms of the outcomes of the readers it uses, its errors included; a
comparison with another reader of templates then goes along these equations.
-/

namespace Casebook.Template

open Text Casebook.Computation

/-- What a reader reads, and the text behind it. -/
def outcome {α : Type} {s : List Char} (x : Except Failure (Scanned α s)) :
    Except Failure (α × List Char) :=
  x.map fun r => (r.value, r.rest)

section Outcomes

@[simp] theorem outcome_ok {α : Type} {s : List Char} (r : Scanned α s) :
    outcome (.ok r) = .ok (r.value, r.rest) :=
  rfl

@[simp] theorem outcome_error {α : Type} {s : List Char} (failure : Failure) :
    outcome (.error failure : Except Failure (Scanned α s)) = .error failure :=
  rfl

variable {placeholder : Reader Segment} {stop : Stop} {key : Option String} {s rest : List Char}

theorem outcome_eq_ok_iff {α : Type} {reader : Reader α} {a : α} :
    outcome (reader s) = .ok (a, rest) ↔ Reads reader s a rest := by
  constructor
  · intro h
    obtain ⟨⟨a', rest', hle⟩, hread, hsame⟩ := map_eq_ok.mp h
    cases hsame
    exact ⟨hle, hread⟩
  · intro h'
    obtain ⟨hle, hread⟩ := h'
    rw [hread]
    rfl

theorem outcome_pieces_of_ends (hends : ∀ c, s.head? = some c → stop.endsAt c = true) :
    outcome (pieces placeholder stop s) = .ok ([], s) :=
  outcome_eq_ok_iff.mpr (reads_pieces_iff.mpr (.done hends))

theorem outcome_pieces_cons {c : Char} (hgoes : stop.endsAt c = false) :
    outcome (pieces placeholder stop (c :: s)) = (do
      let p ← outcome (piece placeholder stop c s)
      let r ← outcome (pieces placeholder stop p.2)
      return (p.1 :: r.1, r.2)) := by
  rw [pieces, if_neg (by simp [hgoes])]
  rcases piece placeholder stop c s with failure | ⟨p, mid, hmid⟩
  · rfl
  simp only [outcome, bind, Except.bind, Except.map]
  rcases pieces placeholder stop mid with failure | ⟨ps, rest, hrest⟩
  · rfl
  · rfl

theorem outcome_argumentValue_quote {q : Char} (hq : q = '"' ∨ q = '\'') :
    outcome (argumentValue placeholder key (q :: s)) = (do
      let r ← outcome (pieces placeholder (.quote q) s)
      match r.2 with
      | [] => .error (.problem .unterminatedString [])
      | _ :: after => .ok (.quoted key q (ofPieces r.1) (String.ofList (taken s r.2)), after)) := by
  rw [argumentValue, if_pos hq]
  rcases pieces placeholder (.quote q) s with failure | ⟨ps, rest, hrest⟩
  · rfl
  · cases rest <;> rfl

theorem outcome_argumentValue_of_not (hs : ∀ q, s.head? = some q → ¬(q = '"' ∨ q = '\'')) :
    outcome (argumentValue placeholder key s) = (do
      let r ← outcome (pieces placeholder .argument s)
      if (trimLast (ofPieces r.1)).isEmpty then .error (.problem .emptyArgument r.2)
      else
        let source := String.ofList (trimEnd (taken s r.2))
        .ok (unquoted key (trimLast (ofPieces r.1)) source, r.2)) := by
  cases s with
  | nil =>
    rw [outcome_pieces_of_ends (by simp)]
    rfl
  | cons c s =>
    rw [argumentValue, if_neg (hs c rfl)]
    rcases pieces placeholder .argument (c :: s) with failure | ⟨ps, rest, hrest⟩
    · rfl
    by_cases hempty : (trimLast (ofPieces ps)).isEmpty = true
    · simp only [outcome, bind, Except.bind, Except.map, hempty, if_true]
    · simp only [outcome, bind, Except.bind, Except.map, hempty, Bool.false_eq_true, if_false]
      rfl

theorem outcome_argument :
    outcome (argument placeholder s) =
      outcome (argumentValue placeholder (keyword (skipBlanks s)).1
        (skipBlanks (keyword (skipBlanks s)).2)) := by
  simp only [argument]
  rcases argumentValue placeholder (keyword (skipBlanks s)).1
    (skipBlanks (keyword (skipBlanks s)).2) with failure | ⟨a, rest, hrest⟩
  · rfl
  · rfl

theorem outcome_moreArguments :
    outcome (moreArguments placeholder s) = (do
      let a ← outcome (argument placeholder s)
      match skipBlanks a.2 with
      | [] => .error (.problem .separatorExpected [])
      | c :: after =>
        if c = ',' then
          let more ← outcome (moreArguments placeholder after)
          return (a.1 :: more.1, more.2)
        else if c = ')' then .ok ([a.1], after)
        else .error (.problem .separatorExpected (c :: after))) := by
  rw [moreArguments]
  rcases argument placeholder s with failure | ⟨a, mid, hmid⟩
  · rfl
  rw [ok_bind, outcome_ok, ok_bind]
  dsimp only
  split
  · next h => simp only [h, outcome_error]
  next c after h =>
  simp only [h]
  split
  · rcases moreArguments placeholder after with failure | ⟨args, rest, hrest⟩ <;> rfl
  · split <;> rfl

theorem outcome_arguments :
    outcome (arguments placeholder s) =
      match skipBlanks s with
      | ')' :: after => .ok ([], after)
      | other => outcome (moreArguments placeholder other) := by
  unfold arguments
  dsimp only
  split
  · next after h => simp only [h, outcome_ok]
  next hother =>
  split
  · next after h => exact (hother after h).elim
  · rcases moreArguments placeholder (skipBlanks s) with failure | ⟨args, rest, hrest⟩ <;> rfl

theorem outcome_nameAndArguments :
    outcome (nameAndArguments placeholder s) =
      let name := (word (skipBlanks s)).1
      if name.isEmpty then .error (.problem .nameExpected (skipBlanks s))
      else match skipBlanks (word (skipBlanks s)).2 with
        | '(' :: after => do
          let r ← outcome (arguments placeholder after)
          return (.call ⟨String.ofList name, r.1⟩, r.2)
        | other => .ok (.var (String.ofList name), other) := by
  unfold nameAndArguments
  dsimp only
  split
  · rfl
  split
  · next after h =>
    simp only [h]
    rcases arguments placeholder after with failure | ⟨args, rest, hrest⟩ <;> rfl
  next hother =>
  split
  · next after h => exact (hother after h).elim
  · rfl

theorem outcome_placeholder_succ {room : ℕ} :
    outcome (Template.placeholder (room + 1) s) = (do
      let r ← outcome (nameAndArguments (Template.placeholder room) s)
      match skipBlanks r.2 with
      | '\x7d' :: after => .ok (r.1, after)
      | other => .error (.problem .braceExpected other)) := by
  rw [Template.placeholder]
  rcases nameAndArguments (Template.placeholder room) s with failure | ⟨segment, mid, hmid⟩
  · rfl
  rw [ok_bind, outcome_ok, ok_bind]
  dsimp only
  split
  · next after h =>
    simp only [h]
    rfl
  next hother =>
  split
  · next after h => exact (hother after h).elim
  · rfl

end Outcomes

end Casebook.Template
