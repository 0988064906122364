import Casebook.Proofs.Template.Acceptance
import Casebook.Proofs.Template.CallDepth

/-!
# The limit of the parser

The parser is given room for so many levels of placeholders, and a reader that runs out of it says
so. `Settles r r'` says that `r'` is `r` unless `r` is such a lack of room. Readers whose
placeholders settle settle what is around them, so a reader with more room gives what one with less
gives, be it a value or a problem found at the same place (`settles_placeholder`): what stands side
by side never adds up, and no problem moves.

Main statement: under a higher limit a text has the value or the error of its syntax that it has
under a lower one; the only other error is that of the limit itself, in a text with more openings
than the limit; and in a template that is accepted calls are nested no deeper than the limit.
-/

namespace Casebook.Template

open Text Segment Casebook.Computation

/-- A result is what another is, be it a value or a problem, unless that one lacked room. -/
def Settles {α : Type} (r r' : Except Failure α) : Prop :=
  r ≠ .error .tooDeep → r' = r

/-- A reader gives what another gives, unless that one lacks room. -/
def SettlesReader {α : Type} (P P' : Reader α) : Prop :=
  ∀ s, Settles (P s) (P' s)

section Results

variable {α β : Type} {r r' : Except Failure α} {f f' : α → Except Failure β}

theorem settles_refl (r : Except Failure α) : Settles r r :=
  fun _ => rfl

/-- A sequence lacks room if one of its parts does, so it settles if its parts do. -/
theorem Settles.bind (hr : Settles r r') (hf : ∀ a, r = .ok a → Settles (f a) (f' a)) :
    Settles (r >>= f) (r' >>= f') := by
  intro hroom
  cases r with
  | error failure =>
    rw [hr fun heq => hroom (congrArg (· >>= f) heq)]
    rfl
  | ok a =>
    rw [hr nofun]
    exact hf a rfl hroom

theorem Settles.map (hr : Settles r r') (g : α → β) : Settles (r.map g) (r'.map g) := by
  intro hroom
  rw [hr fun heq => hroom (congrArg (Except.map g) heq)]

end Results

section Readers

variable {P P' : Reader Segment} {stop : Stop}

/-! ## Pieces -/

theorem settles_piece (hP : SettlesReader P P') (c : Char) (s : List Char) :
    Settles (piece P stop c s) (piece P' stop c s) := by
  unfold piece
  split
  · exact settles_refl _
  split
  · cases s with
    | nil => exact settles_refl _
    | cons x after =>
      dsimp only
      split
      · exact settles_refl _
      split
      · exact (hP after).map _
      · exact settles_refl _
  · exact settles_refl _

/-- The induction is on the text, of which each piece takes at least a character. -/
theorem settles_pieces (hP : SettlesReader P P') (s : List Char) :
    Settles (pieces P stop s) (pieces P' stop s) := by
  induction hn : s.length using Nat.strongRecOn generalizing s with
  | ind n ih =>
  unfold pieces
  cases s with
  | nil => exact settles_refl _
  | cons c s =>
    dsimp only
    split
    · exact settles_refl _
    · refine (settles_piece hP c s).bind fun p _ => ?_
      have hlt : p.rest.length < n := hn ▸ Nat.lt_succ_of_le p.le
      exact (ih _ hlt p.rest rfl).bind fun r _ => settles_refl _

/-! ## Arguments -/

theorem settles_argumentValue (hP : SettlesReader P P') (key : Option String) (s : List Char) :
    Settles (argumentValue P key s) (argumentValue P' key s) := by
  unfold argumentValue
  cases s with
  | nil => exact settles_refl _
  | cons q inner =>
    dsimp only
    split
    · exact (settles_pieces hP inner).bind fun r _ => settles_refl _
    · exact (settles_pieces hP (q :: inner)).bind fun r _ => settles_refl _

theorem settles_argument (hP : SettlesReader P P') (s : List Char) :
    Settles (argument P s) (argument P' s) :=
  (settles_argumentValue hP _ _).bind fun _ _ => settles_refl _

/-- The induction is on the text, which is shorter behind a comma. -/
theorem settles_moreArguments (hP : SettlesReader P P') (s : List Char) :
    Settles (moreArguments P s) (moreArguments P' s) := by
  induction hn : s.length using Nat.strongRecOn generalizing s with
  | ind n ih =>
  unfold moreArguments
  refine (settles_argument hP s).bind fun a _ => ?_
  dsimp only
  split
  · exact settles_refl _
  next c after hafter =>
  have hlt : after.length < n := by
    have hskip := length_skipBlanks_le a.rest
    have hle := a.le
    rw [hafter, List.length_cons] at hskip
    omega
  split
  · exact (ih _ hlt after rfl).bind fun more _ => settles_refl _
  · exact settles_refl _

theorem settles_arguments (hP : SettlesReader P P') (s : List Char) :
    Settles (arguments P s) (arguments P' s) := by
  unfold arguments
  dsimp only
  split
  · exact settles_refl _
  · exact (settles_moreArguments hP _).bind fun r _ => settles_refl _

/-! ## Placeholders -/

theorem settles_nameAndArguments (hP : SettlesReader P P') (s : List Char) :
    Settles (nameAndArguments P s) (nameAndArguments P' s) := by
  unfold nameAndArguments
  dsimp only
  split
  · exact settles_refl _
  split
  · exact (settles_arguments hP _).bind fun r _ => settles_refl _
  · exact settles_refl _

end Readers

/-- With one level of room more, placeholders are read alike. The induction is on the room. -/
theorem settles_placeholder_succ (room : ℕ) :
    SettlesReader (placeholder room) (placeholder (room + 1)) := by
  induction room with
  | zero => exact fun s hroom => absurd rfl hroom
  | succ room ih =>
    intro s
    unfold placeholder
    exact (settles_nameAndArguments ih s).bind fun r _ => settles_refl _

theorem settles_placeholder {room room' : ℕ} (h : room ≤ room') :
    SettlesReader (placeholder room) (placeholder room') := by
  induction h with
  | refl => exact fun s => settles_refl _
  | @step room' _ ih =>
    intro s hroom
    have hsame := ih s hroom
    rw [← hsame] at hroom
    exact (settles_placeholder_succ room' s hroom).trans hsame

/-! ## Calls -/

theorem settles_bareCall {limit limit' : ℕ} (h : limit ≤ limit') (s : List Char) :
    Settles (bareCall limit s) (bareCall limit' s) := by
  unfold bareCall
  split
  · exact settles_refl _
  dsimp only
  split
  · exact (settles_arguments (settles_placeholder h) _).map _
  · exact settles_refl _

theorem settles_callInFront {limit limit' : ℕ} (h : limit ≤ limit') (s : List Char) :
    Settles (callInFront limit s) (callInFront limit' s) := by
  unfold callInFront
  split
  · exact (settles_placeholder h _).map _
  · exact settles_bareCall h s

/-- A call is too deep only if there are more openings in the text than the limit. -/
theorem openings_of_callInFront {limit : ℕ} {s : List Char}
    (h : callInFront limit s = .error .tooDeep) : limit < openings s := by
  unfold callInFront at h
  split at h
  · next inner =>
    rw [openings_braces]
    exact Nat.lt_succ_of_le (deepensOpenings limit inner (map_eq_error.mp h))
  unfold bareCall at h
  split at h
  · cases h
  dsimp only at h
  split at h
  · next after hopened =>
    have hsuffix : after <:+ s := by
      have hskip : after <:+ skipBlanks (word s).2 := hopened ▸ List.suffix_cons '(' after
      exact (hskip.trans (List.dropWhile_suffix isBlank)).trans (List.dropWhile_suffix isWord)
    exact Nat.lt_of_lt_of_le (openings_of_arguments (deepensOpenings limit) (map_eq_error.mp h))
      (openings_le_of_suffix hsuffix)
  · cases h

/-! ## Whole texts -/

section Texts

variable {limit limit' : ℕ} {s : List Char}

/-- Under a higher limit a text is read as under a lower one, unless that has no room for it. -/
theorem read_of_le (h : limit ≤ limit') (hroom : read limit s ≠ .error (.tooDeep limit)) :
    read limit' s = read limit s := by
  have hpieces : Settles (pieces (placeholder limit) .never s)
      (pieces (placeholder limit') .never s) := settles_pieces (settles_placeholder h) s
  unfold read at hroom ⊢
  cases hread : pieces (placeholder limit) .never s with
  | ok r =>
    rw [hread] at hpieces
    rw [hpieces nofun]
  | error failure =>
    rw [hread] at hpieces hroom
    cases failure with
    | tooDeep => exact absurd rfl hroom
    | problem p rest =>
      rw [hpieces nofun]
      rfl

theorem lt_openings_of_read {n : ℕ} (h : read limit s = .error (.tooDeep n)) :
    n = limit ∧ limit < openings s := by
  unfold read at h
  split at h
  · cases h
  next failure hfailure =>
  cases failure with
  | problem p rest => cases h
  | tooDeep =>
    cases h
    exact ⟨rfl, openings_of_pieces (deepensOpenings _) hfailure⟩

theorem readCall_of_le (h : limit ≤ limit') (hroom : readCall limit s ≠ .error (.tooDeep limit)) :
    readCall limit' s = readCall limit s := by
  have hfront := settles_callInFront h s
  unfold readCall at hroom ⊢
  cases hread : callInFront limit s with
  | ok r =>
    rw [hread] at hfront
    rw [hfront nofun]
    rfl
  | error failure =>
    rw [hread] at hfront hroom
    cases failure with
    | tooDeep => exact absurd rfl hroom
    | problem p rest =>
      rw [hfront nofun]
      rfl

theorem lt_openings_of_readCall {n : ℕ} (h : readCall limit s = .error (.tooDeep n)) :
    n = limit ∧ limit < openings s := by
  unfold readCall at h
  split at h
  · next failure hfailure =>
    cases failure with
    | problem p rest => cases h
    | tooDeep =>
      cases h
      exact ⟨rfl, openings_of_callInFront hfailure⟩
  · split at h <;> cases h

end Texts

/-- A text has no more openings once blanks are trimmed. -/
theorem openings_trim_le (s : List Char) : openings (trim s) ≤ openings s := by
  obtain ⟨before, after, hs, -, -⟩ := exists_eq_append_trim s
  refine openings_mono ⟨before, after, ?_⟩
  rw [List.append_assoc]
  exact hs.symm

/-- Calls in a template are nested no deeper than the limit it was accepted under. -/
theorem callDepth_le_of_parse {limit : ℕ} {text : String} {t : Template}
    (h : parse limit text = .ok t) : callDepthOfSegments t.segments ≤ limit := by
  obtain ⟨ps, hps, rfl⟩ := parse_eq_ok.mp h
  exact callDepthOfSegments_ofPieces (hps.callDepth_le (boundedRule_takesPlaceholder limit))

/-- What is reported under a limit, of a result that is the same under a higher one unless it lacks
room. -/
theorem report_of_same {α : Type} {limit : ℕ} (input : String) {s : List Char}
    {r r' : Except Fault α} (hsame : r ≠ .error (.tooDeep limit) → r' = r)
    (hdeep : ∀ n, r = .error (.tooDeep n) → n = limit ∧ limit < openings s) :
    (∀ a, r.mapError (Fault.toError input) = .ok a → r'.mapError (Fault.toError input) = .ok a) ∧
      ∀ e, r.mapError (Fault.toError input) = .error e →
        (∃ (p : Problem) (column : ℕ),
            e = .templateSyntax input s!"{p.message} at column {column}" ∧
              r'.mapError (Fault.toError input) = .error e) ∨
          e = .recursionLimit limit ∧ limit < openings s := by
  cases r with
  | ok a =>
    rw [hsame nofun]
    exact ⟨fun _ h => h, nofun⟩
  | error fault =>
    refine ⟨nofun, fun e he => ?_⟩
    cases he
    cases fault with
    | problem p column =>
      rw [hsame nofun]
      exact .inl ⟨p, column, rfl, rfl⟩
    | tooDeep n =>
      obtain ⟨rfl, hlt⟩ := hdeep n rfl
      exact .inr ⟨rfl, hlt⟩

/-- The limit of the parser is only a guard. What a text gives under a limit it gives under every
higher one: the same template, the same call, or the same problem at the same column. The one other
error carries the limit, and the text has more openings then. In a template calls are nested no
deeper than the limit. -/
theorem parse_of_le_limit {limit limit' : ℕ} (h : limit ≤ limit') (text : String) :
    (∀ t, parse limit text = .ok t →
        parse limit' text = .ok t ∧ callDepthOfSegments t.segments ≤ limit) ∧
      (∀ e, parse limit text = .error e →
        (∃ (p : Problem) (column : ℕ),
            e = .templateSyntax text s!"{p.message} at column {column}" ∧
              parse limit' text = .error e) ∨
          e = .recursionLimit limit ∧ limit < openings text.toList) ∧
      (∀ c, parseCall limit text = .ok c → parseCall limit' text = .ok c) ∧
      (∀ e, parseCall limit text = .error e →
        (∃ (p : Problem) (column : ℕ),
            e = .templateSyntax (trimmed text) s!"{p.message} at column {column}" ∧
              parseCall limit' text = .error e) ∨
          e = .recursionLimit limit ∧ limit < openings text.toList) := by
  obtain ⟨htemplate, hfault⟩ := report_of_same text
    (read_of_le (s := text.toList) h) fun n hn => lt_openings_of_read hn
  obtain ⟨hcall, hcallFault⟩ := report_of_same (trimmed text) (s := text.toList)
    (readCall_of_le (s := trim text.toList) h) fun n hn => by
      obtain ⟨hlimit, hlt⟩ := lt_openings_of_readCall hn
      exact ⟨hlimit, Nat.lt_of_lt_of_le hlt (openings_trim_le _)⟩
  exact ⟨fun t ht => ⟨htemplate t ht, callDepth_le_of_parse ht⟩, hfault, hcall, hcallFault⟩

/-- A missing comma is found at the same column under both limits, before the calls that are too
deep for one of them; where nothing is missing that limit is reported, and there are two openings. -/
theorem parse_of_le_limit_comma :
    1 ≤ 8 ∧
      parse 8 "$\x7bf('a' b)\x7d $\x7bg($\x7bh()\x7d)\x7d" = .error (.templateSyntax
        "$\x7bf('a' b)\x7d $\x7bg($\x7bh()\x7d)\x7d" "expected ',' or ')' at column 9") ∧
      parse 1 "$\x7bg($\x7bh()\x7d)\x7d" = .error (.recursionLimit 1) ∧
      1 < openings "$\x7bg($\x7bh()\x7d)\x7d".toList := by
  have hcomma : parse 1 "$\x7bf('a' b)\x7d $\x7bg($\x7bh()\x7d)\x7d" = .error (.templateSyntax
      "$\x7bf('a' b)\x7d $\x7bg($\x7bh()\x7d)\x7d" "expected ',' or ')' at column 9") := by cbv
  have hdeep : parse 1 "$\x7bg($\x7bh()\x7d)\x7d" = .error (.recursionLimit 1) := by cbv
  have hlimit : 1 ≤ 8 := by decide
  refine ⟨hlimit, ?_, hdeep, ?_⟩
  · rcases (parse_of_le_limit hlimit _).2.1 _ hcomma with ⟨_, _, -, hsame⟩ | ⟨hlimited, -⟩
    · exact hsame
    · cases hlimited
  · rcases (parse_of_le_limit hlimit _).2.1 _ hdeep with ⟨_, _, hproblem, -⟩ | ⟨-, hlt⟩
    · cases hproblem
    · exact hlt

end Casebook.Template
