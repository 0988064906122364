import Casebook.Proofs.Template.Deepening
import Casebook.Proofs.Template.Outcomes
import Casebook.Proofs.Template.Stepping

/-!
# A cursor reads like the parser

Every routine of a cursor comes to what the reader of the same name comes to, wherever it starts in
a text: to the same value in front of the same rest, or to the same problem there. `Agrees` is this
relation. It holds of a sequence if it holds of the parts, so it is proved along the definition of
each routine.

At no place in a text do more than six routines call one another before a character is taken. So a
routine is given six calls for every character of the rest, and some more according to how many of
the others it may call at once; where it calls itself, the induction is on these calls.

For the routines that read what may hold placeholders it is proved for any reader of placeholders
that a cursor tracks. That a cursor tracks the reader with as much room as is left up to the limit
is then an induction on the room.
-/

namespace Casebook.Template

open Text Casebook.Computation

/-! ## Segments that grow -/

theorem consText_append (part : List Char) (segments : List Segment) :
    consText part segments = consText part [] ++ segments := by
  cases part <;> rfl

namespace Cursor

/-- The segments of pieces, behind the segments and the text that were read before. -/
def joined (segments : List Segment) (part : List Char) (ps : List Piece) : List Segment :=
  segments ++ consText (part ++ (splitPieces ps).1) (splitPieces ps).2

section Joined

variable {segments : List Segment} {part : List Char} {ps : List Piece}

theorem joined_nil : joined segments part [] = flush segments part := by
  simp [joined, splitPieces, flush]

theorem joined_char {c : Char} :
    joined segments part (.char c :: ps) = joined segments (part ++ [c]) ps := by
  simp [joined, splitPieces]

theorem joined_placeholder {segment : Segment} :
    joined segments part (.placeholder segment :: ps) =
      joined (flush segments part ++ [segment]) [] ps := by
  simp only [joined, splitPieces, flush, List.append_nil, List.nil_append]
  rw [consText_append part]
  simp

end Joined

/-! ## Agreement with the readers -/

/-- A cursor comes to what a reader comes to: to the same value in front of the same rest, in so
many placeholders; or to the same problem, reported at the column of the rest. -/
inductive Agrees (text : String) (limit depth : ℕ) {α : Type} :
    Except Failure (α × List Char) → Except Halt (α × Cursor) → Prop where
  | ok {a : α} {rest : List Char} {c : Cursor} (stands : Stands text c rest)
      (depth_eq : c.depth = depth) : Agrees text limit depth (.ok (a, rest)) (.ok (a, c))
  | problem {p : Problem} {rest : List Char} {c : Cursor} (inner : p ≠ .trailingInput)
      (stands : Stands text c rest) :
      Agrees text limit depth (.error (.problem p rest))
        (.error (.error (.templateSyntax text s!"{p.message} at column {c.position + 1}")))
  | tooDeep :
      Agrees text limit depth (.error .tooDeep) (.error (.error (.recursionLimit limit)))

section Agreement

variable {α β : Type} {text : String} {limit depth depth' : ℕ} {c : Cursor} {s rest : List Char}

/-- Agreement of sequences, from that of their parts. -/
theorem Agrees.bind {x : Except Failure (α × List Char)} {m : Moving α} {f : α → Moving β}
    {g : α × List Char → Except Failure (β × List Char)} (h : Agrees text limit depth x (exec m c))
    (hf : ∀ a rest c', x = .ok (a, rest) → Stands text c' rest → c'.depth = depth →
      Agrees text limit depth' (g (a, rest)) (exec (f a) c')) :
    Agrees text limit depth' (x >>= g) (exec (m >>= f) c) := by
  rw [exec_bind]
  generalize exec m c = y at h
  cases h with
  | ok stands hdepth => exact hf _ _ _ rfl stands hdepth
  | problem inner stands => exact .problem inner stands
  | tooDeep => exact .tooDeep

/-- What is made of a value that a reader reads. -/
theorem Agrees.map_bind {x : Except Failure (Scanned α s)} {m : Moving α} {f : α → Moving β}
    {g : Scanned α s → β × List Char} (h : Agrees text limit depth (outcome x) (exec m c))
    (hf : ∀ r c', x = .ok r → Stands text c' r.rest → c'.depth = depth →
      Agrees text limit depth' (.ok (g r)) (exec (f r.value) c')) :
    Agrees text limit depth' (x.map g) (exec (m >>= f) c) := by
  rcases x with failure | r
  · exact h.bind (g := fun _ => .error failure) nofun
  · exact h.bind (g := fun _ => .ok (g r)) fun a rest c' hsame hstands hdepth => by
      cases hsame
      exact hf r c' rfl hstands hdepth

theorem agrees_report {p : Problem} (hp : p ≠ .trailingInput) (h : Stands text c s) :
    Agrees text limit depth (.error (.problem p s)) (exec (report text p.message : Moving α) c) :=
  .problem hp h

theorem agrees_pure {a : α} (h : Stands text c s) (hdepth : c.depth = depth) :
    Agrees text limit depth (.ok (a, s)) (exec (pure a) c) :=
  .ok h hdepth

/-- Behind a scan agreement is what it is where the scan leads to. -/
theorem Reaches.agrees {m : Moving α} {f : α → Moving β} {a : α}
    {x : Except Failure (β × List Char)} (h : Reaches text m c a rest) (hdepth : c.depth = depth)
    (hf : ∀ c', Stands text c' rest → c'.depth = depth →
      Agrees text limit depth' x (exec (f a) c')) :
    Agrees text limit depth' x (exec (m >>= f) c) := by
  obtain ⟨c', hexec, hstands, hsame⟩ := h
  rw [exec_bind_ok hexec]
  exact hf c' hstands (hsame.trans hdepth)

/-- A cursor in front of an opening brace agrees with a reader behind it, if it has enough calls for
what is left of the text. -/
def Tracks (text : String) (limit depth : ℕ) (reader : Reader Segment) : Prop :=
  ∀ c s calls, Stands text c ('$' :: '\x7b' :: s) → c.depth = depth → 6 * s.length + 13 ≤ calls →
    Agrees text limit depth (outcome (reader s)) (exec (placeholder text limit calls) c)

variable {reader : Reader Segment} {stop : Stop} {segments : List Segment} {part : List Char}

/-- What the reader of pieces reads, behind the segments and the text that were read before. -/
def gathered (segments : List Segment) (part : List Char)
    (x : Except Failure (List Piece × List Char)) :
    Except Failure (List Segment × List Char) :=
  x.map fun r => (joined segments part r.1, r.2)

/-- A piece that is read goes to the segments and the text before the others. -/
theorem gathered_of_piece {segments' : List Segment} {part' : List Char} {x : Char} {p : Piece}
    (hgoes : stop.endsAt x = false) (hpiece : TakesPiece (Reads reader) stop (x :: s) p rest)
    (hjoin : ∀ ps, joined segments part (p :: ps) = joined segments' part' ps) :
    gathered segments part (outcome (pieces reader stop (x :: s))) =
      gathered segments' part' (outcome (pieces reader stop rest)) := by
  rw [outcome_pieces_cons hgoes, outcome_eq_ok_iff.mpr (reads_of_takesPiece hpiece), ok_bind]
  rcases outcome (pieces reader stop rest) with failure | ⟨ps, last⟩
  · rfl
  · exact congrArg (fun all => Except.ok (all, last)) (hjoin ps)

theorem gathered_of_braces (hgoes : stop.endsAt '$' = false) :
    gathered segments part (outcome (pieces reader stop ('$' :: '\x7b' :: s))) =
      outcome (reader s) >>= fun r =>
        gathered (flush segments part ++ [r.1]) [] (outcome (pieces reader stop r.2)) := by
  rcases hreader : reader s with failure | ⟨segment, rest, hrest⟩
  · rw [outcome_pieces_cons hgoes]
    simp [piece, hreader, Except.map, outcome, bind, Except.bind, gathered]
  · exact gathered_of_piece hgoes (.braces ⟨hrest, hreader⟩) fun _ => joined_placeholder

section Template

variable {x y : Char} {P : Rule Segment} {calls : ℕ}

/-- In front of a character a cursor moves behind it and adds it to the text before. -/
theorem exec_template_of_char (hgoes : stop.endsAt x = false)
    (hpiece : TakesPiece P stop (x :: s) (.char y) rest) (h : Stands text c (x :: s)) :
    ∃ c', exec (template text limit stop segments part (calls + 1)) c =
        exec (template text limit stop segments (part ++ [y]) calls) c' ∧
      Stands text c' rest ∧ c'.depth = c.depth := by
  rw [template, exec_bind_ok (exec_peek h 0)]
  simp only [List.getElem?_cons_zero, hgoes, Bool.false_eq_true, if_false]
  rw [exec_bind_ok (exec_peek h 1)]
  cases hpiece with
  | escaped hescapes =>
    refine ⟨⟨c.position + 2, c.depth⟩, ?_, h.append (u := ['\\', y]) c.depth, rfl⟩
    rw [if_pos ⟨rfl, hescapes⟩, exec_bind_ok (exec_get c), exec_bind_ok (exec_charAt h rfl)]
    rfl
  | backslash hplain =>
    refine ⟨⟨c.position + 1, c.depth⟩, ?_, h.next, rfl⟩
    have hescapes : ¬(s[0]?.any stop.escapes = true) := by
      rw [← List.head?_eq_getElem?]
      cases s with
      | nil => simp
      | cons next after => simp [hplain next rfl]
    rw [if_neg fun hescaped => hescapes hescaped.2, if_pos (by decide)]
    rfl
  | dollars =>
    refine ⟨⟨c.position + 2, c.depth⟩, ?_, h.append (u := ['$', '$']) c.depth, rfl⟩
    rw [if_neg (by simp), if_neg (by simp), exec_bind_ok (exec_peek h 1)]
    rfl
  | dollar hlone =>
    refine ⟨⟨c.position + 1, c.depth⟩, ?_, h.next, rfl⟩
    rw [if_neg (by simp), if_neg (by simp), exec_bind_ok (exec_peek h 1)]
    cases s with
    | nil => rfl
    | cons next after =>
      obtain ⟨hdollar, hbrace, hword⟩ := hlone next rfl
      simp only [List.getElem?_cons_succ, List.getElem?_cons_zero, hdollar, hbrace, hword,
        Bool.false_eq_true, if_false]
      rfl
  | char hbackslash hdollar =>
    refine ⟨⟨c.position + 1, c.depth⟩, ?_, h.next, rfl⟩
    rw [if_neg fun hescaped => hbackslash hescaped.1, if_pos hdollar]
    rfl

/-- In front of a dollar and a word a cursor moves behind the word. -/
theorem exec_template_of_name {name : List Char} (hgoes : stop.endsAt '$' = false)
    (hname : Text.word s = (name, rest)) (hne : name ≠ []) (h : Stands text c ('$' :: s))
    (hcalls : s.length < calls) :
    ∃ c', exec (template text limit stop segments part (calls + 1)) c =
        exec (template text limit stop (flush segments part ++ [.var (String.ofList name)]) []
          calls) c' ∧
      Stands text c' rest ∧ c'.depth = c.depth := by
  obtain ⟨c', hword, hstands, hdepth⟩ := reaches_word h.next hcalls
  rw [hname] at hword hstands
  refine ⟨c', ?_, hstands, hdepth⟩
  obtain ⟨next, after, rfl, hnext⟩ := exists_cons_of_word hname hne
  have hdollar : next ≠ '$' := by rintro rfl; exact absurd hnext (by decide)
  have hbrace : next ≠ '\x7b' := by rintro rfl; exact absurd hnext (by decide)
  rw [template, exec_bind_ok (exec_peek h 0)]
  simp only [List.getElem?_cons_zero, hgoes, Bool.false_eq_true, if_false]
  rw [exec_bind_ok (exec_peek h 1), if_neg (by simp), if_neg (by simp),
    exec_bind_ok (exec_peek h 1)]
  simp only [List.getElem?_cons_succ, List.getElem?_cons_zero, hdollar, hbrace, hnext, if_false,
    if_true]
  rw [exec_bind_ok (exec_advance 1 c), exec_bind_ok hword]

/-- In front of an opening brace a cursor reads a placeholder. -/
theorem exec_template_of_braces (hgoes : stop.endsAt '$' = false)
    (h : Stands text c ('$' :: '\x7b' :: s)) :
    exec (template text limit stop segments part (calls + 1)) c =
      exec (placeholder text limit calls >>= fun segment =>
        template text limit stop (flush segments part ++ [segment]) [] calls) c := by
  rw [template, exec_bind_ok (exec_peek h 0)]
  simp only [List.getElem?_cons_zero, hgoes, Bool.false_eq_true, if_false]
  rw [exec_bind_ok (exec_peek h 1), if_neg (by simp), if_neg (by simp),
    exec_bind_ok (exec_peek h 1)]
  rfl

end Template

/-- A text begins with an opening brace, with a name behind a dollar, or with a character. -/
theorem braces_or_name_or_char (P : Rule Segment) (stop : Stop) (x : Char) (s : List Char) :
    (∃ after, x = '$' ∧ s = '\x7b' :: after) ∨
      (∃ name rest, x = '$' ∧ Text.word s = (name, rest) ∧ name ≠ []) ∨
      ∃ y rest, TakesPiece P stop (x :: s) (.char y) rest := by
  by_cases hbackslash : x = '\\'
  · subst hbackslash
    right; right
    by_cases hescapes : ∃ next, s.head? = some next ∧ stop.escapes next = true
    · obtain ⟨next, hnext, hescapes⟩ := hescapes
      obtain ⟨after, rfl⟩ := List.head?_eq_some_iff.mp hnext
      exact ⟨_, _, .escaped hescapes⟩
    · exact ⟨_, _, .backslash (by simpa using hescapes)⟩
  by_cases hdollar : x = '$'
  · subst hdollar
    cases s with
    | nil => exact .inr (.inr ⟨_, _, .dollar (by simp)⟩)
    | cons next after =>
      by_cases hdollars : next = '$'
      · subst hdollars
        exact .inr (.inr ⟨_, _, .dollars⟩)
      by_cases hbrace : next = '\x7b'
      · exact .inl ⟨after, rfl, congrArg (· :: after) hbrace⟩
      right
      by_cases hword : isWord next = true
      · exact .inl ⟨_, _, rfl, rfl, by simp [hword]⟩
      · exact .inr ⟨_, _, .dollar (by simp [hdollars, hbrace, hword])⟩
  · exact .inr (.inr ⟨_, _, .char hbackslash hdollar⟩)

theorem agrees_flush (hends : ∀ x, s.head? = some x → stop.endsAt x = true)
    (h : Stands text c s) (hdepth : c.depth = depth) :
    Agrees text limit depth (gathered segments part (outcome (pieces reader stop s)))
      (exec (pure (flush segments part)) c) := by
  rw [outcome_pieces_of_ends hends, ← joined_nil]
  exact .ok h hdepth

variable {calls : ℕ}

/-- A cursor agrees with the reader of pieces, whatever was read before. The induction is on the
calls; every piece takes at least a character, so there are enough of them for the rest. -/
theorem agrees_template (hreader : Tracks text limit depth reader) (h : Stands text c s)
    (hdepth : c.depth = depth) (hcalls : 6 * s.length + 2 ≤ calls) :
    Agrees text limit depth (gathered segments part (outcome (pieces reader stop s)))
      (exec (template text limit stop segments part calls) c) := by
  induction calls generalizing s c segments part with
  | zero => omega
  | succ calls ih =>
  cases s with
  | nil =>
    rw [template, exec_bind_ok (exec_peek h 0)]
    exact agrees_flush (by simp) h hdepth
  | cons x s =>
  by_cases hends : stop.endsAt x = true
  · rw [template, exec_bind_ok (exec_peek h 0)]
    simp only [List.getElem?_cons_zero, hends, if_true]
    exact agrees_flush (by simpa using hends) h hdepth
  have hgoes : stop.endsAt x = false := by simpa using hends
  rw [List.length_cons] at hcalls
  have hname : s.length < calls := by omega
  have henough {rest : List Char} (hle : rest.length ≤ s.length) : 6 * rest.length + 2 ≤ calls := by
    omega
  rcases braces_or_name_or_char (Reads reader) stop x s with
    ⟨after, rfl, rfl⟩ | ⟨name, rest, rfl, hword, hne⟩ | ⟨y, rest, hpiece⟩
  · rw [List.length_cons] at hcalls
    rw [gathered_of_braces hgoes, exec_template_of_braces hgoes h]
    refine (hreader c after calls h hdepth (by omega)).bind
      fun segment rest c' hsegment hstands hdepth' => ?_
    obtain ⟨hle, -⟩ := outcome_eq_ok_iff.mp hsegment
    exact ih hstands hdepth' (henough (Nat.le_succ_of_le hle))
  · obtain ⟨c', hexec, hstands, hsame⟩ := exec_template_of_name hgoes hword hne h hname
    have hpiece : TakesPiece (Reads reader) stop ('$' :: s) _ rest := .name hword hne
    obtain ⟨hle, -⟩ := reads_of_takesPiece hpiece
    rw [gathered_of_piece hgoes hpiece fun _ => joined_placeholder, hexec]
    exact ih hstands (hsame.trans hdepth) (henough hle)
  · obtain ⟨c', hexec, hstands, hsame⟩ := exec_template_of_char hgoes hpiece h
    obtain ⟨hle, -⟩ := reads_of_takesPiece hpiece
    rw [gathered_of_piece hgoes hpiece fun _ => joined_char, hexec]
    exact ih hstands (hsame.trans hdepth) (henough hle)

/-- A whole template, and what is done with it. -/
theorem agrees_segments {f : List Segment → Moving β}
    {g : List Piece × List Char → Except Failure (β × List Char)}
    (hreader : Tracks text limit depth reader) (h : Stands text c s) (hdepth : c.depth = depth)
    (hcalls : 6 * s.length + 2 ≤ calls) (hf : ∀ ps rest c', Reads (pieces reader stop) s ps rest →
      Stands text c' rest → c'.depth = depth →
      Agrees text limit depth (g (ps, rest)) (exec (f (ofPieces ps)) c')) :
    Agrees text limit depth (outcome (pieces reader stop s) >>= g)
      (exec (template text limit stop [] [] calls >>= f) c) := by
  have hall : Agrees text limit depth (gathered [] [] (outcome (pieces reader stop s)))
      (exec (template text limit stop [] [] calls) c) := agrees_template hreader h hdepth hcalls
  rw [exec_bind]
  generalize exec (template text limit stop [] [] calls) c = y at hall
  rcases hx : outcome (pieces reader stop s) with failure | ⟨ps, rest⟩ <;> rw [hx] at hall
  · cases hall with
    | problem inner stands => exact .problem inner stands
    | tooDeep => exact .tooDeep
  · cases hall with
    | ok stands hdepth' => exact hf ps rest _ (outcome_eq_ok_iff.mp hx) stands hdepth'

/-! ### Arguments -/

variable {key : Option String}

/-- An argument in quotes is cut out between its quotes. -/
theorem agrees_quoted {q : Char} (hreader : Tracks text limit depth reader)
    (hq : q = '"' ∨ q = '\'') (h : Stands text c (q :: s)) (hdepth : c.depth = depth)
    (hcalls : 6 * (q :: s).length + 3 ≤ calls) :
    Agrees text limit depth (outcome (argumentValue reader key (q :: s)))
      (exec (quoted text limit key q calls) c) := by
  rw [List.length_cons] at hcalls
  obtain _ | calls := calls
  · omega
  rw [quoted, exec_bind_ok (exec_get c), exec_bind_ok (exec_advance 1 c),
    outcome_argumentValue_quote hq]
  refine agrees_segments hreader h.next hdepth (by omega)
    fun ps rest c' hpieces hstands hdepth' => ?_
  cases rest with
  | nil =>
    rw [exec_bind_ok (exec_eat_of_ne hstands (by simp))]
    exact agrees_report nofun hstands
  | cons q' after =>
    have hends : q' = q := by
      simpa [Stop.endsAt] using (reads_pieces_iff.mp hpieces).endsAt_of_cons
    subst hends
    obtain ⟨hle, -⟩ := hpieces
    have hsource := exec_cut h.next hstands hle ⟨c'.position + 1, c'.depth⟩
    have hraw := exec_cut h hstands.next (Nat.le_succ_of_le (Nat.le_of_succ_le hle))
      ⟨c'.position + 1, c'.depth⟩
    rw [exec_bind_ok (exec_eat_cons hstands), if_pos rfl, exec_bind_ok (exec_get _)]
    dsimp only
    rw [before, exec_bind_ok (exec_pure _ _), exec_bind_ok hsource, exec_bind_ok hraw]
    exact agrees_pure hstands.next hdepth'

/-- An argument without quotes is cut out up to where its template ends. -/
theorem agrees_unquoted (hreader : Tracks text limit depth reader)
    (hs : ∀ q, s.head? = some q → ¬(q = '"' ∨ q = '\'')) (h : Stands text c s)
    (hdepth : c.depth = depth) (hcalls : 6 * s.length + 3 ≤ calls) :
    Agrees text limit depth (outcome (argumentValue reader key s))
      (exec (unquoted text limit key calls) c) := by
  obtain _ | calls := calls
  · omega
  rw [unquoted, exec_bind_ok (exec_get c), outcome_argumentValue_of_not hs]
  refine agrees_segments hreader h hdepth (by omega) fun ps rest c' hpieces hstands hdepth' => ?_
  obtain ⟨hle, -⟩ := hpieces
  by_cases hempty : (trimLast (ofPieces ps)).isEmpty = true
  · simp only [hempty, if_true]
    exact agrees_report nofun hstands
  · simp only [hempty, Bool.false_eq_true, if_false]
    rw [exec_bind_ok (exec_get c'), exec_bind_ok (exec_cut h hstands hle c')]
    exact agrees_pure hstands hdepth'

theorem agrees_argument (hreader : Tracks text limit depth reader) (h : Stands text c s)
    (hdepth : c.depth = depth) (hcalls : 6 * s.length + 4 ≤ calls) :
    Agrees text limit depth (outcome (Template.argument reader s))
      (exec (argument text limit calls) c) := by
  obtain _ | calls := calls
  · omega
  have hskipped := length_skipBlanks_le s
  have hkeyword := length_keyword_le (skipBlanks s)
  have hvalue := length_skipBlanks_le (Template.keyword (skipBlanks s)).2
  rw [argument, outcome_argument]
  refine (reaches_skipBlanks h (by omega)).agrees hdepth fun c₁ h₁ hdepth₁ => ?_
  refine (reaches_keyword h₁ (by omega)).agrees hdepth₁ fun c₂ h₂ hdepth₂ => ?_
  refine (reaches_skipBlanks h₂ (by omega)).agrees hdepth₂ fun c₃ h₃ hdepth₃ => ?_
  rw [exec_bind_ok (exec_peek h₃ 0), ← List.head?_eq_getElem?]
  cases hrest : skipBlanks (Template.keyword (skipBlanks s)).2 with
  | nil =>
    rw [hrest] at h₃ hvalue
    exact agrees_unquoted hreader (by simp) h₃ hdepth₃ (by omega)
  | cons q inner =>
    rw [hrest] at h₃ hvalue
    simp only [List.head?_cons]
    split
    · next hq => exact agrees_quoted hreader hq h₃ hdepth₃ (by omega)
    · next hq => exact agrees_unquoted hreader (by simpa using hq) h₃ hdepth₃ (by omega)

/-- A cursor agrees with the reader of arguments, whatever arguments were read before. The induction
is on the calls; behind a comma the text is shorter. -/
theorem agrees_moreArguments {args : List Argument} (hreader : Tracks text limit depth reader)
    (h : Stands text c s) (hdepth : c.depth = depth) (hcalls : 6 * s.length + 5 ≤ calls) :
    Agrees text limit depth
      ((fun r => (args ++ r.1, r.2)) <$> outcome (Template.moreArguments reader s))
      (exec (moreArguments text limit args calls) c) := by
  induction calls generalizing s c args with
  | zero => omega
  | succ calls ih =>
  rw [moreArguments, outcome_moreArguments, map_bind]
  refine (agrees_argument hreader h hdepth (by omega)).bind fun a mid c₁ ha h₁ hdepth₁ => ?_
  obtain ⟨hle, -⟩ := outcome_eq_ok_iff.mp ha
  have hblanks := length_skipBlanks_le mid
  refine (reaches_skipBlanks h₁ (by omega)).agrees hdepth₁ fun c₂ h₂ hdepth₂ => ?_
  cases hrest : skipBlanks mid with
  | nil =>
    rw [hrest] at h₂
    rw [exec_bind_ok (exec_eat_of_ne h₂ (by simp)), if_neg (by simp),
      exec_bind_ok (exec_eat_of_ne h₂ (by simp))]
    exact agrees_report nofun h₂
  | cons x after =>
    rw [hrest] at h₂ hblanks
    rw [List.length_cons] at hblanks
    by_cases hcomma : x = ','
    · subst hcomma
      have hmore : (fun r => (args ++ r.1, r.2)) <$> (do
            let more ← outcome (Template.moreArguments reader after)
            return (a :: more.1, more.2)) =
          (fun r => (args ++ [a] ++ r.1, r.2)) <$>
            outcome (Template.moreArguments reader after) := by
        simp
      rw [exec_bind_ok (exec_eat_cons h₂), if_pos rfl]
      simp only [if_true]
      rw [hmore]
      exact ih h₂.next hdepth₂ (by omega)
    rw [exec_bind_ok (exec_eat_of_ne h₂ (by simp [hcomma])), if_neg (by simp)]
    by_cases hclosed : x = ')'
    · subst hclosed
      rw [exec_bind_ok (exec_eat_cons h₂)]
      exact agrees_pure h₂.next hdepth₂
    · rw [exec_bind_ok (exec_eat_of_ne h₂ (by simp [hclosed]))]
      simp only [hcomma, hclosed, if_false]
      exact agrees_report nofun h₂

theorem agrees_arguments (hreader : Tracks text limit depth reader) (h : Stands text c s)
    (hdepth : c.depth = depth) (hcalls : 6 * s.length + 6 ≤ calls) :
    Agrees text limit depth (outcome (Template.arguments reader s))
      (exec (arguments text limit calls) c) := by
  obtain _ | calls := calls
  · omega
  have hblanks := length_skipBlanks_le s
  rw [arguments, outcome_arguments]
  refine (reaches_skipBlanks h (by omega)).agrees hdepth fun c₁ h₁ hdepth₁ => ?_
  split
  · next after hafter =>
    rw [hafter] at h₁
    rw [exec_bind_ok (exec_eat_cons h₁)]
    exact agrees_pure h₁.next hdepth₁
  · next hother =>
    rw [exec_bind_ok (exec_eat_of_ne h₁ hother)]
    have hall : Agrees text limit depth
        ((fun r => ([] ++ r.1, r.2)) <$> outcome (Template.moreArguments reader (skipBlanks s)))
        (exec (moreArguments text limit [] calls) c₁) :=
      agrees_moreArguments hreader h₁ hdepth₁ (by omega)
    simpa using hall

/-! ### Placeholders -/

theorem agrees_nameAndArguments (hreader : Tracks text limit depth reader)
    (h : Stands text c s) (hdepth : c.depth = depth) (hcalls : 6 * s.length + 2 ≤ calls) :
    Agrees text limit depth (outcome (Template.nameAndArguments reader s))
      (exec (nameAndArguments text limit calls) c) := by
  obtain _ | calls := calls
  · omega
  have hskipped := length_skipBlanks_le s
  have hword := length_word_le (skipBlanks s)
  have hblanks := length_skipBlanks_le (Text.word (skipBlanks s)).2
  rw [nameAndArguments, outcome_nameAndArguments]
  refine (reaches_skipBlanks h (by omega)).agrees hdepth fun c₁ h₁ hdepth₁ => ?_
  refine (reaches_word h₁ (by omega)).agrees hdepth₁ fun c₂ h₂ hdepth₂ => ?_
  dsimp only
  split
  · next hname =>
    rw [word_snd_of_fst_eq_nil (List.isEmpty_iff.mp hname)] at h₂
    exact agrees_report nofun h₂
  refine (reaches_skipBlanks h₂ (by omega)).agrees hdepth₂ fun c₃ h₃ hdepth₃ => ?_
  split
  · next after hafter =>
    rw [hafter] at h₃ hblanks
    rw [List.length_cons] at hblanks
    rw [exec_bind_ok (exec_eat_cons h₃), if_pos rfl]
    refine (agrees_arguments hreader h₃.next hdepth₃ (by omega)).bind
      fun args rest c' _ h' hdepth' => ?_
    exact agrees_pure h' hdepth'
  · next hother =>
    rw [exec_bind_ok (exec_eat_of_ne h₃ hother)]
    exact agrees_pure h₃ hdepth₃

/-- A cursor in front of a placeholder agrees with the reader that has as much room as is left up to
the limit. -/
theorem tracks_placeholder {room : ℕ} (hroom : depth + room = limit) :
    Tracks text limit depth (Template.placeholder room) := by
  induction room generalizing depth with
  | zero =>
    intro c s calls h hdepth hcalls
    obtain _ | calls := calls
    · omega
    have hfull : limit ≤ c.depth := by omega
    rw [placeholder, exec_bind_ok (exec_advance 2 c), exec_bind_error (exec_enter_of_le hfull)]
    exact .tooDeep
  | succ room ih =>
    intro c s calls h hdepth hcalls
    obtain _ | calls := calls
    · omega
    have hfree : c.depth < limit := by omega
    have hinside : Stands text ⟨c.position + 2, c.depth + 1⟩ s :=
      h.append (u := ['$', '\x7b']) (c.depth + 1)
    have hreader : Tracks text limit (c.depth + 1) (Template.placeholder room) :=
      ih (by omega)
    rw [placeholder, exec_bind_ok (exec_advance 2 c), exec_bind_ok (exec_enter_of_lt hfree),
      outcome_placeholder_succ]
    refine (agrees_nameAndArguments hreader hinside rfl (by omega)).bind
      fun segment mid c₁ hsegment h₁ hdepth₁ => ?_
    obtain ⟨hle, -⟩ := outcome_eq_ok_iff.mp hsegment
    refine (reaches_skipBlanks h₁ (by omega)).agrees hdepth₁ fun c₂ h₂ hdepth₂ => ?_
    dsimp only
    split
    · next after hafter =>
      rw [hafter] at h₂
      rw [exec_bind_ok (exec_eat_cons h₂), if_pos rfl, hdepth₂, exec_bind_ok exec_leave]
      exact agrees_pure (h₂.next.setDepth _) hdepth
    · next hother =>
      rw [exec_bind_ok (exec_eat_of_ne h₂ hother)]
      exact agrees_report nofun h₂

/-! ### Whole texts -/

theorem exec_finish_nil {a : α} (h : Stands text c []) :
    exec (finish text a) c = .ok (a, c) := by
  have hlength := h.length_eq
  rw [List.length_nil, Nat.add_zero] at hlength
  rw [finish, exec_bind_ok (exec_get c), if_pos (Nat.le_of_eq hlength.symm), exec_pure]

/-- A problem is reported at the column that the rest begins at. -/
theorem toError_problem (limit : ℕ) (p : Problem) (h : Stands text c rest) :
    (Fault.ofFailure text.toList limit (.problem p rest)).toError text =
      .templateSyntax text s!"{p.message} at column {c.position + 1}" := by
  have hcolumn : text.toList.length - rest.length = c.position := by
    have := h.length_eq
    omega
  rw [← hcolumn]
  rfl

theorem exec_finish_cons {a : α} {x : Char} (h : Stands text c (x :: s)) :
    exec (finish text a) c = .error (.error ((Fault.ofFailure text.toList limit
      (.problem .trailingInput (x :: s))).toError text)) := by
  have hlength := h.length_eq
  rw [List.length_cons] at hlength
  rw [finish, exec_bind_ok (exec_get c), if_neg (by omega), toError_problem limit _ h]
  rfl

/-- A template is read to the end of the text, so nothing is left of it. -/
theorem agrees_wholeTemplate (limit : ℕ) (hcalls : 6 * text.length + 2 ≤ calls) :
    Agrees text limit 0
      (outcome (pieces (Template.placeholder limit) .never text.toList) >>= fun r =>
        .ok (⟨ofPieces r.1⟩, r.2))
      (exec (wholeTemplate text limit calls) ⟨0, 0⟩) := by
  rw [← String.length_toList] at hcalls
  refine agrees_segments (tracks_placeholder (Nat.zero_add limit)) (stands_start text) rfl hcalls
    fun ps rest c' hpieces hstands hdepth => ?_
  obtain rfl := (reads_pieces_iff.mp hpieces).rest_of_never
  rw [exec_finish_nil hstands]
  exact .ok hstands hdepth

theorem agrees_bareCall (h : Stands text c s) (hdepth : c.depth = 0)
    (hcalls : 6 * s.length + 1 ≤ calls) :
    Agrees text limit 0 (Template.bareCall limit s) (exec (bareCall text limit calls) c) := by
  have hword := length_word_le s
  have hblanks := length_skipBlanks_le (Text.word s).2
  have hreader : Tracks text limit 0 (Template.placeholder limit) :=
    tracks_placeholder (Nat.zero_add limit)
  rw [bareCall, Template.bareCall]
  refine (reaches_word h (by omega)).agrees hdepth fun c₁ h₁ hdepth₁ => ?_
  dsimp only
  split
  · next hname =>
    rw [word_snd_of_fst_eq_nil (List.isEmpty_iff.mp hname)] at h₁
    exact agrees_report nofun h₁
  refine (reaches_skipBlanks h₁ (by omega)).agrees hdepth₁ fun c₂ h₂ hdepth₂ => ?_
  split
  · next after hafter =>
    rw [hafter] at h₂ hblanks
    rw [List.length_cons] at hblanks
    rw [exec_bind_ok (exec_eat_cons h₂), if_pos rfl]
    refine (agrees_arguments hreader h₂.next hdepth₂ (by omega)).map_bind
      fun args c' _ h' hdepth' => ?_
    exact agrees_pure h' hdepth'
  · next hother =>
    rw [exec_bind_ok (exec_eat_of_ne h₂ hother)]
    exact agrees_pure h₂ hdepth₂

theorem agrees_callInFront (limit : ℕ) (hcalls : 6 * text.length + 1 ≤ calls) :
    Agrees text limit 0 (Template.callInFront limit text.toList)
      (exec (callInFront text limit calls) ⟨0, 0⟩) := by
  rw [← String.length_toList] at hcalls
  have hstart := stands_start text
  rw [callInFront]
  unfold Template.callInFront
  split
  · next inner htext =>
    rw [htext] at hstart hcalls
    rw [List.length_cons, List.length_cons] at hcalls
    rw [if_pos (by simp [htext])]
    have hagrees := tracks_placeholder (Nat.zero_add limit) ⟨0, 0⟩ inner calls hstart rfl (by omega)
    refine hagrees.map_bind fun r c hr h hdepth => ?_
    obtain ⟨segment, rest, hrest⟩ := r
    cases segment with
    | call call => exact agrees_pure h hdepth
    | var name => exact agrees_pure h hdepth
    | text t =>
      have htaken : Reads (Template.placeholder limit) inner (.text t) rest := ⟨hrest, hr⟩
      rw [reads_placeholder] at htaken
      exact absurd htaken not_takesPlaceholder_text
  · next hother =>
    have hbare : ¬(['$', '\x7b'].isPrefixOf text.toList = true) := by
      rw [List.isPrefixOf_iff_prefix]
      exact fun hprefix => hprefix.elim fun after hafter => hother after hafter.symm
    rw [if_neg hbare]
    exact agrees_bareCall hstart rfl hcalls

end Agreement

/-- A cursor reads a text as a template the way the parser does. -/
theorem parse_eq (limit : ℕ) {text : String} {calls : ℕ} (hcalls : 6 * text.length + 2 ≤ calls) :
    parse calls limit text = (Template.parse limit text).mapError .error := by
  have h := agrees_wholeTemplate limit hcalls
  rw [parse, run_eq, Template.parse, read]
  generalize exec (wholeTemplate text limit calls) ⟨0, 0⟩ = y at h ⊢
  generalize pieces (Template.placeholder limit) .never text.toList = x at h ⊢
  rcases x with failure | ⟨ps, rest, hrest⟩
  · cases h with
    | problem inner stands =>
      rw [← toError_problem limit _ stands]
      rfl
    | tooDeep => rfl
  · cases h with
    | ok stands => rfl

/-- A cursor reads a text as a call the way the parser does, from the first character that is no
blank. -/
theorem parseCall_eq (limit : ℕ) {text : String} {calls : ℕ}
    (hcalls : 6 * (trimmed text).length + 1 ≤ calls) :
    parseCall calls limit text = (Template.parseCall limit text).mapError .error := by
  have htext : (trimmed text).toList = trim text.toList := String.toList_ofList
  have h := agrees_callInFront limit hcalls
  rw [parseCall, run_eq, Template.parseCall, readCall, ← htext, wholeCall, exec_bind]
  generalize exec (callInFront (trimmed text) limit calls) ⟨0, 0⟩ = y at h ⊢
  generalize Template.callInFront limit (trimmed text).toList = x at h ⊢
  rcases x with failure | ⟨call, rest⟩
  · cases h with
    | problem inner stands =>
      rw [← toError_problem limit _ stands]
      rfl
    | tooDeep => rfl
  · cases h with
    | ok stands =>
      have hlength := stands.length_eq
      rw [String.length_toList] at hlength
      have hrest : rest.length < calls := by omega
      obtain ⟨c', hskip, h', -⟩ := reaches_skipBlanks stands hrest
      dsimp only
      rw [exec_bind_ok hskip]
      cases hend : skipBlanks rest with
      | nil =>
        rw [hend] at h'
        rw [exec_finish_nil h']
        rfl
      | cons x after =>
        rw [hend] at h'
        rw [exec_finish_cons h']
        rfl

end Cursor

end Casebook.Template
