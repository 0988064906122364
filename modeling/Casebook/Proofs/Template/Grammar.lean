import Casebook.Proofs.Computation
import Casebook.Proofs.Text.Scanning
import Casebook.Template.Parser
import Mathlib.Data.Nat.Notation

/-!
# The grammar of templates

The rules that the readers of templates follow, as relations between a text, what is taken from its
front and the rest that is left. A rule for what may hold placeholders is stated for any rule `P` of
what follows an opening brace; `TakesPlaceholder` ties the knot, one level of nesting at a time.

For every reader there is a lemma that says it reads what its rule takes, so what holds of all that
is read is proved by induction on these rules, and a text is read by building a derivation for it.
-/

namespace Casebook.Template

open Text Casebook.Computation

/-- What is taken from the front of a text, and the rest that is left. -/
abbrev Rule (α : Type) := List Char → α → List Char → Prop

/-- A reader reads a value from the front of a text and leaves a rest. -/
def Reads {α : Type} (reader : Reader α) : Rule α :=
  fun s a rest => ∃ h, reader s = .ok ⟨a, rest, h⟩

section Rules

variable (P : Rule Segment)

/-- The piece that a text which is not empty begins with. -/
inductive TakesPiece (stop : Stop) : Rule Piece where
  /-- A backslash that is dropped. -/
  | escaped {x : Char} {rest : List Char} (escapes : stop.escapes x = true) :
      TakesPiece stop ('\\' :: x :: rest) (.char x) rest
  | backslash {rest : List Char} (plain : ∀ x, rest.head? = some x → stop.escapes x = false) :
      TakesPiece stop ('\\' :: rest) (.char '\\') rest
  /-- Two dollars are one. -/
  | dollars {rest : List Char} : TakesPiece stop ('$' :: '$' :: rest) (.char '$') rest
  | braces {s : List Char} {segment : Segment} {rest : List Char} (inner : P s segment rest) :
      TakesPiece stop ('$' :: '\x7b' :: s) (.placeholder segment) rest
  | name {s name rest : List Char} (word_eq : word s = (name, rest)) (ne_nil : name ≠ []) :
      TakesPiece stop ('$' :: s) (.placeholder (.var (String.ofList name))) rest
  | dollar {rest : List Char}
      (lone : ∀ x, rest.head? = some x → x ≠ '$' ∧ x ≠ '\x7b' ∧ isWord x = false) :
      TakesPiece stop ('$' :: rest) (.char '$') rest
  | char {c : Char} {rest : List Char} (ne_backslash : c ≠ '\\') (ne_dollar : c ≠ '$') :
      TakesPiece stop (c :: rest) (.char c) rest

/-- The pieces of a template up to its stop. -/
inductive TakesPieces (stop : Stop) : Rule (List Piece) where
  | done {s : List Char} (ends : ∀ c, s.head? = some c → stop.endsAt c = true) :
      TakesPieces stop s [] s
  | more {c : Char} {s mid rest : List Char} {p : Piece} {ps : List Piece}
      (goes_on : stop.endsAt c = false) (first : TakesPiece P stop (c :: s) p mid)
      (others : TakesPieces stop mid ps rest) : TakesPieces stop (c :: s) (p :: ps) rest

/-- The text in front of a rest of it. -/
def taken (s rest : List Char) : List Char :=
  s.take (s.length - rest.length)

theorem taken_append (u rest : List Char) : taken (u ++ rest) rest = u := by
  rw [taken, List.length_append, Nat.add_sub_cancel, List.take_left']
  rfl

/-- The value of an argument, behind its keyword and blanks. -/
inductive TakesValue (key : Option String) : Rule Argument where
  | quoted {q : Char} {s rest : List Char} {ps : List Piece} (quote : q = '"' ∨ q = '\'')
      (body : TakesPieces P (.quote q) s ps (q :: rest)) :
      TakesValue key (q :: s)
        (.quoted key q (ofPieces ps) (String.ofList (taken s (q :: rest)))) rest
  | unquoted {c : Char} {s rest : List Char} {ps : List Piece}
      (no_quote : ¬(c = '"' ∨ c = '\'')) (body : TakesPieces P .argument (c :: s) ps rest)
      (ne_nil : trimLast (ofPieces ps) ≠ []) :
      TakesValue key (c :: s) (unquoted key (trimLast (ofPieces ps))
        (String.ofList (trimEnd (taken (c :: s) rest)))) rest

/-- One argument. -/
def TakesArgument : Rule Argument :=
  fun s => TakesValue P (keyword (skipBlanks s)).1 (skipBlanks (keyword (skipBlanks s)).2)

/-- Arguments up to and including the closing parenthesis. -/
inductive TakesMore : Rule (List Argument) where
  | last {s mid rest : List Char} {a : Argument} (first : TakesArgument P s a mid)
      (closed : skipBlanks mid = ')' :: rest) : TakesMore s [a] rest
  | more {s mid next rest : List Char} {a : Argument} {args : List Argument}
      (first : TakesArgument P s a mid) (comma : skipBlanks mid = ',' :: next)
      (others : TakesMore next args rest) : TakesMore s (a :: args) rest

/-- The arguments behind an opening parenthesis, up to and including the closing one. -/
inductive TakesArguments : Rule (List Argument) where
  | none {s rest : List Char} (closed : skipBlanks s = ')' :: rest) : TakesArguments s [] rest
  | some {s rest : List Char} {args : List Argument} (opened : (skipBlanks s).head? ≠ some ')')
      (all : TakesMore P (skipBlanks s) args rest) : TakesArguments s args rest

/-- A name and perhaps arguments, between blanks. -/
inductive TakesName : Rule Segment where
  | var {s name mid : List Char} (word_eq : word (skipBlanks s) = (name, mid)) (ne_nil : name ≠ [])
      (no_call : (skipBlanks mid).head? ≠ some '(') :
      TakesName s (.var (String.ofList name)) (skipBlanks mid)
  | call {s name mid next rest : List Char} {args : List Argument}
      (word_eq : word (skipBlanks s) = (name, mid)) (ne_nil : name ≠ [])
      (opened : skipBlanks mid = '(' :: next) (all : TakesArguments P next args rest) :
      TakesName s (.call ⟨String.ofList name, args⟩) rest

end Rules

/-- A placeholder behind its opening brace, with room for so many levels. -/
def TakesPlaceholder : ℕ → Rule Segment
  | 0 => fun _ _ _ => False
  | room + 1 => fun s segment rest =>
    ∃ mid, TakesName (TakesPlaceholder room) s segment mid ∧ skipBlanks mid = '\x7d' :: rest

/-- The rest of pieces begins with what their stop ends at. -/
theorem TakesPieces.endsAt_of_cons {P : Rule Segment} {stop : Stop} {s rest : List Char}
    {ps : List Piece} {c : Char} (h : TakesPieces P stop s ps (c :: rest)) :
    stop.endsAt c = true := by
  generalize hlast : c :: rest = last at h
  induction h with
  | done ends => exact ends c (by rw [← hlast]; rfl)
  | more _ _ _ ih => exact ih hlast

/-! ## Characters that mean nothing -/

/-- The characters that the text of a template may stop at, or that change how it goes on. -/
def specialChars : List Char :=
  ['$', '\\', '"', '\'', ',', ')']

/-- A character that means nothing wherever it stands in the text of a template. -/
def Inert (c : Char) : Prop :=
  c ∉ specialChars

instance (c : Char) : Decidable (Inert c) :=
  inferInstanceAs (Decidable (c ∉ specialChars))

theorem Inert.ne_dollar {c : Char} (hc : Inert c) : c ≠ '$' := by
  rintro rfl
  exact hc (by decide)

theorem Inert.ne_backslash {c : Char} (hc : Inert c) : c ≠ '\\' := by
  rintro rfl
  exact hc (by decide)

theorem inert_of_isWord {c : Char} (hc : isWord c = true) : Inert c := by
  intro hmem
  have hspecial : specialChars.all (fun x => !isWord x) = true := by decide
  have hc' := List.all_eq_true.mp hspecial c hmem
  rw [hc] at hc'
  cases hc'

theorem inert_of_isBlank {c : Char} (hc : isBlank c = true) : Inert c := by
  intro hmem
  have hspecial : specialChars.all (fun x => !isBlank x) = true := by decide
  have hc' := List.all_eq_true.mp hspecial c hmem
  rw [hc] at hc'
  cases hc'

/-- A stop that neither a dollar nor a character that means nothing is a part of. -/
structure Stop.IsUsual (stop : Stop) : Prop where
  escapes : stop.escapes '$' = false
  goes_on : stop.endsAt '$' = false
  inert {c : Char} (h : Inert c) : stop.endsAt c = false

theorem isUsual_never : Stop.never.IsUsual :=
  ⟨rfl, rfl, fun _ => rfl⟩

theorem isUsual_argument : Stop.argument.IsUsual := by
  refine ⟨rfl, rfl, fun {c} hc => ?_⟩
  simp only [Inert, specialChars, List.mem_cons, not_or] at hc
  simp [Stop.endsAt, hc]

theorem isUsual_quote {q : Char} (hq : q = '"' ∨ q = '\'') : (Stop.quote q).IsUsual := by
  rcases hq with rfl | rfl
  all_goals
    refine ⟨rfl, rfl, fun {c} hc => ?_⟩
    simp only [Inert, specialChars, List.mem_cons, not_or] at hc
    simp [Stop.endsAt, hc]

/-- Text that means nothing is pieces of one character each. -/
theorem TakesPieces.append_inert {P : Rule Segment} {stop : Stop} (hstop : stop.IsUsual)
    {text s rest : List Char} {ps : List Piece} (htext : ∀ c ∈ text, Inert c)
    (h : TakesPieces P stop s ps rest) :
    TakesPieces P stop (text ++ s) (text.map .char ++ ps) rest := by
  induction text with
  | nil => exact h
  | cons c text ih =>
    have hc := htext c List.mem_cons_self
    exact .more (hstop.inert hc) (.char hc.ne_backslash hc.ne_dollar)
      (ih fun x hx => htext x (List.mem_cons_of_mem c hx))

/-! ## Keywords -/

/-- A keyword is a word in front of an equals sign that is not doubled. -/
theorem keyword?_eq_some_iff {s after : List Char} {name : String} :
    keyword? s = some (name, after) ↔ ∃ w mid, word s = (w, mid) ∧ w ≠ [] ∧
      skipBlanks mid = '=' :: after ∧ after.head? ≠ some '=' ∧ String.ofList w = name := by
  constructor
  · intro h
    unfold keyword? at h
    split at h
    · cases h
    next w mid hw hword =>
    split at h
    · next next hnext =>
      split at h
      · cases h
      · next hsingle =>
        cases h
        exact ⟨w, mid, hword, hw, hnext, hsingle, rfl⟩
    · cases h
  · intro hread
    obtain ⟨w, mid, hword, hw, hnext, hsingle, rfl⟩ := hread
    obtain ⟨c, w, rfl⟩ := List.exists_cons_of_ne_nil hw
    unfold keyword?
    simp only [hword, hnext, if_neg hsingle]

/-! ## Readers follow the rules -/

section Readers

variable {placeholder : Reader Segment} {stop : Stop} {s rest : List Char}

/-- The piece that is read where a text begins with a dollar. -/
theorem takesPiece_of_dollar {p : Piece} (h : Reads (piece placeholder stop '$') s p rest) :
    TakesPiece (Reads placeholder) stop ('$' :: s) p rest := by
  obtain ⟨hle, h⟩ := h
  unfold piece at h
  rw [if_neg (by decide), if_pos rfl] at h
  split at h
  · cases h
    exact .dollar (by simp)
  next x after _ =>
  split at h
  · next hx =>
    subst hx
    cases h
    exact .dollars
  split at h
  · next hx =>
    subst hx
    obtain ⟨⟨segment, rest, hrest⟩, hinner, h⟩ := map_eq_ok.mp h
    cases h
    exact .braces ⟨hrest, hinner⟩
  split at h
  · next hx =>
    cases h
    refine .name rfl ?_
    simp [word, hx]
  · next hdollar hbrace hword =>
    cases h
    exact .dollar (by simpa using And.intro hdollar ⟨hbrace, by simpa using hword⟩)

theorem takesPiece_of_reads {c : Char} {p : Piece} (h : Reads (piece placeholder stop c) s p rest) :
    TakesPiece (Reads placeholder) stop (c :: s) p rest := by
  by_cases hdollar : c = '$'
  · subst hdollar
    exact takesPiece_of_dollar h
  obtain ⟨hle, h⟩ := h
  unfold piece at h
  split at h
  · next hc =>
    subst hc
    split at h
    · cases h
      exact .backslash (by simp)
    · next x after _ =>
      split at h
      · next hx =>
        cases h
        exact .escaped hx
      · next hx =>
        cases h
        exact .backslash (by simpa using hx)
  · next hbackslash =>
    cases h
    exact .char hbackslash hdollar

theorem reads_of_takesPiece {c : Char} {p : Piece}
    (h : TakesPiece (Reads placeholder) stop (c :: s) p rest) :
    Reads (piece placeholder stop c) s p rest := by
  cases h with
  | escaped hx => exact ⟨Nat.le_succ _, by simp [piece, hx]⟩
  | backslash hx =>
    refine ⟨Nat.le_refl _, ?_⟩
    cases s with
    | nil => simp [piece]
    | cons x after => simp [piece, hx x rfl]
  | dollars => exact ⟨Nat.le_succ _, by simp [piece]⟩
  | braces hinner =>
    obtain ⟨hle, hinner⟩ := hinner
    exact ⟨Nat.le_succ_of_le hle, by simp [piece, hinner, Except.map]⟩
  | name hword hname =>
    obtain ⟨x, after, rfl, hx⟩ := exists_cons_of_word hword hname
    have hdollar : x ≠ '$' := by rintro rfl; exact absurd hx (by decide)
    have hbrace : x ≠ '\x7b' := by rintro rfl; exact absurd hx (by decide)
    exact ⟨by simpa [hword] using length_word_le (x :: after),
      by simp [piece, hdollar, hbrace, hx, hword]⟩
  | dollar hlone =>
    refine ⟨Nat.le_refl _, ?_⟩
    cases s with
    | nil => simp [piece]
    | cons x after =>
      obtain ⟨hdollar, hbrace, hword⟩ := hlone x rfl
      simp [piece, hdollar, hbrace, hword]
  | char hbackslash hdollar => exact ⟨Nat.le_refl _, by simp [piece, hbackslash, hdollar]⟩

theorem reads_piece_iff {c : Char} {p : Piece} :
    Reads (piece placeholder stop c) s p rest ↔
      TakesPiece (Reads placeholder) stop (c :: s) p rest :=
  ⟨takesPiece_of_reads, reads_of_takesPiece⟩

theorem reads_pieces_iff {ps : List Piece} :
    Reads (pieces placeholder stop) s ps rest ↔
      TakesPieces (Reads placeholder) stop s ps rest := by
  constructor
  · -- Each piece takes at least a character, so the rest is shorter.
    induction hn : s.length using Nat.strongRecOn generalizing s ps with
    | ind n ih =>
    intro hread
    obtain ⟨hle, h⟩ := hread
    unfold pieces at h
    split at h
    · cases h
      exact .done (by simp)
    next c s =>
    split at h
    · next hends =>
      cases h
      exact .done (by simpa using hends)
    · next hends =>
      obtain ⟨⟨p, mid, hmid⟩, hp, h⟩ := bind_eq_ok.mp h
      obtain ⟨⟨others, last, hlast⟩, hothers, h⟩ := bind_eq_ok.mp h
      cases h
      subst hn
      exact .more (by simpa using hends) (reads_piece_iff.mp ⟨hmid, hp⟩)
        (ih _ (Nat.lt_succ_of_le hmid) rfl ⟨hlast, hothers⟩)
  · intro h
    induction h with
    | @done s hends =>
      refine ⟨Nat.le_refl _, ?_⟩
      unfold pieces
      cases s with
      | nil => rfl
      | cons c s => simp [hends c rfl]
    | @more c s mid rest p ps hgoes hp _ ih =>
      obtain ⟨hmid, hp⟩ := reads_piece_iff.mpr hp
      obtain ⟨hrest, hothers⟩ := ih
      refine ⟨Nat.le_succ_of_le (Nat.le_trans hrest hmid), ?_⟩
      unfold pieces
      simp only [hgoes, Bool.false_eq_true, if_false, hp, hothers, bind, Except.bind]
      rfl

theorem reads_argumentValue_iff {key : Option String} {a : Argument} :
    Reads (argumentValue placeholder key) s a rest ↔
      TakesValue (Reads placeholder) key s a rest := by
  constructor
  · intro hread
    obtain ⟨hle, h⟩ := hread
    unfold argumentValue at h
    split at h
    · cases h
    next c s =>
    split at h
    · next hc =>
      obtain ⟨⟨ps, mid, hmid⟩, hps, h⟩ := bind_eq_ok.mp h
      have hbody := reads_pieces_iff.mp ⟨hmid, hps⟩
      -- The pieces stop at the end of the text or at the quote they began with.
      split at h
      · cases h
      · next q after hafter =>
        cases h
        simp only at hafter
        subst hafter
        obtain rfl : q = c := by simpa [Stop.endsAt] using hbody.endsAt_of_cons
        exact .quoted hc hbody
    · next hc =>
      obtain ⟨⟨ps, mid, hmid⟩, hps, h⟩ := bind_eq_ok.mp h
      have hbody := reads_pieces_iff.mp ⟨hmid, hps⟩
      simp only at h
      split at h
      · cases h
      · next hne =>
        cases h
        exact .unquoted hc hbody (by simpa using hne)
  · intro h
    cases h with
    | quoted hq hbody =>
      obtain ⟨hmid, hps⟩ := reads_pieces_iff.mpr hbody
      refine ⟨by rw [List.length_cons] at hmid ⊢; omega, ?_⟩
      simp only [argumentValue, if_pos hq, hps, bind, Except.bind]
      rfl
    | unquoted hc hbody hne =>
      obtain ⟨hmid, hps⟩ := reads_pieces_iff.mpr hbody
      refine ⟨hmid, ?_⟩
      simp only [argumentValue, if_neg hc, hps, bind, Except.bind,
        List.isEmpty_eq_false_iff.mpr hne]
      rfl

theorem reads_argument_iff {a : Argument} :
    Reads (argument placeholder) s a rest ↔ TakesArgument (Reads placeholder) s a rest := by
  unfold TakesArgument
  rw [← reads_argumentValue_iff]
  constructor
  · intro hread
    obtain ⟨hle, h⟩ := hread
    obtain ⟨⟨a, mid, hmid⟩, hvalue, h⟩ := bind_eq_ok.mp h
    cases h
    exact ⟨hmid, hvalue⟩
  · intro hread
    obtain ⟨hmid, hvalue⟩ := hread
    have h1 := length_skipBlanks_le (keyword (skipBlanks s)).2
    have h2 := length_keyword_le (skipBlanks s)
    have h3 := length_skipBlanks_le s
    refine ⟨by omega, ?_⟩
    simp only [argument, hvalue, bind, Except.bind]
    rfl

theorem reads_moreArguments_iff {args : List Argument} :
    Reads (moreArguments placeholder) s args rest ↔ TakesMore (Reads placeholder) s args rest := by
  constructor
  · -- Behind a comma the text is shorter.
    induction hn : s.length using Nat.strongRecOn generalizing s args with
    | ind n ih =>
    intro hread
    obtain ⟨hle, h⟩ := hread
    unfold moreArguments at h
    obtain ⟨⟨a, mid, hmid⟩, ha, h⟩ := bind_eq_ok.mp h
    have hfirst := reads_argument_iff.mp ⟨hmid, ha⟩
    have hblanks := length_skipBlanks_le mid
    simp only at h
    split at h
    · cases h
    next c after hc =>
    split at h
    · next hcomma =>
      subst hcomma
      obtain ⟨⟨others, last, hlast⟩, hothers, h⟩ := bind_eq_ok.mp h
      cases h
      have hlt : after.length < n := by
        rw [hc, List.length_cons] at hblanks
        omega
      exact .more hfirst hc (ih _ hlt rfl ⟨hlast, hothers⟩)
    split at h
    · next hclosed =>
      subst hclosed
      cases h
      exact .last hfirst hc
    · cases h
  · intro h
    induction h with
    | @last s mid rest a hfirst hclosed =>
      obtain ⟨hmid, ha⟩ := reads_argument_iff.mpr hfirst
      have hblanks := length_skipBlanks_le mid
      rw [hclosed, List.length_cons] at hblanks
      refine ⟨by omega, ?_⟩
      unfold moreArguments
      simp only [ha, bind, Except.bind]
      split
      · next h => simp [hclosed] at h
      · next c after h =>
        obtain ⟨rfl, rfl⟩ : ')' = c ∧ rest = after := by simpa [hclosed] using h
        rfl
    | @more s mid next rest a args hfirst hcomma _ ih =>
      obtain ⟨hmid, ha⟩ := reads_argument_iff.mpr hfirst
      obtain ⟨hrest, hothers⟩ := ih
      have hblanks := length_skipBlanks_le mid
      rw [hcomma, List.length_cons] at hblanks
      refine ⟨by omega, ?_⟩
      unfold moreArguments
      simp only [ha, bind, Except.bind]
      split
      · next h => simp [hcomma] at h
      · next c after h =>
        obtain ⟨rfl, rfl⟩ : ',' = c ∧ next = after := by simpa [hcomma] using h
        simp only [if_true, hothers]
        rfl

theorem reads_arguments_iff {args : List Argument} :
    Reads (arguments placeholder) s args rest ↔ TakesArguments (Reads placeholder) s args rest := by
  constructor
  · intro hread
    obtain ⟨hle, h⟩ := hread
    unfold arguments at h
    simp only at h
    split at h
    · next after hclosed =>
      cases h
      exact .none hclosed
    · next hopened =>
      obtain ⟨⟨args, mid, hmid⟩, hargs, h⟩ := bind_eq_ok.mp h
      cases h
      refine .some (fun hhead => ?_) (reads_moreArguments_iff.mp ⟨hmid, hargs⟩)
      obtain ⟨after, hafter⟩ := List.head?_eq_some_iff.mp hhead
      exact hopened after hafter
  · intro h
    have hblanks := length_skipBlanks_le s
    cases h with
    | none hclosed =>
      refine ⟨by rw [hclosed, List.length_cons] at hblanks; omega, ?_⟩
      unfold arguments
      simp only
      split
      · next after h =>
        obtain rfl : rest = after := by simpa [hclosed] using h
        rfl
      · next h => exact absurd hclosed (h rest)
    | some hopened hall =>
      obtain ⟨hrest, hargs⟩ := reads_moreArguments_iff.mpr hall
      refine ⟨by omega, ?_⟩
      unfold arguments
      simp only
      split
      · next after h => exact absurd (by rw [h]; rfl) hopened
      · simp only [hargs, bind, Except.bind]
        rfl

theorem reads_nameAndArguments_iff {segment : Segment} :
    Reads (nameAndArguments placeholder) s segment rest ↔
      TakesName (Reads placeholder) s segment rest := by
  constructor
  · intro hread
    obtain ⟨hle, h⟩ := hread
    unfold nameAndArguments at h
    simp only at h
    split at h
    · cases h
    next hname =>
    have hname : (word (skipBlanks s)).1 ≠ [] := by simpa using hname
    split at h
    · next after hopened =>
      obtain ⟨⟨args, mid, hmid⟩, hargs, h⟩ := bind_eq_ok.mp h
      cases h
      exact .call rfl hname hopened (reads_arguments_iff.mp ⟨hmid, hargs⟩)
    · next hopened =>
      cases h
      refine .var rfl hname fun hhead => ?_
      obtain ⟨after, hafter⟩ := List.head?_eq_some_iff.mp hhead
      exact hopened after hafter
  · intro h
    have h1 := length_skipBlanks_le s
    have h2 := length_word_le (skipBlanks s)
    cases h with
    | @var _ name mid hword hname hopened =>
      have h3 := length_skipBlanks_le mid
      simp only [hword] at h2
      refine ⟨by omega, ?_⟩
      unfold nameAndArguments
      simp only [hword, List.isEmpty_iff, if_neg hname]
      split
      · next after h => exact absurd (by rw [hword] at h; rw [h]; rfl) hopened
      · simp only [hword]
    | @call _ name mid next _ args hword hname hopened hall =>
      obtain ⟨hrest, hargs⟩ := reads_arguments_iff.mpr hall
      have h3 := length_skipBlanks_le mid
      simp only [hword] at h2
      rw [hopened, List.length_cons] at h3
      refine ⟨by omega, ?_⟩
      unfold nameAndArguments
      simp only [hword, List.isEmpty_iff, if_neg hname]
      split
      · next after h =>
        obtain rfl : next = after := by simpa [hword, hopened] using h
        simp only [hargs, bind, Except.bind]
        rfl
      · next h => exact absurd (by rw [hword, hopened]) (h next)

end Readers

/-- The induction is on the room for placeholders. -/
theorem reads_placeholder (room : ℕ) : Reads (placeholder room) = TakesPlaceholder room := by
  induction room with
  | zero =>
    funext s segment rest
    refine propext ⟨?_, False.elim⟩
    intro hread
    obtain ⟨hle, h⟩ := hread
    cases h
  | succ room ih =>
    funext s segment rest
    rw [TakesPlaceholder, ← ih]
    refine propext ⟨?_, ?_⟩
    · intro hread
      obtain ⟨hle, h⟩ := hread
      unfold placeholder at h
      obtain ⟨⟨segment, mid, hmid⟩, hname, h⟩ := bind_eq_ok.mp h
      simp only at h
      split at h
      · next after hclosed =>
        cases h
        exact ⟨mid, reads_nameAndArguments_iff.mp ⟨hmid, hname⟩, hclosed⟩
      · cases h
    · intro hread
      obtain ⟨mid, hname, hclosed⟩ := hread
      obtain ⟨hmid, hname⟩ := reads_nameAndArguments_iff.mpr hname
      have hblanks := length_skipBlanks_le mid
      rw [hclosed, List.length_cons] at hblanks
      refine ⟨by omega, ?_⟩
      unfold placeholder
      simp only [hname, bind, Except.bind]
      split
      · next after h =>
        obtain rfl : rest = after := by simpa [hclosed] using h
        rfl
      · next h => exact absurd hclosed (h rest)

/-! ## Templates -/

/-- Only the end of a text stops pieces that have no other stop. -/
theorem TakesPieces.rest_of_never {P : Rule Segment} {s rest : List Char} {ps : List Piece}
    (h : TakesPieces P .never s ps rest) : rest = [] := by
  cases rest with
  | nil => rfl
  | cons c s => cases h.endsAt_of_cons

/-- A text parses to the template of the pieces that it is made of. -/
theorem parse_eq_ok {limit : ℕ} {text : String} {t : Template} :
    parse limit text = .ok t ↔
      ∃ ps, TakesPieces (TakesPlaceholder limit) .never text.toList ps [] ∧ t = ⟨ofPieces ps⟩ := by
  have hread : parse limit text = .ok t ↔ read limit text.toList = .ok t := by
    unfold parse
    cases read limit text.toList with
    | error e => constructor <;> intro h <;> cases h
    | ok t' => constructor <;> intro h <;> cases h <;> rfl
  rw [hread, ← reads_placeholder]
  unfold read
  constructor
  · intro h
    split at h
    · next r hr =>
      cases h
      obtain ⟨ps, rest, hrest⟩ := r
      have hpieces := reads_pieces_iff.mp ⟨hrest, hr⟩
      obtain rfl := hpieces.rest_of_never
      exact ⟨ps, hpieces, rfl⟩
    · cases h
  · intro hread
    obtain ⟨ps, hps, rfl⟩ := hread
    obtain ⟨hrest, hps⟩ := reads_pieces_iff.mpr hps
    rw [hps]

end Casebook.Template
