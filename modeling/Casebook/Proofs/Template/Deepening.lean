import Casebook.Proofs.Template.Renaming

/-!
# Parsing renamed text

A name in braces needs one level of room more than the plain name it may stand for. With that level
every rule of the grammar takes from a renamed text what it takes from the text: as much of it, and
the same thing up to the names that it refers to. For the rules of what may hold placeholders this
is proved of any two rules `P` and `P'` for placeholders of which it holds; `Deepens P P'` lists
what that takes, and the induction on the room ties the knot.
-/

namespace Casebook.Template

open Text Segment Substitution

/-- From a renamed text a rule takes something that refers to what the references in it became. -/
def Follows {α : Type} (R : Rule α) (refs : α → List String) (a : α) (rest s' : List Char)
    (names : List (String × String)) : Prop :=
  ∃ a' rest' front more, R s' a' rest' ∧ Renamed rest rest' more ∧ names = front ++ more ∧
    refs a = front.map Prod.fst ∧ refs a' = front.map Prod.snd

/-- A rule for placeholders takes from renamed texts what another takes from the texts. -/
structure Deepens (P P' : Rule Segment) : Prop where
  braced_of_var {s rest : List Char} {n : String} (h : P s (.var n) rest) :
    ∃ name, braced s = .name name rest ∧ name ≠ [] ∧ String.ofList name = n
  reads_var {s name rest : List Char} (h : braced s = .name name rest) (ne_nil : name ≠ []) :
    P' s (.var (String.ofList name)) rest
  braced_ne_name {s rest : List Char} {c : Call} (h : P s (.call c) rest) (name rest' : List Char) :
    braced s ≠ .name name rest'
  call {s s' rest : List Char} {c : Call} {names : List (String × String)}
    (h : P s (.call c) rest) (renamed : Renamed s s' names) :
    Follows P' Segment.references (.call c) rest s' names
  not_text {s rest : List Char} {t : String} : ¬P s (.text t) rest
  not_text' {s rest : List Char} {t : String} : ¬P' s (.text t) rest

section Rules

variable {P P' : Rule Segment} {stop : Stop} {s s' rest : List Char}
  {names : List (String × String)}

/-! ## Pieces -/

/-- A variable is read where a text refers to a name. -/
theorem TakesPiece.refers_of_var
    (hP : ∀ {s rest : List Char} {n : String}, P s (.var n) rest →
      ∃ name, braced s = .name name rest ∧ name ≠ [] ∧ String.ofList name = n)
    {n : String} (h : TakesPiece P stop s (.placeholder (.var n)) rest) :
    ∃ name written, Refers name written rest ∧ s = written ++ rest ∧ name ≠ [] ∧
      String.ofList name = n := by
  cases h with
  | braces inner =>
    obtain ⟨name, hbraced, hname, hn⟩ := hP inner
    obtain ⟨written, hrefers, heq⟩ := exists_refers_of_braced hbraced
    exact ⟨name, written, hrefers, heq.symm, hname, hn⟩
  | name word_eq ne_nil =>
    refine ⟨_, _, refers_of_word word_eq ne_nil, ?_, ne_nil, rfl⟩
    rw [(word_eq_iff.mp word_eq).1]
    rfl

/-- Where a text refers to a name a variable is read. -/
theorem Refers.takesPiece (hP : Deepens P P') {name written : List Char}
    (h : Refers name written rest) (hname : name ≠ []) :
    TakesPiece P' stop (written ++ rest) (.placeholder (.var (String.ofList name))) rest := by
  cases h with
  | plain ne_nil hword hrest => exact .name (word_append_of_ends hword hrest) ne_nil
  | @braces before after _ hbefore hword hafter =>
    have hbraced := braced_append rest hbefore hword hafter
    simpa using TakesPiece.braces (hP.reads_var hbraced hname)

/-- A character is the same piece of a renamed text, and the rest is renamed. -/
theorem Follows.char {R : Rule Piece} {c : Char} {rest' : List Char}
    (h : R s' (.char c) rest') (hrest : Renamed rest rest' names) :
    Follows R Piece.references (.char c) rest s' names :=
  ⟨.char c, rest', [], names, h, hrest, rfl, rfl, rfl⟩

/-- A piece that is not two dollars is found again in a renamed text. -/
theorem TakesPiece.follows (hP : Deepens P P') {p : Piece} (hescapes : stop.escapes '$' = false)
    (h : TakesPiece P stop s p rest) (hr : Renamed s s' names) (hs : ∀ t, s ≠ '$' :: '$' :: t) :
    Follows (TakesPiece P' stop) Piece.references p rest s' names := by
  -- A variable may be written with braces or without; both are references.
  have hvar {n : String} (h : TakesPiece P stop s (.placeholder (.var n)) rest) :
      Follows (TakesPiece P' stop) Piece.references (.placeholder (.var n)) rest s' names := by
    obtain ⟨name, written, hrefers, heq, hname, rfl⟩ := h.refers_of_var hP.braced_of_var
    obtain ⟨name', written', rest', more, hrefers', hname', rfl, hrest, rfl⟩ :=
      hr.refers_inv hrefers heq hname
    exact ⟨_, rest', [(String.ofList name, String.ofList name')], more,
      hrefers'.takesPiece hP hname', hrest, rfl, rfl, rfl⟩
  cases h with
  | @escaped x _ escapes =>
    obtain ⟨t', rfl, ht⟩ := hr.cons_inv (by decide)
    have hx : x ≠ '$' := by
      intro heq
      subst heq
      rw [hescapes] at escapes
      cases escapes
    obtain ⟨rest', rfl, hrest⟩ := ht.cons_inv hx
    exact .char (.escaped escapes) hrest
  | backslash plain =>
    obtain ⟨rest', rfl, hrest⟩ := hr.cons_inv (by decide)
    exact .char (.backslash (by rwa [hrest.head?])) hrest
  | dollars => exact absurd rfl (hs _)
  | @braces t segment _ inner =>
    cases segment with
    | text => exact absurd inner hP.not_text
    | var n => exact hvar (.braces inner)
    | call c =>
      obtain ⟨t', rfl, ht⟩ := hr.lone_inv (by simp) (not_refers_of_braced (hP.braced_ne_name inner))
      obtain ⟨u', rfl, hu⟩ := ht.cons_inv (by decide)
      obtain ⟨segment', rest', front, more, hinner', hrest, hnames, hfst, hsnd⟩ := hP.call inner hu
      exact ⟨.placeholder segment', rest', front, more, .braces hinner', hrest, hnames, hfst, hsnd⟩
  | name word_eq ne_nil => exact hvar (.name word_eq ne_nil)
  | dollar lone =>
    obtain ⟨rest', rfl, hrest⟩ :=
      hr.lone_inv (fun h => (lone _ h).1 rfl) (not_refers_of_lone lone)
    exact .char (.dollar (by rwa [hrest.head?])) hrest
  | char ne_backslash ne_dollar =>
    obtain ⟨rest', rfl, hrest⟩ := hr.cons_inv ne_dollar
    exact .char (.char ne_backslash ne_dollar) hrest

/-- A character that means nothing is the piece a text with it in front begins with. -/
theorem TakesPieces.of_cons_inert (hstop : stop.IsUsual) {c : Char} {ps : List Piece}
    (hc : Inert c) (h : TakesPieces P stop (c :: s) ps rest) :
    ∃ ps', ps = .char c :: ps' ∧ TakesPieces P stop s ps' rest := by
  cases h with
  | done ends =>
    have hends := ends c rfl
    rw [hstop.inert hc] at hends
    cases hends
  | more _ first others =>
    cases first with
    | char => exact ⟨_, rfl, others⟩
    | escaped | backslash | dollars | braces | name | dollar =>
      exact absurd hc (by decide)

/-- Text that means nothing is taken off the pieces it is in front of. -/
theorem TakesPieces.of_append_inert (hstop : stop.IsUsual) {text : List Char} {ps : List Piece}
    (htext : ∀ c ∈ text, Inert c) (h : TakesPieces P stop (text ++ s) ps rest) :
    ∃ ps', ps = text.map .char ++ ps' ∧ TakesPieces P stop s ps' rest := by
  induction text generalizing ps with
  | nil => exact ⟨ps, rfl, h⟩
  | cons c text ih =>
    obtain ⟨qs, rfl, hqs⟩ := h.of_cons_inert hstop (htext c List.mem_cons_self)
    obtain ⟨ps', rfl, hps'⟩ := ih (fun x hx => htext x (List.mem_cons_of_mem c hx)) hqs
    exact ⟨ps', rfl, hps'⟩

/-- Characters refer to nothing. -/
theorem flatMap_references_chars (text : List Char) (ps : List Piece) :
    (text.map Piece.char ++ ps).flatMap Piece.references = ps.flatMap Piece.references := by
  induction text with
  | nil => rfl
  | cons c text ih => exact ih

/-- The induction is on the pieces of the text. Behind two dollars the text is first taken as it is
and replaced then. -/
theorem TakesPieces.follows (hP : Deepens P P') (hstop : stop.IsUsual) {ps : List Piece}
    (h : TakesPieces P stop s ps rest) (hr : Renamed s s' names) :
    Follows (TakesPieces P' stop) (List.flatMap Piece.references) ps rest s' names := by
  induction h generalizing s' names with
  | done ends =>
    exact ⟨[], s', [], names, .done (by rwa [hr.head?]), hr, rfl, rfl, rfl⟩
  | @more c s mid rest p ps goes_on first others ih =>
    by_cases hdollars : ∃ t, c :: s = '$' :: '$' :: t
    · obtain ⟨t, ht⟩ := hdollars
      obtain ⟨rfl, rfl⟩ := List.cons.inj ht
      -- Two dollars are one piece, whatever else may begin with a dollar.
      cases first with
      | char _ ne_dollar => exact absurd rfl ne_dollar
      | name word_eq ne_nil =>
        rw [word_cons_of_not (by decide)] at word_eq
        exact absurd (Prod.mk.inj word_eq).1.symm ne_nil
      | dollar lone => exact absurd rfl (lone '$' rfl).1
      | dollars =>
        obtain ⟨text, text', u, u', htext, htext', rfl, rfl, hu⟩ := hr.dollars_inv
        obtain ⟨ps', rest', front, more, hps', hrest, hnames, hfst, hsnd⟩ :=
          ih (hu.append_inert htext)
        -- The text behind them is pieces of one character each, before and after.
        obtain ⟨qs, rfl, hqs⟩ := hps'.of_append_inert hstop htext
        refine ⟨.char '$' :: (text'.map .char ++ qs), rest', front, more, ?_, hrest, hnames,
          hfst, ?_⟩
        · exact .more goes_on .dollars (hqs.append_inert hstop htext')
        · rw [flatMap_references_chars] at hsnd
          rw [← hsnd]
          exact flatMap_references_chars text' qs
    · obtain ⟨p', mid', front, more, hp', hmid, rfl, hfst, hsnd⟩ :=
        first.follows hP hstop.escapes hr fun t ht => hdollars ⟨t, ht⟩
      obtain ⟨ps', rest', front', more', hps', hrest, rfl, hfst', hsnd'⟩ := ih hmid
      obtain ⟨t', rfl⟩ := List.head?_eq_some_iff.mp hr.head?
      refine ⟨p' :: ps', rest', front ++ front', more', .more goes_on hp' hps', hrest, ?_, ?_, ?_⟩
      · rw [List.append_assoc]
      · rw [List.flatMap_cons, List.map_append, hfst, hfst']
      · rw [List.flatMap_cons, List.map_append, hsnd, hsnd']

/-! ## Arguments -/

/-- A text that begins with no blank is not empty without the blanks at its end. -/
theorem trimEnd_cons_ne_nil {c : Char} (hc : isBlank c = false) (s : List Char) :
    trimEnd (c :: s) ≠ [] := by
  unfold trimEnd
  split
  · simp [hc]
  · simp

/-- Segments are more than blanks if their first piece is a placeholder or no blank. -/
theorem trimLast_ofPieces_ne_nil {p : Piece} (hchar : ∀ c, p = .char c → isBlank c = false)
    (htext : ∀ t, p ≠ .placeholder (.text t)) (ps : List Piece) :
    trimLast (ofPieces (p :: ps)) ≠ [] := by
  cases p with
  | char c =>
    have htrim := trimEnd_cons_ne_nil (hchar c rfl) (splitPieces ps).1
    show trimLast (.text (String.ofList (c :: (splitPieces ps).1)) :: (splitPieces ps).2) ≠ []
    cases (splitPieces ps).2 with
    | nil =>
      rw [trimLast, String.toList_ofList]
      split
      · contradiction
      · simp
    | cons s rest => simp [trimLast]
  | placeholder s =>
    rw [ofPieces, splitPieces, consText]
    cases s with
    | text t => exact absurd rfl (htext t)
    | var => simp [trimLast]
    | call => simp [trimLast]

/-- Pieces of a text that begins with no blank are more than blanks. -/
theorem TakesPieces.trimLast_ne_nil (hP : ∀ {s rest t}, ¬P s (.text t) rest)
    (hstop : ∀ x, stop.escapes x = false) {c : Char} {ps : List Piece} (hc : isBlank c = false)
    (hgoes : stop.endsAt c = false) (h : TakesPieces P stop (c :: s) ps rest) :
    trimLast (ofPieces ps) ≠ [] := by
  cases h with
  | done ends =>
    have hends := ends c rfl
    rw [hgoes] at hends
    cases hends
  | more _ first _ =>
    refine trimLast_ofPieces_ne_nil ?_ ?_ _
    · intro x heq
      subst heq
      cases first with
      | escaped escapes =>
        rw [hstop] at escapes
        cases escapes
      | backslash | dollars | dollar | char => exact hc
    · intro t heq
      subst heq
      cases first with
      | braces inner => exact hP inner

/-- The value of an argument refers to what its pieces refer to. -/
theorem referencesOfArg_value {key : Option String} {ps : List Piece} (source : String) :
    referencesOfArg (unquoted key (trimLast (ofPieces ps)) source) =
      ps.flatMap Piece.references := by
  rw [referencesOfArg_unquoted, referencesOfSegments_trimLast, referencesOfSegments_ofPieces]

theorem TakesValue.follows (hP : Deepens P P') {key : Option String} {a : Argument}
    (hblank : Ends isBlank s) (h : TakesValue P key s a rest) (hr : Renamed s s' names) :
    Follows (TakesValue P' key) referencesOfArg a rest s' names := by
  cases h with
  | @quoted q s _ ps quote body =>
    have hq : q ≠ '$' := by rcases quote with rfl | rfl <;> decide
    obtain ⟨t', rfl, ht⟩ := hr.cons_inv hq
    obtain ⟨ps', last', front, more, hps', hlast, hnames, hfst, hsnd⟩ :=
      body.follows hP (isUsual_quote quote) ht
    obtain ⟨rest', rfl, hrest⟩ := hlast.cons_inv hq
    refine ⟨_, rest', front, more, .quoted quote hps', hrest, hnames, ?_, ?_⟩
    · rw [referencesOfArg, referencesOfSegments_ofPieces, hfst]
    · rw [referencesOfArg, referencesOfSegments_ofPieces, hsnd]
  | @unquoted c s _ ps no_quote body ne_nil =>
    obtain ⟨ps', rest', front, more, hps', hrest, hnames, hfst, hsnd⟩ :=
      body.follows hP isUsual_argument hr
    obtain ⟨t', rfl⟩ := List.head?_eq_some_iff.mp hr.head?
    -- The argument is not empty, so neither is the renamed one: both begin with this character.
    have hgoes : Stop.argument.endsAt c = false := by
      cases body with
      | done => exact absurd rfl ne_nil
      | more goes_on => exact goes_on
    have hne := hps'.trimLast_ne_nil hP.not_text' (fun _ => rfl) (ends_cons.mp hblank) hgoes
    refine ⟨_, rest', front, more, .unquoted no_quote hps' hne, hrest, hnames, ?_, ?_⟩
    · rw [referencesOfArg_value, hfst]
    · rw [referencesOfArg_value, hsnd]

theorem TakesArgument.follows (hP : Deepens P P') {a : Argument} (h : TakesArgument P s a rest)
    (hr : Renamed s s' names) : Follows (TakesArgument P') referencesOfArg a rest s' names := by
  obtain ⟨hkey, hmore⟩ := hr.skipBlanks.keyword
  have hvalue := TakesValue.follows hP (ends_skipBlanks _) h hmore.skipBlanks
  rw [← hkey] at hvalue
  exact hvalue

theorem TakesMore.follows (hP : Deepens P P') {args : List Argument} (h : TakesMore P s args rest)
    (hr : Renamed s s' names) : Follows (TakesMore P') referencesOfArgs args rest s' names := by
  induction h generalizing s' names with
  | last first closed =>
    obtain ⟨a', mid', front, more, ha', hmid, hnames, hfst, hsnd⟩ := first.follows hP hr
    have hskip := hmid.skipBlanks
    rw [closed] at hskip
    obtain ⟨rest', hclosed', hrest⟩ := hskip.cons_inv (by decide)
    refine ⟨[a'], rest', front, more, .last ha' hclosed', hrest, hnames, ?_, ?_⟩
    · rw [referencesOfArgs, referencesOfArgs, List.append_nil, hfst]
    · rw [referencesOfArgs, referencesOfArgs, List.append_nil, hsnd]
  | more first comma _ ih =>
    obtain ⟨a', mid', front, more, ha', hmid, rfl, hfst, hsnd⟩ := first.follows hP hr
    have hskip := hmid.skipBlanks
    rw [comma] at hskip
    obtain ⟨next', hcomma', hnext⟩ := hskip.cons_inv (by decide)
    obtain ⟨args', rest', front', more', hargs', hrest, rfl, hfst', hsnd'⟩ := ih hnext
    refine ⟨a' :: args', rest', front ++ front', more', .more ha' hcomma' hargs', hrest, ?_, ?_, ?_⟩
    · rw [List.append_assoc]
    · rw [referencesOfArgs, List.map_append, hfst, hfst']
    · rw [referencesOfArgs, List.map_append, hsnd, hsnd']

theorem TakesArguments.follows (hP : Deepens P P') {args : List Argument}
    (h : TakesArguments P s args rest) (hr : Renamed s s' names) :
    Follows (TakesArguments P') referencesOfArgs args rest s' names := by
  have hskip := hr.skipBlanks
  cases h with
  | none closed =>
    rw [closed] at hskip
    obtain ⟨rest', hclosed', hrest⟩ := hskip.cons_inv (by decide)
    exact ⟨[], rest', [], names, .none hclosed', hrest, rfl, rfl, rfl⟩
  | some opened all =>
    obtain ⟨args', rest', front, more, hargs', hrest, hnames, hfst, hsnd⟩ := all.follows hP hskip
    exact ⟨args', rest', front, more, .some (by rwa [hskip.head?]) hargs', hrest, hnames, hfst,
      hsnd⟩

end Rules

/-! ## Placeholders -/

theorem not_takesPlaceholder_text {room : ℕ} {s rest : List Char} {t : String} :
    ¬TakesPlaceholder room s (.text t) rest := by
  intro h
  cases room with
  | zero => exact h
  | succ room =>
    obtain ⟨mid, h, -⟩ := h
    cases h

/-- The induction is on the room for placeholders. -/
theorem deepens_takesPlaceholder (room : ℕ) :
    Deepens (TakesPlaceholder room) (TakesPlaceholder (room + 1)) where
  braced_of_var h := by
    cases room with
    | zero => exact h.elim
    | succ room => exact takesPlaceholder_var_iff.mp h
  reads_var h hname := takesPlaceholder_var_iff.mpr ⟨_, h, hname, rfl⟩
  braced_ne_name h := braced_ne_name_of_call h
  call {s s' rest c names} h hr := by
    cases room with
    | zero => exact h.elim
    | succ room =>
      obtain ⟨mid, hcall, hclosed⟩ := h
      cases hcall with
      | call word_eq ne_nil opened all =>
        obtain ⟨mid', hword', hmid⟩ := hr.skipBlanks.word word_eq
        have hskip := hmid.skipBlanks
        rw [opened] at hskip
        obtain ⟨next', hopened', hnext⟩ := hskip.cons_inv (by decide)
        obtain ⟨args', last', front, more, hargs', hlast, hnames, hfst, hsnd⟩ :=
          all.follows (deepens_takesPlaceholder room) hnext
        have hskip' := hlast.skipBlanks
        rw [hclosed] at hskip'
        obtain ⟨rest', hclosed', hrest⟩ := hskip'.cons_inv (by decide)
        exact ⟨_, rest', front, more, ⟨last', .call hword' ne_nil hopened' hargs', hclosed'⟩, hrest,
          hnames, hfst, hsnd⟩
  not_text := not_takesPlaceholder_text
  not_text' := not_takesPlaceholder_text

/-- A renamed text parses with room for one more level, and refers to what the references of the
text became, in the same order. -/
theorem parse_of_renamed {limit : ℕ} {text text' : String} {t : Template}
    {names : List (String × String)} (ht : parse limit text = .ok t)
    (hr : Renamed text.toList text'.toList names) :
    ∃ t', parse (limit + 1) text' = .ok t' ∧ t.references = names.map Prod.fst ∧
      t'.references = names.map Prod.snd := by
  obtain ⟨ps, hps, rfl⟩ := parse_eq_ok.mp ht
  obtain ⟨ps', rest', front, more, hps', hrest, rfl, hfst, hsnd⟩ :=
    hps.follows (deepens_takesPlaceholder limit) isUsual_never hr
  obtain ⟨rfl, rfl⟩ := hrest.nil_inv
  refine ⟨⟨ofPieces ps'⟩, parse_eq_ok.mpr ⟨ps', hps', rfl⟩, ?_, ?_⟩
  · rw [Template.references, referencesOfSegments_ofPieces, List.append_nil, hfst]
  · rw [Template.references, referencesOfSegments_ofPieces, List.append_nil, hsnd]

end Casebook.Template
