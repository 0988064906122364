import Casebook.Proofs.Template.Printing

/-!
# Reading printed templates

A canonical template that can be printed is read back from the text it is printed as, whatever room
there is beyond its nesting, but for what its arguments remember of how they were written.

`ReadsPrinted P depth` says that a rule of placeholders reads back all that nest so deep. If it
does, then so do the rules for pieces and for arguments, and the rule with room for one more level
does so one level deeper.
-/

namespace Casebook.Template

open Text Segment

variable {P : Rule Segment} {depth : ℕ}

/-- A rule of placeholders reads back each that was printed and nests at most so deep. -/
def ReadsPrinted (P : Rule Segment) (depth : ℕ) : Prop :=
  ∀ s : Segment, s.isText = false → s.Canonical → s.Printable → s.nesting ≤ depth →
    ∀ stop stop' rest, ∃ s', TakesPiece P stop' (s.print stop ++ rest) (.placeholder s') rest ∧
      s'.bare = s.bare

/-! ## Text -/

section Pieces

variable {stop : Stop} {s rest : List Char} {ps : List Piece}

/-- No stop but a dollar as a quote ends at a dollar. -/
theorem endsAt_dollar (hstop : stop = .never ∨ stop = .argument ∨ stop = .quote '"') :
    stop.endsAt '$' = false := by
  rcases hstop with rfl | rfl | rfl <;> decide

theorem endsAt_quote (s : List Char) :
    ∀ c, ('"' :: s).head? = some c → (Stop.quote '"').endsAt c = true := by
  intro c h'
  cases h'
  rfl

theorem TakesPieces.cons_placeholder (hstop : stop.endsAt '$' = false) {mid : List Char}
    {segment : Segment} (first : TakesPiece P stop s (.placeholder segment) mid)
    (others : TakesPieces P stop mid ps rest) :
    TakesPieces P stop s (.placeholder segment :: ps) rest := by
  cases first with
  | braces inner => exact .more hstop (.braces inner) others
  | name word_eq ne_nil => exact .more hstop (.name word_eq ne_nil) others

/-- A character of text is read back from what it is printed as. -/
theorem TakesPieces.cons_printChar (hstop : stop = .never ∨ stop = .quote '"') (c : Char)
    (others : TakesPieces P stop s ps rest) :
    TakesPieces P stop (printChar stop c ++ s) (.char c :: ps) rest := by
  have hdollar : stop.endsAt '$' = false := endsAt_dollar (hstop.imp_right .inr)
  have hbackslash : stop.endsAt '\\' = false := by rcases hstop with rfl | rfl <;> decide
  unfold printChar
  -- A dollar is doubled, and what a backslash escapes has one in front.
  split
  · next hc =>
    subst hc
    exact .more hdollar .dollars others
  next hc =>
  split
  · next hescapes => exact .more hbackslash (.escaped hescapes) others
  · next hescapes =>
    rcases hstop with rfl | rfl
    · by_cases hc' : c = '\\'
      · subst hc'
        exact .more rfl (.backslash fun _ _ => rfl) others
      · exact .more rfl (.char hc' hc) others
    · have hplain : c ≠ '"' ∧ c ≠ '\\' := by simpa [Stop.escapes] using hescapes
      exact .more (by simpa [Stop.endsAt] using hplain.1) (.char hplain.2 hc) others

theorem TakesPieces.append_printText (hstop : stop = .never ∨ stop = .quote '"') (text : List Char)
    (others : TakesPieces P stop s ps rest) :
    TakesPieces P stop (text.flatMap (printChar stop) ++ s) (text.map .char ++ ps) rest := by
  induction text with
  | nil => exact others
  | cons c text ih =>
    rw [List.flatMap_cons, List.append_assoc]
    exact ih.cons_printChar hstop c

/-- Segments are read back from what they are printed as, in front of what stops them. -/
theorem takesPieces_printSegments (hP : ReadsPrinted P depth)
    (hstop : stop = .never ∨ stop = .quote '"')
    (hrest : ∀ c, rest.head? = some c → stop.endsAt c = true)
    {segments : List Segment} (hcanonical : CanonicalSegments segments)
    (hprintable : PrintableSegments segments) (hdepth : nestingOfSegments segments ≤ depth) :
    ∃ ps, TakesPieces P stop (printSegments stop segments ++ rest) ps rest ∧
      ps.map barePiece = (segments.flatMap toPieces).map barePiece := by
  induction segments with
  | nil => exact ⟨[], .done hrest, rfl⟩
  | cons s segments ih =>
    obtain ⟨hs, -, hcanonical⟩ := hcanonical
    obtain ⟨hprints, hprintable⟩ := hprintable
    rw [nestingOfSegments, Nat.max_le] at hdepth
    obtain ⟨ps, hps, hbare⟩ := ih hcanonical hprintable hdepth.2
    rw [printSegments, List.append_assoc, List.flatMap_cons, List.map_append, ← hbare]
    -- Text is read character by character, a placeholder as one piece.
    by_cases htext : s.isText = true
    · obtain ⟨text, rfl⟩ := exists_of_isText htext
      refine ⟨text.toList.map .char ++ ps, ?_, ?_⟩
      · rw [Segment.print]
        exact hps.append_printText hstop text.toList
      · rw [List.map_append, toPieces]
    · have htext : s.isText = false := by simpa using htext
      obtain ⟨s', hs', hbare'⟩ := hP s htext hs hprints hdepth.1 stop stop
        (printSegments stop segments ++ rest)
      refine ⟨.placeholder s' :: ps, ?_, ?_⟩
      · exact .cons_placeholder (endsAt_dollar (hstop.imp_right .inr)) hs' hps
      · rw [toPieces_of_isText htext, List.map_cons, List.map_singleton, List.singleton_append,
          barePiece, barePiece, hbare']

end Pieces

/-! ## Arguments -/

section Arguments

variable {s rest : List Char} {c : Char}

/-- A name begins with a character that is no blank. -/
theorem IsName.exists_cons {name : String} (hname : IsName name) :
    ∃ x more, name.toList = x :: more ∧ isWord x = true ∧ isBlank x = false := by
  obtain ⟨x, more, hx⟩ := List.exists_cons_of_ne_nil
    fun hnil => hname.1 (String.toList_inj.mp hnil)
  have hword : isWord x = true := hname.2 x (hx ▸ List.mem_cons_self)
  exact ⟨x, more, hx, hword, isBlank_eq_false_of_isWord hword⟩

/-- What begins with no word has no keyword. -/
theorem keyword_of_not_word (hc : isWord c = false) : keyword (c :: s) = (none, c :: s) := by
  simp only [keyword, keyword?, word_cons_of_not hc s]

theorem keyword_printKey {name : String} (hname : IsName name) (hs : s.head? ≠ some '=') :
    keyword (name.toList ++ '=' :: s) = (some name, s) := by
  have hword : word (name.toList ++ '=' :: s) = (name.toList, '=' :: s) :=
    word_append_of_ends hname.2 (ends_cons.mpr (by decide))
  have hne : name.toList ≠ [] := by
    obtain ⟨x, more, hx, -⟩ := hname.exists_cons
    exact hx ▸ List.cons_ne_nil x more
  have hsome : keyword? (name.toList ++ '=' :: s) = some (name, s) :=
    keyword?_eq_some_iff.mpr ⟨_, _, hword, hne, skipBlanks_of_ends (ends_cons.mpr (by decide)), hs,
      String.ofList_toList⟩
  simp only [keyword, hsome]

/-- A literal has no keyword: behind the word it begins with stands no equals sign. -/
theorem keyword_of_simple {text : List Char} (htext : ∀ c ∈ text, Literal.isSimpleChar c = true)
    (hc : c = ',' ∨ c = ')') : keyword (text ++ c :: rest) = (none, text ++ c :: rest) := by
  have hmid : (word (text ++ c :: rest)).2 = text.dropWhile isWord ++ c :: rest := by
    have hword : isWord c = false := by rcases hc with rfl | rfl <;> decide
    rw [word, List.dropWhile_append]
    split
    · next hempty => simp [hword, List.isEmpty_iff.mp hempty]
    · rfl
  -- Behind the word stands another character of the text or the one that ends it.
  obtain ⟨x, more, hx, hblank, hequals⟩ : ∃ x more, text.dropWhile isWord ++ c :: rest = x :: more ∧
      isBlank x = false ∧ x ≠ '=' := by
    cases hdrop : text.dropWhile isWord with
    | nil => exact ⟨c, rest, rfl, by rcases hc with rfl | rfl <;> decide⟩
    | cons x more =>
      have hmem : x ∈ text := (List.dropWhile_sublist isWord).subset (hdrop ▸ List.mem_cons_self)
      obtain ⟨hblank, hx⟩ := Literal.not_special_of_isSimpleChar (htext x hmem)
      simp only [List.mem_cons, not_or] at hx
      exact ⟨x, more ++ c :: rest, rfl, hblank, hx.2.2.2.2.1⟩
  cases hkeyword : keyword? (text ++ c :: rest) with
  | none => simp only [keyword, hkeyword]
  | some found =>
    obtain ⟨w, mid, hword, -, hskip, -⟩ := keyword?_eq_some_iff.mp hkeyword
    rw [hword, hx] at hmid
    rw [show mid = x :: more from hmid, skipBlanks_of_ends (ends_cons.mpr hblank)] at hskip
    exact absurd (List.cons.inj hskip).1 hequals

/-- An argument is read back if its value is, behind its keyword and blanks. -/
theorem takesArgument_of_value {key : Option String} {a : Argument} {blanks : List Char}
    (hblanks : ∀ c ∈ blanks, isBlank c = true) (hkey : IsKeyword key)
    (hnone : keyword s = (none, s)) (hblank : Ends isBlank s) (hequals : s.head? ≠ some '=')
    (h : TakesValue P key s a rest) :
    TakesArgument P (blanks ++ (printKey key ++ s)) a rest := by
  cases key with
  | none =>
    rw [TakesArgument, printKey, List.nil_append, skipBlanks_append_of_ends hblanks hblank, hnone,
      skipBlanks_of_ends hblank]
    exact h
  | some name =>
    have hname := hkey name rfl
    rw [printKey, List.append_assoc, List.singleton_append]
    have hstart : Ends isBlank (name.toList ++ '=' :: s) := by
      obtain ⟨x, more, hx, -, hblank⟩ := hname.exists_cons
      rwa [hx, List.cons_append, ends_cons]
    rw [TakesArgument, skipBlanks_append_of_ends hblanks hstart, keyword_printKey hname hequals,
      skipBlanks_of_ends hblank]
    exact h

theorem inert_of_isSimpleChar (hc : Literal.isSimpleChar c = true) : Inert c := by
  obtain ⟨-, hspecial⟩ := Literal.not_special_of_isSimpleChar hc
  -- There is an equals sign more on the longer list, which ends a keyword.
  have hsublist : specialChars.Sublist ['$', '\\', '"', '\'', '=', ',', ')'] := by decide
  intro hmem
  apply hspecial
  exact hsublist.subset hmem

theorem takesPieces_simple {text : List Char} (htext : ∀ c ∈ text, Literal.isSimpleChar c = true)
    (hc : c = ',' ∨ c = ')') :
    TakesPieces P .argument (text ++ c :: rest) (text.map .char) (c :: rest) := by
  have hends : TakesPieces P .argument (c :: rest) [] (c :: rest) :=
    .done (by rcases hc with rfl | rfl <;> simp [Stop.endsAt])
  have h := hends.append_inert isUsual_argument fun x hx => inert_of_isSimpleChar (htext x hx)
  rwa [List.append_nil] at h

theorem ofPieces_chars {text : List Char} (h : text ≠ []) :
    ofPieces (text.map .char) = [.text (String.ofList text)] := by
  have := splitPieces_chars text []
  rw [List.append_nil] at this
  rw [ofPieces, this]
  simp only [splitPieces, List.append_nil, consText_of_ne_nil h]

theorem trimEnd_of_simple {text : List Char} (htext : ∀ c ∈ text, Literal.isSimpleChar c = true) :
    trimEnd text = text := by
  induction text with
  | nil => rfl
  | cons x text ih =>
    have hx := (Literal.not_special_of_isSimpleChar (htext x List.mem_cons_self)).1
    rw [trimEnd, ih fun y hy => htext y (List.mem_cons_of_mem x hy)]
    cases text <;> simp [hx]

theorem exists_takesValue_unquoted {key : Option String} {ps : List Piece} {segments : List Segment}
    (hc : ¬(c = '"' ∨ c = '\'')) (body : TakesPieces P .argument (c :: s) ps rest)
    (hjoin : trimLast (ofPieces ps) = segments) (hne : segments ≠ []) :
    ∃ source, TakesValue P key (c :: s) (unquoted key segments source) rest := by
  subst hjoin
  exact ⟨_, .unquoted hc body hne⟩

/-- Text without quotes and placeholders is typed. -/
theorem exists_takesValue_simple (key : Option String) {text : List Char}
    (htext : ∀ c ∈ text, Literal.isSimpleChar c = true) (hne : text ≠ [])
    (hc : c = ',' ∨ c = ')') :
    ∃ source, TakesValue P key (text ++ c :: rest)
      (.literal key (Literal.value (String.ofList text)) source) (c :: rest) := by
  have hbody : TakesPieces P .argument (text ++ c :: rest) _ _ := takesPieces_simple htext hc
  obtain ⟨x, more, rfl⟩ := List.exists_cons_of_ne_nil hne
  have hjoin : trimLast (ofPieces ((x :: more).map .char)) =
      [.text (String.ofList (x :: more))] := by
    rw [ofPieces_chars hne, trimLast, String.toList_ofList, trimEnd_of_simple htext]
  have hquote : ¬(x = '"' ∨ x = '\'') := by
    have := (Literal.not_special_of_isSimpleChar (htext x List.mem_cons_self)).2
    simp only [List.mem_cons, not_or] at this
    exact fun h => h.elim this.2.2.1 this.2.2.2.1
  -- The only segment is text, so it is typed.
  have hvalue : unquoted key [.text (String.ofList (x :: more))] =
      .literal key (Literal.value (String.ofList (x :: more))) := by
    funext source
    rw [unquoted, if_pos (by rfl), plainText, plainText, String.append_empty]
  rw [← hvalue]
  exact exists_takesValue_unquoted hquote hbody hjoin (List.cons_ne_nil _ _)

/-- A literal is read back from its rendering. -/
theorem exists_takesValue_literal (key : Option String) {v : Value} (hv : Literal.IsSimple v)
    (hc : c = ',' ∨ c = ')') :
    ∃ source, TakesValue P key (v.render.toList ++ c :: rest) (.literal key v source)
      (c :: rest) := by
  have htakes : ∃ source, TakesValue P key (v.render.toList ++ c :: rest)
      (.literal key (Literal.value (String.ofList v.render.toList)) source) (c :: rest) :=
    exists_takesValue_simple key (fun _ => Literal.isSimpleChar_of_mem_render hv)
      (Literal.render_ne_nil hv) hc
  rwa [String.ofList_toList, Literal.value_render hv] at htakes

theorem exists_print_eq_cons {segment : Segment} (h : segment.isText = false) (stop : Stop) :
    ∃ more, segment.print stop = '$' :: more := by
  cases segment with
  | text => cases h
  | var => exact ⟨_, rfl⟩
  | call c => cases c; exact ⟨_, rfl⟩

theorem isText_bare (segment : Segment) : segment.bare.isText = segment.isText := by
  cases segment with
  | call c => cases c; rfl
  | _ => rfl

/-- A placeholder that stands alone in an argument is read back. -/
theorem exists_takesValue_placeholder (hP : ReadsPrinted P depth) (key : Option String)
    {segment : Segment} (htext : segment.isText = false) (hcanonical : segment.Canonical)
    (hprintable : segment.Printable) (hdepth : segment.nesting ≤ depth) (hc : c = ',' ∨ c = ')') :
    ∃ segment' source, TakesValue P key (segment.print .argument ++ c :: rest)
      (.expr key [segment'] source) (c :: rest) ∧ segment'.bare = segment.bare := by
  obtain ⟨segment', htakes, hbare⟩ := hP segment htext hcanonical hprintable hdepth .argument
    .argument (c :: rest)
  have htext' : segment'.isText = false := by rw [← isText_bare, hbare, isText_bare, htext]
  have hends : TakesPieces P .argument (c :: rest) [] (c :: rest) :=
    .done (by rcases hc with rfl | rfl <;> simp [Stop.endsAt])
  -- With nothing around it the placeholder is the only segment.
  have hbody := TakesPieces.cons_placeholder rfl htakes hends
  have hjoin : trimLast (ofPieces [.placeholder segment']) = [segment'] := by
    cases segment' with
    | text => cases htext'
    | _ => rfl
  have hvalue : unquoted key [segment'] = .expr key [segment'] := by
    funext source
    simp [unquoted, htext']
  obtain ⟨more, hprint⟩ := exists_print_eq_cons htext .argument
  rw [hprint, List.cons_append] at hbody ⊢
  obtain ⟨source, htakes⟩ := exists_takesValue_unquoted (by decide) hbody hjoin
    (List.cons_ne_nil _ _)
  exact ⟨segment', source, hvalue ▸ htakes, hbare⟩

variable {a : Argument}

/-- The value of an argument is read back from what it is printed as. -/
theorem exists_takesValue_printValue (hP : ReadsPrinted P depth) (hcanonical : CanonicalArg a)
    (hprintable : PrintableArg a) (hdepth : nestingOfArg a ≤ depth) (hc : c = ',' ∨ c = ')')
    (rest : List Char) :
    ∃ a', TakesValue P a.key (printValue a ++ c :: rest) a' (c :: rest) ∧
      bareArg a' = bareArg a := by
  match a, hprintable with
  | .literal key v source, hv =>
    obtain ⟨source', htakes⟩ := exists_takesValue_literal key hv hc
    exact ⟨_, htakes, rfl⟩
  | .quoted key q body source, hbody =>
    obtain ⟨ps, hps, hbare⟩ := takesPieces_printSegments hP (.inr rfl) (endsAt_quote (c :: rest))
      hcanonical.2 hbody hdepth
    have htakes : ∃ source', TakesValue P key (printValue (.quoted key q body source) ++ c :: rest)
        (.quoted key '"' (ofPieces ps) source') (c :: rest) := by
      rw [printValue, List.cons_append, List.append_assoc]
      exact ⟨_, .quoted (.inl rfl) hps⟩
    obtain ⟨source', htakes⟩ := htakes
    refine ⟨_, htakes, ?_⟩
    rw [bareArg, bareArg, bareSegments_ofPieces_eq hcanonical.2 hbare]
  | .expr key [segment] source, ⟨htext, hsegment⟩ =>
    rw [nestingOfArg, nestingOfSegments, Nat.max_le] at hdepth
    obtain ⟨segment', source', htakes, hbare⟩ := exists_takesValue_placeholder hP key htext
      hcanonical.2.1 hsegment hdepth.1 hc
    refine ⟨.expr key [segment'] source', ?_, ?_⟩
    · rw [printValue, printSegments, printSegments, List.append_nil]
      exact htakes
    · simp only [bareArg, bareSegments, hbare]

/-- A value is printed without a keyword, and with nothing in front. -/
theorem printValue_start (hprintable : PrintableArg a) (hc : c = ',' ∨ c = ')')
    (rest : List Char) :
    keyword (printValue a ++ c :: rest) = (none, printValue a ++ c :: rest) ∧
      ∃ x more, printValue a = x :: more ∧ isBlank x = false ∧ x ≠ '=' ∧ x ≠ ')' := by
  match a, hprintable with
  | .literal key v source, hv =>
    have htext (x : Char) (hx : x ∈ v.render.toList) := Literal.isSimpleChar_of_mem_render hv hx
    obtain ⟨x, more, hx⟩ := List.exists_cons_of_ne_nil (Literal.render_ne_nil hv)
    obtain ⟨hblank, hspecial⟩ := Literal.not_special_of_isSimpleChar
      (htext x (hx ▸ List.mem_cons_self))
    simp only [List.mem_cons, not_or] at hspecial
    exact ⟨keyword_of_simple htext hc, x, more, hx, hblank, hspecial.2.2.2.2.1,
      hspecial.2.2.2.2.2.2.1⟩
  | .quoted key q body source, _ =>
    exact ⟨keyword_of_not_word (by decide), '"', _, rfl, by decide, by decide, by decide⟩
  | .expr key [segment] source, ⟨htext, _⟩ =>
    obtain ⟨more, hprint⟩ := exists_print_eq_cons htext .argument
    have hvalue : printValue (.expr key [segment] source) = '$' :: more := by
      rw [printValue, printSegments, printSegments, List.append_nil, hprint]
    rw [hvalue]
    exact ⟨keyword_of_not_word (by decide), '$', more, rfl, by decide, by decide, by decide⟩

theorem isKeyword_of_canonical (h : CanonicalArg a) : IsKeyword a.key := by
  cases a with
  | literal => exact h
  | quoted => exact h.1
  | expr => exact h.1

/-- An argument is read back behind blanks, in front of what ends it. -/
theorem exists_takesArgument_print (hP : ReadsPrinted P depth) (hcanonical : CanonicalArg a)
    (hprintable : PrintableArg a) (hdepth : nestingOfArg a ≤ depth) (hc : c = ',' ∨ c = ')')
    {blanks : List Char} (hblanks : ∀ c ∈ blanks, isBlank c = true) (rest : List Char) :
    ∃ a', TakesArgument P (blanks ++ (printKey a.key ++ (printValue a ++ c :: rest))) a'
      (c :: rest) ∧ bareArg a' = bareArg a := by
  obtain ⟨a', htakes, hbare⟩ := exists_takesValue_printValue hP hcanonical hprintable hdepth hc rest
  obtain ⟨hnone, x, more, hstart, hblank, hequals, -⟩ := printValue_start hprintable hc rest
  refine ⟨a', takesArgument_of_value hblanks (isKeyword_of_canonical hcanonical) hnone ?_ ?_ htakes,
    hbare⟩
  · rw [hstart, List.cons_append, ends_cons]
    exact hblank
  · rw [hstart]
    simpa using hequals

/-- Arguments are read back behind blanks, up to the parenthesis that closes them. -/
theorem exists_takesMore_printArgs (hP : ReadsPrinted P depth) {args : List Argument}
    (hcanonical : CanonicalArgs (a :: args)) (hprintable : PrintableArgs (a :: args))
    (hdepth : nestingOfArgs (a :: args) ≤ depth) {blanks : List Char}
    (hblanks : ∀ c ∈ blanks, isBlank c = true) (rest : List Char) :
    ∃ args', TakesMore P (blanks ++ (printArgs (a :: args) ++ ')' :: rest)) args' rest ∧
      bareArgs args' = bareArgs (a :: args) := by
  induction args generalizing a blanks with
  | nil =>
    rw [nestingOfArgs, Nat.max_le] at hdepth
    obtain ⟨a', htakes, hbare⟩ := exists_takesArgument_print hP hcanonical.1 hprintable.1 hdepth.1
      (.inr rfl) hblanks rest
    refine ⟨[a'], .last ?_ (skipBlanks_of_ends (ends_cons.mpr (by decide))), ?_⟩
    · rw [printArgs, List.append_assoc]
      exact htakes
    · simp only [bareArgs, hbare]
  | cons b args ih =>
    rw [nestingOfArgs, Nat.max_le] at hdepth
    -- A comma and a space stand in front of the others.
    have hspace : ∀ c ∈ [' '], isBlank c = true := List.all_eq_true.mp (by decide)
    obtain ⟨args', hothers, hbares⟩ := ih hcanonical.2 hprintable.2 hdepth.2 hspace
    obtain ⟨a', htakes, hbare⟩ := exists_takesArgument_print hP hcanonical.1 hprintable.1 hdepth.1
      (.inl rfl) hblanks (' ' :: (printArgs (b :: args) ++ ')' :: rest))
    refine ⟨a' :: args', .more ?_ (skipBlanks_of_ends (ends_cons.mpr (by decide))) hothers, ?_⟩
    · rw [printArgs, List.append_assoc, List.append_assoc]
      exact htakes
    · rw [bareArgs, bareArgs, hbare, hbares]

/-- Arguments are printed with no blank and no parenthesis in front. -/
theorem printArgs_start (hcanonical : CanonicalArg a) (hprintable : PrintableArg a)
    (args : List Argument) :
    ∃ x more, printArgs (a :: args) = x :: more ∧ isBlank x = false ∧ x ≠ ')' := by
  obtain ⟨-, x, more, hx, hblank, -, hparen⟩ := printValue_start hprintable (.inr rfl) []
  have hvalue : ∃ others, printArgs (a :: args) = printKey a.key ++ (x :: more ++ others) := by
    cases args with
    | nil => exact ⟨[], by rw [printArgs, hx, List.append_nil]⟩
    | cons b args => exact ⟨_, by rw [printArgs, hx]⟩
  obtain ⟨others, hvalue⟩ := hvalue
  rw [hvalue]
  -- With a keyword the text begins with a letter of it.
  cases hkey : a.key with
  | none => exact ⟨x, more ++ others, rfl, hblank, hparen⟩
  | some name =>
    obtain ⟨y, letters, hy, hword, hblank⟩ :=
      (isKeyword_of_canonical hcanonical name hkey).exists_cons
    refine ⟨y, letters ++ ['='] ++ (x :: more ++ others), by simp [printKey, hy], hblank, ?_⟩
    intro heq
    subst heq
    exact absurd hword (by decide)

theorem exists_takesArguments_printArgs (hP : ReadsPrinted P depth) {args : List Argument}
    (hcanonical : CanonicalArgs args) (hprintable : PrintableArgs args)
    (hdepth : nestingOfArgs args ≤ depth) (rest : List Char) :
    ∃ args', TakesArguments P (printArgs args ++ ')' :: rest) args' rest ∧
      bareArgs args' = bareArgs args := by
  cases args with
  | nil => exact ⟨[], .none (skipBlanks_of_ends (ends_cons.mpr (by decide))), rfl⟩
  | cons a args =>
    have hnone : ∀ c ∈ ([] : List Char), isBlank c = true := by simp
    obtain ⟨args', htakes, hbares⟩ := exists_takesMore_printArgs hP hcanonical hprintable hdepth
      hnone rest
    obtain ⟨x, more, hx, hblank, hparen⟩ := printArgs_start hcanonical.1 hprintable.1 args
    have hskip : skipBlanks (printArgs (a :: args) ++ ')' :: rest) =
        printArgs (a :: args) ++ ')' :: rest := by
      refine skipBlanks_of_ends ?_
      rwa [hx, List.cons_append, ends_cons]
    refine ⟨args', .some ?_ ?_, hbares⟩
    · rw [hskip, hx]
      simpa using hparen
    · rw [hskip]
      exact htakes

end Arguments

/-! ## Placeholders -/

section Names

variable {name : String} {c : Char} {rest : List Char}

theorem word_name (hname : IsName name) (hc : isWord c = false) :
    word (skipBlanks (name.toList ++ c :: rest)) = (name.toList, c :: rest) := by
  have hstart : Ends isBlank (name.toList ++ c :: rest) := by
    obtain ⟨x, more, hx, -, hblank⟩ := hname.exists_cons
    rwa [hx, List.cons_append, ends_cons]
  rw [skipBlanks_of_ends hstart]
  exact word_append_of_ends hname.2 (ends_cons.mpr hc)

theorem skipBlanks_brace (rest : List Char) : skipBlanks ('\x7d' :: rest) = '\x7d' :: rest :=
  skipBlanks_of_ends (ends_cons.mpr (by decide))

theorem takesName_var (hname : IsName name) (rest : List Char) :
    TakesName P (name.toList ++ '\x7d' :: rest) (.var name) ('\x7d' :: rest) := by
  obtain ⟨x, more, hx, -⟩ := hname.exists_cons
  have h : TakesName P (name.toList ++ '\x7d' :: rest) _ _ :=
    .var (word_name hname (by decide)) (hx ▸ List.cons_ne_nil x more)
      (by rw [skipBlanks_brace]; simp)
  rwa [String.ofList_toList, skipBlanks_brace] at h

theorem takesName_call (hname : IsName name) {next : List Char} {args : List Argument}
    (hargs : TakesArguments P next args rest) :
    TakesName P (name.toList ++ '(' :: next) (.call ⟨name, args⟩) rest := by
  obtain ⟨x, more, hx, -⟩ := hname.exists_cons
  have h : TakesName P (name.toList ++ '(' :: next) _ rest :=
    .call (word_name hname (by decide)) (hx ▸ List.cons_ne_nil x more)
      (skipBlanks_of_ends (ends_cons.mpr (by decide))) hargs
  rwa [String.ofList_toList] at h

end Names

/-- With room for one more level, placeholders that nest one level deeper are read back. -/
theorem ReadsPrinted.succ {room : ℕ} (h : ReadsPrinted (TakesPlaceholder room) room) :
    ReadsPrinted (TakesPlaceholder (room + 1)) (room + 1) := by
  intro s htext hcanonical hprintable hdepth stop stop' rest
  cases s with
  | text => cases htext
  | var name =>
    refine ⟨.var name, ?_, rfl⟩
    have htakes : TakesPlaceholder (room + 1) (name.toList ++ '\x7d' :: rest) (.var name) rest :=
      ⟨'\x7d' :: rest, takesName_var hcanonical rest, skipBlanks_brace rest⟩
    rw [Segment.print, List.cons_append, List.cons_append, List.append_assoc]
    exact .braces htakes
  | call c =>
    obtain ⟨name, args⟩ := c
    obtain ⟨hname, hargs⟩ := hcanonical
    obtain ⟨args', htakes, hbares⟩ := exists_takesArguments_printArgs h hargs hprintable
      (Nat.le_of_succ_le_succ hdepth) ('\x7d' :: rest)
    refine ⟨.call ⟨name, args'⟩, ?_, by rw [Segment.bare, Segment.bare, hbares]⟩
    have htakes : TakesPlaceholder (room + 1)
        (name.toList ++ '(' :: (printArgs args ++ ')' :: '\x7d' :: rest))
        (.call ⟨name, args'⟩) rest :=
      ⟨'\x7d' :: rest, takesName_call hname htakes, skipBlanks_brace rest⟩
    rw [Segment.print, List.cons_append, List.cons_append, List.append_assoc, List.cons_append,
      List.append_assoc]
    exact .braces htakes

/-- The induction is on the room for placeholders. -/
theorem readsPrinted_takesPlaceholder (room : ℕ) : ReadsPrinted (TakesPlaceholder room) room := by
  induction room with
  | zero =>
    intro s htext _ _ hdepth
    cases s with
    | text => cases htext
    | var => cases hdepth
    | call c => cases c; cases hdepth
  | succ room ih => exact ih.succ

/-- Rules with more room than the nesting of a template read it back. -/
theorem exists_parse_print {limit : ℕ} {t : Template} (hcanonical : t.Canonical)
    (hprintable : t.Printable) (hnesting : t.nesting ≤ limit) :
    ∃ t', parse limit t.print = .ok t' ∧ t'.bare = t.bare := by
  have hend : ∀ c, ([] : List Char).head? = some c → Stop.never.endsAt c = true := by simp
  obtain ⟨ps, hps, hbare⟩ := takesPieces_printSegments (readsPrinted_takesPlaceholder limit)
    (.inl rfl) hend hcanonical hprintable hnesting
  refine ⟨⟨ofPieces ps⟩, parse_eq_ok.mpr ⟨ps, ?_, rfl⟩, ?_⟩
  · rw [Template.print, String.toList_ofList, ← List.append_nil (printSegments _ _)]
    exact hps
  · exact congrArg Template.mk (bareSegments_ofPieces_eq hcanonical hbare)

/-- Printing is undone by parsing, and all that parsing gives is canonical: a canonical template is
read back from the text it is printed as, if its arguments can be printed and there is room for its
nesting, and what is read from any text is canonical at every level. -/
theorem print_parse_canonical :
    (∀ (limit : ℕ) (t : Template), t.Canonical → t.Printable → t.nesting ≤ limit →
      ∃ t', parse limit t.print = .ok t' ∧ t'.bare = t.bare) ∧
    ∀ (limit : ℕ) (text : String) (t : Template), parse limit text = .ok t → t.Canonical :=
  ⟨fun _ _ => exists_parse_print, fun _ _ _ => canonical_of_parse⟩

/-- A template with a text between quotes that has quotes, a dollar and a placeholder of its own. -/
def sample : Template :=
  ⟨[.text "cost $ of ",
    .call ⟨"pay", [
      .quoted (some "to") '"' [.text "a \"b\" $", .call ⟨"id", [.expr none [.var "name"] ""]⟩] "",
      .literal none (.number (.int (-5))) "",
      .literal none .null ""]⟩]⟩

theorem canonical_sample : sample.Canonical := by
  have hname (name : String) (h : name ≠ "" ∧ name.toList.all isWord = true) : IsName name :=
    ⟨h.1, List.all_eq_true.mp h.2⟩
  have hto : IsKeyword (some "to") := by
    intro _ h'
    cases h'
    exact hname "to" (by decide)
  have hnone : IsKeyword none := by
    intro _ h'
    cases h'
  have hid : CanonicalArgs [.expr none [.var "name"] ""] :=
    ⟨⟨hnone, hname "name" (by decide), nofun, trivial⟩, trivial⟩
  have hbody : CanonicalSegments
      [.text "a \"b\" $", .call ⟨"id", [.expr none [.var "name"] ""]⟩] :=
    ⟨by simp [Segment.Canonical], fun _ => rfl, ⟨hname "id" (by decide), hid⟩, nofun, trivial⟩
  refine ⟨by simp [Segment.Canonical], fun _ => rfl, ⟨hname "pay" (by decide), ?_⟩, nofun, trivial⟩
  exact ⟨⟨hto, hbody⟩, hnone, hnone, trivial⟩

/-- The sample is read back with room for its nesting, which is three. -/
theorem print_parse_sample :
    sample.print =
      "cost $$ of $\x7bpay(to=\"a \\\"b\\\" $$$\x7bid($\x7bname\x7d)\x7d\", -5, null)\x7d" ∧
      ∃ t, parse 3 sample.print = .ok t ∧ t.bare = sample.bare ∧ t.Canonical := by
  have hfive : Literal.IsSimple (.number (.int (-5))) :=
    show Number.minInt ≤ -5 ∧ -5 ≤ Number.maxSigned by decide
  have hprintable : sample.Printable :=
    ⟨trivial, ⟨⟨trivial, ⟨⟨rfl, trivial⟩, trivial⟩, trivial⟩, hfive, trivial, trivial⟩, trivial⟩
  obtain ⟨t, hparse, hbare⟩ :=
    print_parse_canonical.1 3 sample canonical_sample hprintable (by decide)
  exact ⟨by decide +kernel, t, hparse, hbare, print_parse_canonical.2 3 _ t hparse⟩

end Casebook.Template
