import Casebook.Proofs.Fragment.Binding
import Casebook.Proofs.Template.Delimiting
import Casebook.Proofs.Template.Filling

/-!
# Parameters that are whole arguments

Where a parameter is all of an argument of a call, the argument that it is bound to takes its place,
with its quotes and whatever commas, parentheses and quotes it has between them; every other
argument of the call stays as it is. This is said of calls that are written down: `WholeArgument`
lists what their arguments may be, and cannot be built of anything else.

The scanner finds such a parameter directly in the argument list, because it is back there behind
every argument; and the parser reads the argument again from its own text.
-/

namespace Casebook

open Text Template Segment Substitution

/-! ## What arguments stand for -/

/-- What an argument stands for, apart from its keyword and the way it was written. -/
inductive Content where
  | literal (value : Value)
  | quoted (delimiter : Char) (body : List Segment)
  | expr (body : List Segment)

def Argument.content : Argument → Content
  | .literal _ value _ => .literal value
  | .quoted _ delimiter body _ => .quoted delimiter body
  | .expr _ body _ => .expr body

theorem Argument.content_withKey (key : Option String) (a : Argument) :
    (a.withKey key).content = a.content := by
  cases a <;> rfl

theorem Argument.key_withKey (key : Option String) (a : Argument) : (a.withKey key).key = key := by
  cases a <;> rfl

/-! ## Calls as they are written -/

/-- Whether a text stays between its quotes: a quote has a backslash in front of it, and no
backslash is left over at the end. -/
def staysInside (q : Char) : List Char → Bool
  | [] => true
  | '\\' :: [] => false
  | '\\' :: _ :: s => staysInside q s
  | c :: s => c ≠ q && staysInside q s

/-- The characters that an argument without quotes and parameters has none of. -/
def markedChars : List Char :=
  ['$', '"', '\'', '=', ',', ')']

/-- What an argument of a call is all of: a parameter, a text between quotes, or a text without. -/
inductive WholeValue (params : List String) where
  | parameter (name : String) (mem : name ∈ params) (inBraces : Bool)
  | quoted (delimiter : Char) (isQuote : delimiter = '"' ∨ delimiter = '\'') (content : List Char)
      (no_dollar : '$' ∉ content) (inside : staysInside delimiter content = true)
  | plain (text : List Char) (unmarked : ∀ c ∈ text, c ∉ markedChars)
      (not_blank : ∃ c ∈ text, isBlank c = false)

/-- An argument of a call and its keyword. -/
structure WholeArgument (params : List String) where
  key : Option String
  isKeyword : IsKeyword key
  value : WholeValue params

variable {params : List String}

namespace WholeValue

/-- The text of an argument. -/
def text : WholeValue params → List Char
  | parameter name _ true => '$' :: '\x7b' :: (name.toList ++ ['\x7d'])
  | parameter name _ false => '$' :: name.toList
  | quoted delimiter _ content _ _ => delimiter :: (content ++ [delimiter])
  | plain text _ _ => text

/-- The text of an argument whose parameter is replaced. -/
def replaced (mapping : Dict Substitution) : WholeValue params → List Char
  | parameter name mem inBraces =>
    match mapping.get? name with
    | some sub => sub.literal.toList
    | none => (parameter name mem inBraces : WholeValue params).text
  | value => value.text

end WholeValue

namespace WholeArgument

/-- A keyword, an equals sign and a blank. -/
def keyText : Option String → List Char
  | none => []
  | some name => name.toList ++ ['=', ' ']

/-- The texts of arguments with commas between them. -/
def listText (valueText : WholeValue params → List Char) : List (WholeArgument params) → List Char
  | [] => []
  | [a] => keyText a.key ++ valueText a.value
  | a :: b :: rest =>
    keyText a.key ++ valueText a.value ++ ',' :: ' ' :: listText valueText (b :: rest)

/-- The text of a call, bare or in braces. -/
def callText (inBraces : Bool) (name : String) (valueText : WholeValue params → List Char)
    (args : List (WholeArgument params)) : List Char :=
  if inBraces then
    '$' :: '\x7b' :: (name.toList ++ '(' :: (listText valueText args ++ [')', '\x7d']))
  else name.toList ++ '(' :: (listText valueText args ++ [')'])

/-- A call as it is written in a fragment. -/
def call (inBraces : Bool) (name : String) (args : List (WholeArgument params)) : String :=
  String.ofList (callText inBraces name WholeValue.text args)

end WholeArgument

/-! ## Scanning -/

section Scanning

variable {mapping : Dict Substitution} {scopes : List Scope} {s rest : List Char} {b : Bool}

theorem isBlank_of_mem_space : ∀ x ∈ [' '], isBlank x = true := by
  simp [show isBlank ' ' = true from rfl]

/-- Text without any mark stays, and stays in its argument list. -/
theorem filled_unmarked {text : List Char} (h : ∀ c ∈ text, c ∉ markedChars) :
    ∃ b', filled mapping (.arguments b :: scopes) (text ++ s) =
      text ++ filled mapping (.arguments b' :: scopes) s := by
  induction text generalizing b with
  | nil => exact ⟨b, rfl⟩
  | cons c text ih =>
    have hc := h c List.mem_cons_self
    simp only [markedChars, List.mem_cons, List.not_mem_nil, or_false, not_or] at hc
    obtain ⟨hdollar, hdouble, hsingle, hequals, hcomma, hparen⟩ := hc
    have hafter : afterChar c (.arguments b :: scopes) =
        .arguments (if isBlank c then b else false) :: scopes := by
      simp only [afterChar, if_neg hparen, hcomma, hequals, hdouble, hsingle, or_self, if_false,
        false_and]
      split <;> rfl
    obtain ⟨b', hb'⟩ := ih (b := if isBlank c then b else false)
      fun x hx => h x (List.mem_cons_of_mem c hx)
    refine ⟨b', ?_⟩
    rw [List.cons_append, filled_char hdollar fun _ => rfl, hafter, hb', List.cons_append]

/-- Text between quotes stays, and the closing quote leads back. -/
theorem filled_inside {q : Char} (hq : q = '"' ∨ q = '\'') {content : List Char}
    (hdollar : '$' ∉ content) (hinside : staysInside q content = true) :
    filled mapping (.quoted q :: scopes) (content ++ q :: rest) =
      content ++ q :: filled mapping scopes rest := by
  fun_induction staysInside q content with
  | case1 => exact (copies_closing hq scopes).filled mapping rest
  | case2 => cases hinside
  | case3 x s ih =>
    have hs : '$' ∉ s := fun hmem => hdollar (by simp [hmem])
    show filled mapping (.quoted q :: scopes) ('\\' :: x :: (s ++ q :: rest)) = _
    rw [filled_escaped, ih hs hinside]
    rfl
  | case4 c s hend hmore ih =>
    have hbackslash : c ≠ '\\' := by
      intro hc
      cases s with
      | nil => exact hend hc rfl
      | cons x s => exact hmore x s hc rfl
    simp only [Bool.and_eq_true, decide_eq_true_eq] at hinside
    have hs : '$' ∉ s := fun hmem => hdollar (List.mem_cons_of_mem c hmem)
    have hc : c ≠ '$' := fun hc => hdollar (hc ▸ List.mem_cons_self)
    rw [List.cons_append, filled_char hc fun h => absurd h hbackslash, afterChar,
      if_neg hinside.1, ih hs hinside.2, List.cons_append]

/-- A keyword stays, and its argument begins behind the equals sign. -/
theorem filled_keyText {key : Option String} (hkey : IsKeyword key) :
    filled mapping (.arguments true :: scopes) (WholeArgument.keyText key ++ s) =
      WholeArgument.keyText key ++ filled mapping (.arguments true :: scopes) s := by
  cases key with
  | none => rfl
  | some name =>
    have hname := hkey name rfl
    have hne : name.toList ≠ [] := fun hnil => hname.1 (String.toList_inj.mp hnil)
    have hnone : ∀ x ∈ ([] : List Char), isBlank x = true := by simp
    have hcopied := copies_keyword hne hname.2 hnone isBlank_of_mem_space scopes
    rw [List.nil_append, List.singleton_append] at hcopied
    exact hcopied.filled mapping s

/-- An argument stays, or is replaced if it is a parameter. -/
theorem filled_value (hnames : ∀ p ∈ params, IsName p) (value : WholeValue params) {c : Char}
    (hc : c = ',' ∨ c = ')') :
    filled mapping (.arguments true :: scopes) (value.text ++ c :: rest) =
      value.replaced mapping ++
        c :: filled mapping (afterChar c (.arguments true :: scopes)) rest := by
  have hnone : ∀ x ∈ ([] : List Char), isBlank x = true := by simp
  have hend (b : Bool) : filled mapping (.arguments b :: scopes) (c :: rest) =
      c :: filled mapping (afterChar c (.arguments true :: scopes)) rest :=
    filled_end hc hnone b scopes rest
  cases value with
  | parameter name mem inBraces =>
    obtain ⟨hne, hword⟩ := hnames name mem
    -- Written in either way the parameter is an occurrence in the argument list.
    have hrefers :
        Refers name.toList (WholeValue.parameter name mem inBraces).text (c :: rest) := by
      cases inBraces with
      | true => exact .braces hnone hword hnone
      | false =>
        refine .plain ?_ hword (ends_cons.mpr (isBarrier_of_closes hc).not_word)
        exact fun hnil => hne (String.toList_inj.mp hnil)
    rw [filled_refers hrefers, String.ofList_toList, Part.replace, WholeValue.replaced]
    show _ ++ filled mapping (.arguments false :: scopes) (c :: rest) = _
    rw [hend]
    cases mapping.get? name <;> rfl
  | quoted delimiter isQuote content no_dollar inside =>
    have hopens := (copies_opening isQuote scopes).filled mapping
      (content ++ delimiter :: c :: rest)
    rw [filled_inside isQuote no_dollar inside, hend] at hopens
    simpa [WholeValue.replaced, WholeValue.text] using hopens
  | plain text unmarked not_blank =>
    obtain ⟨b', hb'⟩ : ∃ b', filled mapping (.arguments true :: scopes) (text ++ c :: rest) =
        text ++ filled mapping (.arguments b' :: scopes) (c :: rest) := filled_unmarked unmarked
    show filled _ _ (text ++ c :: rest) = _
    rw [hb', hend]
    rfl

/-- Every parameter of an argument list is replaced, up to the closing parenthesis. -/
theorem filled_listText (hnames : ∀ p ∈ params, IsName p) (args : List (WholeArgument params)) :
    filled mapping (.arguments true :: scopes)
        (WholeArgument.listText WholeValue.text args ++ ')' :: rest) =
      WholeArgument.listText (WholeValue.replaced mapping) args ++
        ')' :: filled mapping scopes rest := by
  have hparen : afterChar ')' (.arguments true :: scopes) = scopes := rfl
  have hcomma : afterChar ',' (.arguments true :: scopes) = .arguments true :: scopes := rfl
  have hblank : afterChar ' ' (.arguments true :: scopes) = .arguments true :: scopes := rfl
  induction args with
  | nil => exact filled_char (by decide) fun _ => rfl
  | cons a args ih =>
    cases args with
    | nil =>
      rw [WholeArgument.listText, WholeArgument.listText, List.append_assoc,
        filled_keyText a.isKeyword, filled_value hnames a.value (.inr rfl), hparen,
        List.append_assoc]
    | cons a' args =>
      rw [WholeArgument.listText, WholeArgument.listText, List.append_assoc, List.append_assoc,
        filled_keyText a.isKeyword]
      show _ ++ filled _ _ (a.value.text ++ ',' :: ' ' :: (WholeArgument.listText _ (a' :: args) ++
        ')' :: rest)) = _
      rw [filled_value hnames a.value (.inl rfl), hcomma, filled_char (by decide) fun _ => rfl,
        hblank, ih]
      simp

/-- The parameters of a call are replaced, and nothing else is. -/
theorem toList_apply_call (hnames : ∀ p ∈ params, IsName p) (mapping : Dict Substitution)
    (inBraces : Bool) {name : String} (hname : IsName name) (args : List (WholeArgument params)) :
    (apply mapping (WholeArgument.call inBraces name args)).toList =
      WholeArgument.callText inBraces name (WholeValue.replaced mapping) args := by
  have hnone : ∀ x ∈ ([] : List Char), isBlank x = true := by simp
  have hne : name.toList ≠ [] := fun hnil => hname.1 (String.toList_inj.mp hnil)
  have htext : (WholeArgument.call inBraces name args).toList =
      WholeArgument.callText inBraces name WholeValue.text args := String.toList_ofList
  cases inBraces with
  | false =>
    have happly := toList_apply_of_call mapping hnone hname.2 hne hnone htext
    rw [filled_listText hnames, filled_nil] at happly
    exact happly
  | true =>
    have hcall : bareCall? (WholeArgument.callText true name WholeValue.text args) = none := by
      have hskip (s : List Char) : skipBlanks ('$' :: s) = '$' :: s :=
        skipBlanks_of_ends (ends_cons.mpr (by decide))
      rw [WholeArgument.callText, if_pos rfl, bareCall?, hskip, word_cons_of_not (by decide)]
    have happly := toList_apply_of_not_call mapping (htext.symm ▸ hcall)
    have hfilled := filled_call mapping [] hnone hname.2 hne hnone
      (WholeArgument.listText WholeValue.text args ++ [')', '\x7d'])
    have hbrace : filled mapping (begun []) ['\x7d'] = ['\x7d'] := by
      rw [filled_char (by decide) fun _ => rfl, filled_nil]
    rw [filled_listText hnames, hbrace] at hfilled
    rw [htext] at happly
    exact happly.trans hfilled

end Scanning

/-! ## Reading -/

section Reading

variable {P : Rule Segment} {s rest : List Char}

/-- A text behind a keyword is an argument if it is a value, and none needs no keyword of its own.
-/
theorem isArgument_of_value {key : Option String} (hkey : IsKeyword key) {blanks text : List Char}
    (hblanks : ∀ x ∈ blanks, isBlank x = true) {a : Argument}
    (hnone : keyword (skipBlanks text) = (none, skipBlanks text))
    (hvalue : ∀ (c : Char) (rest : List Char), c = ',' ∨ c = ')' →
      ∃ mid, TakesValue P key (skipBlanks text ++ c :: rest) a mid ∧ skipBlanks mid = c :: rest) :
    IsArgument P (blanks ++ (WholeArgument.keyText key ++ text)) a := by
  intro c rest hc
  obtain ⟨mid, htakes, hmid⟩ := hvalue c rest hc
  refine ⟨mid, (takesArgument_append_cons (isBarrier_of_closes hc)).mpr ?_, hmid⟩
  have hskip (t : List Char) : skipBlanks (blanks ++ t) = skipBlanks t :=
    List.dropWhile_append_of_pos hblanks
  cases key with
  | none =>
    rw [WholeArgument.keyText, List.nil_append, hskip, hnone,
      skipBlanks_of_ends (ends_skipBlanks text)]
    exact htakes
  | some name =>
    have hname := hkey name rfl
    have hstart : Ends isBlank (name.toList ++ '=' :: ' ' :: text) := by
      obtain ⟨x, more, hx, -, hblank⟩ := hname.exists_cons
      rwa [hx, List.cons_append, ends_cons]
    have htext : WholeArgument.keyText (some name) ++ text = name.toList ++ '=' :: ' ' :: text := by
      simp [WholeArgument.keyText]
    have hspace : skipBlanks (' ' :: text) = skipBlanks text := List.dropWhile_cons_of_pos rfl
    rw [htext, hskip, skipBlanks_of_ends hstart, keyword_printKey hname (by simp), hspace]
    exact htakes

/-- Texts of arguments with commas between them are the arguments of a call. -/
theorem takesMore_of_isArgument {valueText : WholeValue params → List Char}
    {args : List (WholeArgument params)} {as : List Argument} (hargs : args ≠ [])
    (h : List.Forall₂ (fun w a => ∀ blanks : List Char, (∀ x ∈ blanks, isBlank x = true) →
      IsArgument P (blanks ++ (WholeArgument.keyText w.key ++ valueText w.value)) a) args as)
    {blanks : List Char} (hblanks : ∀ x ∈ blanks, isBlank x = true) :
    TakesMore P (blanks ++ (WholeArgument.listText valueText args ++ ')' :: rest)) as rest := by
  induction h generalizing blanks with
  | nil => exact absurd rfl hargs
  | @cons w a args as hfirst hmore ih =>
    cases hmore with
    | nil =>
      obtain ⟨mid, htakes, hmid⟩ := hfirst blanks hblanks ')' rest (.inr rfl)
      rw [WholeArgument.listText, ← List.append_assoc]
      exact .last htakes hmid
    | @cons w' a' args as hsecond hothers =>
      have hrest := ih (List.cons_ne_nil _ _) isBlank_of_mem_space
      obtain ⟨mid, htakes, hmid⟩ := hfirst blanks hblanks ','
        (' ' :: (WholeArgument.listText valueText (w' :: args) ++ ')' :: rest)) (.inl rfl)
      have htaken : TakesMore P _ (a :: a' :: as) rest := .more htakes hmid hrest
      simpa [WholeArgument.listText] using htaken

theorem takesArguments_of_isArgument {valueText : WholeValue params → List Char}
    {args : List (WholeArgument params)} {as : List Argument}
    (h : List.Forall₂ (fun w a => ∀ blanks : List Char, (∀ x ∈ blanks, isBlank x = true) →
      IsArgument P (blanks ++ (WholeArgument.keyText w.key ++ valueText w.value)) a) args as) :
    TakesArguments P (WholeArgument.listText valueText args ++ ')' :: rest) as rest := by
  by_cases hargs : args = []
  · subst hargs
    cases h
    exact .none (skipBlanks_of_ends (ends_cons.mpr (by decide)))
  · have hnone : ∀ x ∈ ([] : List Char), isBlank x = true := by simp
    exact (takesMore_of_isArgument hargs h hnone).arguments

/-! ### Values -/

/-- A piece that is a placeholder makes an argument of its own. -/
theorem exists_takesValue_of_placeholder (key : Option String) {text : List Char} {name : String}
    (hstart : text.head? = some '$')
    (htext : ∀ (c : Char) (rest : List Char), c = ',' ∨ c = ')' →
      TakesPiece P .argument (text ++ c :: rest) (.placeholder (.var name)) (c :: rest)) :
    ∃ a, a.key = key ∧ a.content = .expr [.var name] ∧
      ∀ (c : Char) (rest : List Char), c = ',' ∨ c = ')' →
        ∃ mid, TakesValue P key (text ++ c :: rest) a mid ∧ skipBlanks mid = c :: rest := by
  refine ⟨.expr key [.var name] (String.ofList (trimEnd text)), rfl, rfl, fun c rest hc => ?_⟩
  have hends : TakesPieces P .argument (c :: rest) [] (c :: rest) :=
    .done (by simpa [Stop.endsAt] using hc)
  have hbody := TakesPieces.cons_placeholder rfl (htext c rest hc) hends
  have hquote : ∀ q, (text ++ c :: rest).head? = some q → ¬(q = '"' ∨ q = '\'') := by
    intro q hq
    obtain ⟨t, rfl⟩ := List.head?_eq_some_iff.mp hstart
    obtain rfl : '$' = q := Option.some.inj hq
    decide
  have hvalue := takesValue_of_pieces key hquote hbody (List.cons_ne_nil _ _)
  rw [taken_append] at hvalue
  exact ⟨c :: rest, hvalue, skipBlanks_closes hc rest⟩

/-- A text between quotes is read up to the closing quote. -/
theorem exists_takesPieces_inside {q : Char} (hq : q = '"' ∨ q = '\'') {content : List Char}
    (hdollar : '$' ∉ content) (hinside : staysInside q content = true) :
    ∃ ps, ∀ rest, TakesPieces P (.quote q) (content ++ q :: rest) ps (q :: rest) := by
  have hbackslash : (Stop.quote q).endsAt '\\' = false := by rcases hq with rfl | rfl <;> decide
  fun_induction staysInside q content with
  | case1 => exact ⟨[], fun rest => .done fun c hc => by simpa [Stop.endsAt] using hc.symm⟩
  | case2 => cases hinside
  | case3 x s ih =>
    have hs : '$' ∉ s := fun hmem => hdollar (by simp [hmem])
    have hx : x ≠ '$' := fun hx => hdollar (by simp [hx])
    obtain ⟨ps, hps⟩ := ih hs hinside
    by_cases hescapes : (Stop.quote q).escapes x = true
    · exact ⟨.char x :: ps, fun rest => .more hbackslash (.escaped hescapes) (hps rest)⟩
    · -- The backslash stays, and so does the character behind it.
      have hplain : x ≠ q ∧ x ≠ '\\' := by simpa [Stop.escapes] using hescapes
      have hgoes : (Stop.quote q).endsAt x = false := by simpa [Stop.endsAt] using hplain.1
      refine ⟨.char '\\' :: .char x :: ps, fun rest => .more hbackslash (.backslash ?_)
        (.more hgoes (.char hplain.2 hx) (hps rest))⟩
      intro y hy
      obtain rfl : x = y := Option.some.inj hy
      simpa using hescapes
  | case4 c s hend hmore ih =>
    have hc : c ≠ '\\' := by
      intro hc
      cases s with
      | nil => exact hend hc rfl
      | cons x s => exact hmore x s hc rfl
    simp only [Bool.and_eq_true, decide_eq_true_eq] at hinside
    have hs : '$' ∉ s := fun hmem => hdollar (List.mem_cons_of_mem c hmem)
    have hc' : c ≠ '$' := fun hc => hdollar (hc ▸ List.mem_cons_self)
    obtain ⟨ps, hps⟩ := ih hs hinside.2
    have hgoes : (Stop.quote q).endsAt c = false := by simpa [Stop.endsAt] using hinside.1
    exact ⟨.char c :: ps, fun rest => .more hgoes (.char hc hc') (hps rest)⟩

/-- Text without any mark is read up to the end of the argument. -/
theorem takesPieces_unmarked {text : List Char} (h : ∀ c ∈ text, c ∉ markedChars) {c : Char}
    (hc : c = ',' ∨ c = ')') :
    TakesPieces P .argument (text ++ c :: rest) (text.map .char) (c :: rest) := by
  induction text with
  | nil => exact .done fun x hx => by simpa [Stop.endsAt, ← Option.some.inj hx] using hc
  | cons x text ih =>
    have hx := h x List.mem_cons_self
    simp only [markedChars, List.mem_cons, List.not_mem_nil, or_false, not_or] at hx
    obtain ⟨hdollar, -, -, -, hcomma, hparen⟩ := hx
    have hgoes : Stop.argument.endsAt x = false := by simp [Stop.endsAt, hcomma, hparen]
    have hmore := ih fun y hy => h y (List.mem_cons_of_mem x hy)
    by_cases hbackslash : x = '\\'
    · subst hbackslash
      exact .more hgoes (.backslash fun _ _ => rfl) hmore
    · exact .more hgoes (.char hbackslash hdollar) hmore

/-- Without an equals sign there is no keyword. -/
theorem keyword_of_not_mem (h : '=' ∉ s) : keyword s = (none, s) := by
  unfold keyword
  split
  · next hkey =>
    obtain ⟨w, mid, hword, -, hskip, -⟩ := keyword?_eq_some_iff.mp hkey
    have hequals : '=' ∈ skipBlanks mid := hskip ▸ List.mem_cons_self
    have hmid : '=' ∈ mid := (List.dropWhile_sublist isBlank).subset hequals
    rw [(word_eq_iff.mp hword).1] at h
    exact absurd (List.mem_append_right w hmid) h
  · rfl

/-- A text between quotes is an argument, whatever stands around it. -/
theorem exists_isArgument_quoted {key : Option String} (hkey : IsKeyword key) {q : Char}
    (hq : q = '"' ∨ q = '\'') {content : List Char} (hdollar : '$' ∉ content)
    (hinside : staysInside q content = true) :
    ∃ a : Argument, a.key = key ∧ ∀ blanks : List Char, (∀ x ∈ blanks, isBlank x = true) →
      IsArgument P (blanks ++ (WholeArgument.keyText key ++ q :: (content ++ [q]))) a := by
  obtain ⟨ps, hps⟩ := exists_takesPieces_inside (P := P) hq hdollar hinside
  have hbarrier := isBarrier_quote hq
  have hskip : skipBlanks (q :: (content ++ [q])) = q :: (content ++ [q]) :=
    skipBlanks_of_ends (ends_cons.mpr hbarrier.not_blank)
  refine ⟨.quoted key q (ofPieces ps) (String.ofList content), rfl, fun blanks hblanks => ?_⟩
  refine isArgument_of_value hkey hblanks ?_ fun c rest hc =>
    ⟨c :: rest, ?_, skipBlanks_closes hc rest⟩
  · rw [hskip]
    exact keyword_of_not_word hbarrier.not_word
  · have htakes : TakesValue P key _ _ _ := .quoted hq (hps (c :: rest))
    rw [taken_append] at htakes
    rw [hskip]
    simpa using htakes

/-- Text without any mark is an argument if it is not blank, whatever stands around it. -/
theorem exists_isArgument_plain {key : Option String} (hkey : IsKeyword key) {text : List Char}
    (unmarked : ∀ c ∈ text, c ∉ markedChars) (not_blank : ∃ c ∈ text, isBlank c = false) :
    ∃ a : Argument, a.key = key ∧ ∀ blanks : List Char, (∀ x ∈ blanks, isBlank x = true) →
      IsArgument P (blanks ++ (WholeArgument.keyText key ++ text)) a := by
  have htext : ∀ c ∈ skipBlanks text, c ∉ markedChars := fun c hc =>
    unmarked c ((List.dropWhile_sublist isBlank).subset hc)
  obtain ⟨x, t, ht⟩ : ∃ x t, skipBlanks text = x :: t := by
    refine List.exists_cons_of_ne_nil fun hnil => ?_
    obtain ⟨c, hc, hblank⟩ := not_blank
    obtain ⟨blanks, htext, hblanks⟩ := exists_eq_skipBlanks_append text
    rw [hnil, List.append_nil] at htext
    have hc' := hblanks c (htext ▸ hc)
    rw [hblank] at hc'
    cases hc'
  have hx : isBlank x = false := head?_skipBlanks text x (by rw [ht]; rfl)
  have hquote : ¬(x = '"' ∨ x = '\'') := by
    have hmarked := htext x (ht ▸ List.mem_cons_self)
    simp only [markedChars, List.mem_cons, not_or] at hmarked
    exact fun h => h.elim hmarked.2.1 hmarked.2.2.1
  have hne : trimLast (ofPieces ((x :: t).map .char)) ≠ [] :=
    trimLast_ofPieces_ne_nil (fun c hc => by rwa [← Piece.char.inj hc]) (fun _ h => by cases h) _
  refine ⟨unquoted key (trimLast (ofPieces ((x :: t).map .char)))
    (String.ofList (trimEnd (x :: t))), ?_, fun blanks hblanks => ?_⟩
  · unfold unquoted
    split <;> rfl
  refine isArgument_of_value hkey hblanks ?_ fun c rest hc =>
    ⟨c :: rest, ?_, skipBlanks_closes hc rest⟩
  · exact keyword_of_not_mem fun hmem => htext '=' hmem (by decide)
  · have hbody : TakesPieces P .argument (skipBlanks text ++ c :: rest) _ (c :: rest) :=
      takesPieces_unmarked htext hc
    rw [ht] at hbody ⊢
    have hquote' : ∀ q, (x :: t ++ c :: rest).head? = some q → ¬(q = '"' ∨ q = '\'') := by
      intro q hq
      rwa [← Option.some.inj hq]
    have htakes := takesValue_of_pieces key hquote' hbody hne
    rwa [taken_append] at htakes

end Reading

/-! ## Replacing whole arguments -/

/-- A reader reads one thing from a text. -/
theorem Template.Reads.unique {α : Type} {reader : Reader α} {s rest rest' : List Char} {a a' : α}
    (h : Reads reader s a rest) (h' : Reads reader s a' rest') : a = a' := by
  obtain ⟨hle, h⟩ := h
  obtain ⟨hle', h'⟩ := h'
  rw [h] at h'
  cases h'
  rfl

theorem takesValue_unique {room : ℕ} {key : Option String} {s rest rest' : List Char}
    {a a' : Argument} (h : TakesValue (TakesPlaceholder room) key s a rest)
    (h' : TakesValue (TakesPlaceholder room) key s a' rest') : a = a' := by
  rw [← reads_placeholder] at h h'
  exact (reads_argumentValue_iff.mpr h).unique (reads_argumentValue_iff.mpr h')

/-- What has become of an argument that was `before`: a parameter stands for what the argument of
the reference at its place stands for, and anything else is unchanged. -/
def Becomes (h : FragmentHead) (r : Reference) (w : WholeArgument h.params)
    (before after : Argument) : Prop :=
  after.key = w.key ∧
    match w.value with
    | .parameter name _ _ =>
      ∃ a, (name, a) ∈ h.params.zip r.call.args ∧ after.content = a.content
    | _ => after = before

section

variable {h : FragmentHead} {r : Reference} {mapping : Dict Substitution} {room : ℕ}

/-- A parameter is read as a variable, bare or in braces. -/
theorem exists_takesValue_parameter (room : ℕ) (key : Option String) {name : String}
    (hname : IsName name) (mem : name ∈ params) (inBraces : Bool) :
    ∃ a, a.key = key ∧ a.content = .expr [.var name] ∧
      ∀ (c : Char) (rest : List Char), c = ',' ∨ c = ')' →
        ∃ mid, TakesValue (TakesPlaceholder (room + 1)) key
          ((WholeValue.parameter name mem inBraces).text ++ c :: rest) a mid ∧
          skipBlanks mid = c :: rest := by
  have hnone : ∀ x ∈ ([] : List Char), isBlank x = true := by simp
  have hne : name.toList ≠ [] := fun hnil => hname.1 (String.toList_inj.mp hnil)
  have hstart : (WholeValue.parameter name mem inBraces).text.head? = some '$' := by
    cases inBraces <;> rfl
  refine exists_takesValue_of_placeholder key hstart fun c rest hc => ?_
  have hrefers : Refers name.toList (WholeValue.parameter name mem inBraces).text (c :: rest) := by
    cases inBraces with
    | true => exact .braces hnone hname.2 hnone
    | false => exact .plain hne hname.2 (ends_cons.mpr (isBarrier_of_closes hc).not_word)
  have hpiece : TakesPiece (TakesPlaceholder (room + 1)) .argument _
      (.placeholder (.var (String.ofList name.toList))) (c :: rest) :=
    hrefers.takesPiece (deepens_takesPlaceholder room) hne
  rwa [String.ofList_toList] at hpiece

/-- A parameter is an argument, whatever stands around it. -/
theorem exists_isArgument_parameter (room : ℕ) {key : Option String} (hkey : IsKeyword key)
    {name : String} (hname : IsName name) (mem : name ∈ params) (inBraces : Bool) :
    ∃ a, a.key = key ∧ a.content = .expr [.var name] ∧
      ∀ blanks : List Char, (∀ x ∈ blanks, isBlank x = true) →
        IsArgument (TakesPlaceholder (room + 1)) (blanks ++ (WholeArgument.keyText key ++
          (WholeValue.parameter name mem inBraces).text)) a := by
  obtain ⟨a, ha, hcontent, htakes⟩ := exists_takesValue_parameter room key hname mem inBraces
  have htext : skipBlanks (WholeValue.parameter name mem inBraces).text =
      (WholeValue.parameter name mem inBraces).text := by
    cases inBraces <;> exact skipBlanks_of_ends (ends_cons.mpr (by decide))
  have hnone : keyword (WholeValue.parameter name mem inBraces).text =
      (none, (WholeValue.parameter name mem inBraces).text) := by
    cases inBraces <;> exact keyword_of_not_word (by decide)
  refine ⟨a, ha, hcontent, fun blanks hblanks => ?_⟩
  refine isArgument_of_value hkey hblanks (by rw [htext, hnone]) fun c rest hc => ?_
  rw [htext]
  exact htakes c rest hc

/-- An argument that passes a parameter on is a variable of the same name. -/
theorem content_of_passed_on {a : Argument} (ha : Rereads (TakesPlaceholder (room + 1)) a)
    {name : String} (hname : IsName name) (hraw : a.raw = "$" ++ name) :
    a.content = .expr [.var name] := by
  obtain ⟨mid, hvalue, -⟩ := ha.value none (.inr rfl : ')' = ',' ∨ ')' = ')') []
  obtain ⟨a', -, hcontent, htakes⟩ :=
    exists_takesValue_parameter room none hname (List.mem_singleton_self name) false
  obtain ⟨mid', hvalue', -⟩ := htakes ')' [] (.inr rfl)
  rw [hraw, String.toList_append] at hvalue
  have hsame : a.withKey none = a' := takesValue_unique hvalue hvalue'
  rw [← hcontent, ← hsame, Argument.content_withKey]

/-- A parameter becomes the argument that it is bound to. -/
theorem exists_becomes_parameter (hnodup : h.params.Nodup) (hnames : ∀ p ∈ h.params, IsName p)
    (hreread : ∀ a ∈ r.call.args, Rereads (TakesPlaceholder (room + 1)) a)
    (hkeys : ∀ a ∈ r.call.args, a.key = none) (hbind : h.bind r = .ok mapping)
    {key : Option String} (hkey : IsKeyword key) {name : String} (mem : name ∈ h.params)
    (inBraces : Bool) :
    ∃ before after, Becomes h r ⟨key, hkey, .parameter name mem inBraces⟩ before after ∧
      ∀ blanks : List Char, (∀ x ∈ blanks, isBlank x = true) →
        IsArgument (TakesPlaceholder (room + 1)) (blanks ++ (WholeArgument.keyText key ++
          (WholeValue.parameter name mem inBraces : WholeValue h.params).text)) before ∧
        IsArgument (TakesPlaceholder (room + 1)) (blanks ++ (WholeArgument.keyText key ++
          (WholeValue.parameter name mem inBraces).replaced mapping)) after := by
  obtain ⟨hlength, -⟩ := FragmentHead.bind_eq_ok.mp hbind
  obtain ⟨a, hzip⟩ : ∃ a, (name, a) ∈ h.params.zip r.call.args := by
    have hmem := mem
    rw [← List.map_fst_zip (Nat.le_of_eq hlength.symm)] at hmem
    obtain ⟨⟨_, a⟩, hzip, rfl⟩ := List.mem_map.mp hmem
    exact ⟨a, hzip⟩
  have ha := hreread a (List.of_mem_zip hzip).2
  have hget := FragmentHead.get?_bind hnodup hbind hzip
  obtain ⟨before, hbefore, hcontent, hwritten⟩ :=
    exists_isArgument_parameter room hkey (hnames name mem) mem inBraces
  by_cases hraw : a.raw = "$" ++ name
  · rw [if_pos hraw] at hget
    have hreplaced : (WholeValue.parameter name mem inBraces).replaced mapping =
        (WholeValue.parameter name mem inBraces : WholeValue h.params).text := by
      simp only [WholeValue.replaced, hget]
    have hsame := content_of_passed_on ha (hnames name mem) hraw
    refine ⟨before, before, ⟨hbefore, a, hzip, hcontent.trans hsame.symm⟩, fun blanks hblanks => ?_⟩
    rw [hreplaced]
    exact ⟨hwritten blanks hblanks, hwritten blanks hblanks⟩
  · rw [if_neg hraw] at hget
    have hreplaced : (WholeValue.parameter name mem inBraces).replaced mapping = a.raw.toList := by
      simp only [WholeValue.replaced, hget]
    have hskip := skipBlanks_of_ends ha.starts
    refine ⟨before, a.withKey key, ⟨a.key_withKey key, a, hzip, a.content_withKey key⟩,
      fun blanks hblanks => ⟨hwritten blanks hblanks, ?_⟩⟩
    rw [hreplaced]
    refine isArgument_of_value hkey hblanks ?_ fun c rest hc => ?_
    · rw [hskip]
      exact ha.no_keyword (hkeys a (List.of_mem_zip hzip).2)
    · rw [hskip]
      exact ha.value key hc rest

/-- An argument is read as it was written and as it is replaced. -/
theorem exists_becomes (hnodup : h.params.Nodup) (hnames : ∀ p ∈ h.params, IsName p)
    (hreread : ∀ a ∈ r.call.args, Rereads (TakesPlaceholder (room + 1)) a)
    (hkeys : ∀ a ∈ r.call.args, a.key = none) (hbind : h.bind r = .ok mapping)
    (w : WholeArgument h.params) :
    ∃ before after, Becomes h r w before after ∧
      ∀ blanks : List Char, (∀ x ∈ blanks, isBlank x = true) →
        IsArgument (TakesPlaceholder (room + 1))
          (blanks ++ (WholeArgument.keyText w.key ++ w.value.text)) before ∧
        IsArgument (TakesPlaceholder (room + 1))
          (blanks ++ (WholeArgument.keyText w.key ++ w.value.replaced mapping)) after := by
  obtain ⟨key, hkey, value⟩ := w
  cases value with
  | parameter name mem inBraces =>
    exact exists_becomes_parameter hnodup hnames hreread hkeys hbind hkey mem inBraces
  | quoted q isQuote content no_dollar inside =>
    obtain ⟨a, ha, hargument⟩ := exists_isArgument_quoted hkey isQuote no_dollar inside
    exact ⟨a, a, ⟨ha, rfl⟩, fun blanks hblanks =>
      ⟨hargument blanks hblanks, hargument blanks hblanks⟩⟩
  | plain text unmarked not_blank =>
    obtain ⟨a, ha, hargument⟩ := exists_isArgument_plain hkey unmarked not_blank
    exact ⟨a, a, ⟨ha, rfl⟩, fun blanks hblanks =>
      ⟨hargument blanks hblanks, hargument blanks hblanks⟩⟩

/-- A list of arguments is read as it was written and as it is replaced, place by place. -/
theorem exists_pairs (room : ℕ) (hnodup : h.params.Nodup) (hnames : ∀ p ∈ h.params, IsName p)
    (hreread : ∀ a ∈ r.call.args, Rereads (TakesPlaceholder (room + 1)) a)
    (hkeys : ∀ a ∈ r.call.args, a.key = none) (hbind : h.bind r = .ok mapping)
    (args : List (WholeArgument h.params)) :
    ∃ pairs : List (Argument × Argument),
      List.Forall₂ (fun w p => Becomes h r w p.1 p.2) args pairs ∧
      (∀ rest, TakesArguments (TakesPlaceholder (room + 1))
        (WholeArgument.listText WholeValue.text args ++ ')' :: rest) (pairs.map Prod.fst) rest) ∧
      ∀ rest, TakesArguments (TakesPlaceholder (room + 1))
        (WholeArgument.listText (WholeValue.replaced mapping) args ++ ')' :: rest)
        (pairs.map Prod.snd) rest := by
  have hexists (w : WholeArgument h.params) :=
    exists_becomes hnodup hnames hreread hkeys hbind w
  choose before after hbecomes hread using hexists
  refine ⟨args.map fun w => (before w, after w), ?_, fun rest => ?_, fun rest => ?_⟩
  · rw [List.forall₂_map_right_iff, List.forall₂_same]
    exact fun w _ => hbecomes w
  · refine takesArguments_of_isArgument ?_
    rw [List.map_map, List.forall₂_map_right_iff, List.forall₂_same]
    exact fun w _ blanks hblanks => (hread w blanks hblanks).1
  · refine takesArguments_of_isArgument ?_
    rw [List.map_map, List.forall₂_map_right_iff, List.forall₂_same]
    exact fun w _ blanks hblanks => (hread w blanks hblanks).2

/-- Arguments behind the name of a verb make a call. -/
theorem isCallText_callText {name : String} (hname : IsName name) (inBraces : Bool)
    {valueText : WholeValue params → List Char} {args : List (WholeArgument params)}
    {as : List Argument}
    (h : ∀ rest, TakesArguments (TakesPlaceholder room)
      (WholeArgument.listText valueText args ++ ')' :: rest) as rest) :
    IsCallText (if inBraces then room + 1 else room)
      (WholeArgument.callText inBraces name valueText args) ⟨name, as⟩ := by
  cases inBraces with
  | false => exact isCallText_bare hname h
  | true => exact isCallText_braces hname h

/-- A parameter that is a whole argument of a call is replaced by the argument it is bound to, and
every other argument of the call stays as it is. -/
theorem parseCall_apply_whole {location text : String}
    (hhead : FragmentHead.parse location text = .ok h) {kind : FragmentKind} {limit : ℕ}
    {reference : String}
    (hreference : Reference.parse kind limit reference = .ok r)
    (hkeys : ∀ a ∈ r.call.args, a.key = none) (hbind : h.bind r = .ok mapping) {name : String}
    (hname : IsName name) (inBraces : Bool) (args : List (WholeArgument h.params)) :
    ∃ room, ∀ limit' ≥ room, ∃ pairs : List (Argument × Argument),
      parseCall limit' (WholeArgument.call inBraces name args) = .ok ⟨name, pairs.map Prod.fst⟩ ∧
      parseCall limit' (apply mapping (WholeArgument.call inBraces name args)) =
        .ok ⟨name, pairs.map Prod.snd⟩ ∧
      List.Forall₂ (fun w p => Becomes h r w p.1 p.2) args pairs := by
  obtain ⟨hnodup, hnames⟩ := FragmentHead.params_of_parse hhead
  have hreread := FragmentHead.rereads_of_parse hreference
  refine ⟨limit + 2, fun limit' hlimit => ?_⟩
  obtain ⟨k, rfl⟩ : ∃ k, limit' = k + 2 := ⟨limit' - 2, by omega⟩
  have hk : limit ≤ k := by omega
  -- In braces the call takes a level of its own.
  obtain ⟨room, hroom, hlevels⟩ :
      ∃ room, limit ≤ room + 1 ∧ (if inBraces then room + 1 + 1 else room + 1) = k + 2 := by
    cases inBraces with
    | true => exact ⟨k, by omega, rfl⟩
    | false => exact ⟨k + 1, by omega, rfl⟩
  obtain ⟨pairs, hbecomes, hwritten, hreplaced⟩ := exists_pairs room hnodup hnames
    (fun a ha => (hreread a ha).mono hroom) hkeys hbind args
  refine ⟨pairs, parseCall_of_isCallText ?_, parseCall_of_isCallText ?_, hbecomes⟩
  · have hcall := isCallText_callText hname inBraces hwritten
    rw [hlevels] at hcall
    rwa [WholeArgument.call, String.toList_ofList]
  · have hcall := isCallText_callText hname inBraces hreplaced
    rw [hlevels] at hcall
    rwa [toList_apply_call hnames mapping inBraces hname args]

end

/-! ## An example -/

/-- The head of a fragment with two parameters. -/
def loginHead : FragmentHead :=
  ⟨"login", ["user", "pwd"]⟩

/-- The arguments of `post(as= $user, ${pwd}, "x")`. -/
def loginArguments : List (WholeArgument loginHead.params) :=
  [⟨some "as", fun _ h => Option.some.inj h ▸ ⟨by decide, List.all_eq_true.mp (by decide)⟩,
      .parameter "user" (by simp [loginHead]) false⟩,
    ⟨none, nofun, .parameter "pwd" (by simp [loginHead]) true⟩,
    ⟨none, nofun, .quoted '"' (.inl rfl) ['x'] (by decide) rfl⟩]

/-- The text between quotes that the reference passes stays one argument, with its comma. -/
theorem parseCall_apply_whole_login :
    FragmentHead.parse "" "login($user, $pwd)" = .ok loginHead ∧
      WholeArgument.call false "post" loginArguments = "post(as= $user, $\x7bpwd\x7d, \"x\")" ∧
      ∃ r mapping, Reference.parse .api 1 "login(admin, \"a, b\")" = .ok r ∧
        loginHead.bind r = .ok mapping ∧
        apply mapping "post(as= $user, $\x7bpwd\x7d, \"x\")" = "post(as= admin, \"a, b\", \"x\")" ∧
        ∃ room, ∀ limit ≥ room, ∃ pairs : List (Argument × Argument),
          parseCall limit "post(as= $user, $\x7bpwd\x7d, \"x\")" =
            .ok ⟨"post", pairs.map Prod.fst⟩ ∧
          parseCall limit "post(as= admin, \"a, b\", \"x\")" = .ok ⟨"post", pairs.map Prod.snd⟩ ∧
          List.Forall₂ (fun w p => Becomes loginHead r w p.1 p.2) loginArguments pairs := by
  have hhead : FragmentHead.parse "" "login($user, $pwd)" = .ok loginHead := by decide +kernel
  have hcall : WholeArgument.call false "post" loginArguments =
      "post(as= $user, $\x7bpwd\x7d, \"x\")" := by decide +kernel
  have hbound : (Reference.parse .api 1 "login(admin, \"a, b\")").map
      (fun r => (r.call.args.map Argument.key, loginHead.bind r)) =
      .ok ([none, none], .ok [("pwd", ⟨"a, b", "\"a, b\""⟩), ("user", ⟨"admin", "admin"⟩)]) := by
    decide +kernel
  obtain ⟨r, hr, hpair⟩ := Casebook.Computation.map_eq_ok.mp hbound
  obtain ⟨hkeys, hbind⟩ := Prod.mk.inj hpair
  have hnone : ∀ a ∈ r.call.args, a.key = none := by
    intro a ha
    have hmem : a.key ∈ [none, none] := hkeys ▸ List.mem_map_of_mem ha
    simpa using hmem
  have hname : IsName "post" := ⟨by decide, List.all_eq_true.mp (by decide)⟩
  have happly : apply [("pwd", ⟨"a, b", "\"a, b\""⟩), ("user", ⟨"admin", "admin"⟩)]
      "post(as= $user, $\x7bpwd\x7d, \"x\")" = "post(as= admin, \"a, b\", \"x\")" := by
    decide +kernel
  have hwhole := parseCall_apply_whole hhead hr hnone hbind hname false loginArguments
  rw [hcall, happly] at hwhole
  exact ⟨hhead, hcall, r, _, hr, hbind, happly, hwhole⟩

end Casebook
