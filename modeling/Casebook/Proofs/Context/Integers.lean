import Casebook.Context.Builtin
import Casebook.Definition.Action
import Casebook.Proofs.Context.Nesting
import Casebook.Proofs.Context.Reading
import Casebook.Proofs.Decimal.Range
import Casebook.Proofs.Template.Calls
import Casebook.Proofs.Template.RoundTrip
import Mathlib.Data.List.TakeWhile

/-!
# Integers without quotes

An argument without quotes is typed, and verbs that compare texts compare it as it is rendered. An
integer that a signed word holds is rendered with the digits it was written with. One that no word
holds becomes the nearest floating point number, whose text has a point or an exponent in it, unless
there is none: so large an integer is no number and stays the text that it was.

Main statement: a text of an integer is what it is rendered as exactly if a signed word holds the
integer or floating point numbers do not reach it, and `VerifyVar` and `VerifyEqual` accept a
variable with this text exactly then.
-/

namespace Casebook

open Computation

/-! ## Texts of integers -/

namespace Decimal

/-- Digits with no zero in front of others, perhaps behind a minus if they are not zero. -/
inductive IsInteger : List Char → Prop where
  | zero : IsInteger ['0']
  | positive {c : Char} {s : List Char} (first : isDigit c = true) (ne_zero : c ≠ '0')
      (digits : s.all isDigit = true) : IsInteger (c :: s)
  | negative {c : Char} {s : List Char} (first : isDigit c = true) (ne_zero : c ≠ '0')
      (digits : s.all isDigit = true) : IsInteger ('-' :: c :: s)

theorem digitChar_of_isDigit {c : Char} (h : isDigit c = true) :
    c.toNat - '0'.toNat < 10 ∧ Nat.digitChar (c.toNat - '0'.toNat) = c := by
  simp only [isDigit, Bool.and_eq_true, decide_eq_true_eq, Char.le_def,
    UInt32.le_iff_toNat_le] at h
  have hzero : '0'.val.toNat = 48 := rfl
  have hnine : '9'.val.toNat = 57 := rfl
  have hlt : c.toNat - '0'.toNat < 10 := by
    show c.val.toNat - '0'.val.toNat < 10
    omega
  refine ⟨hlt, Char.toNat_inj.mp ?_⟩
  rw [Nat.toNat_digitChar_of_lt_ten hlt]
  show 48 + (c.val.toNat - '0'.val.toNat) = c.val.toNat
  omega

/-- Digits behind those of a number that is not zero are digits of the number they lead to. The
induction is on the digits, with any number in front. -/
theorem toDigits_foldl {s : List Char} (hs : s.all isDigit = true) {n : ℕ} (hn : 0 < n) :
    Nat.toDigits 10 (s.foldl (fun n d => 10 * n + (d.toNat - '0'.toNat)) n) =
      Nat.toDigits 10 n ++ s := by
  induction s generalizing n with
  | nil => exact (List.append_nil _).symm
  | cons d s ih =>
    obtain ⟨hd, hs⟩ := Bool.and_eq_true_iff.mp hs
    obtain ⟨hlt, hchar⟩ := digitChar_of_isDigit hd
    have hnext : Nat.toDigits 10 (10 * n + (d.toNat - '0'.toNat)) = Nat.toDigits 10 n ++ [d] := by
      rw [← Nat.toDigits_append_toDigits (by decide) hn hlt, Nat.toDigits_of_lt_base hlt, hchar]
    rw [List.foldl_cons, ih hs (by omega), hnext, List.append_assoc, List.singleton_append]

/-- Digits without a zero in front are those of the number they are read as. -/
theorem toDigits_natOfDigits {c : Char} {s : List Char} (hc : isDigit c = true) (hne : c ≠ '0')
    (hs : s.all isDigit = true) :
    0 < natOfDigits (c :: s) ∧ Nat.toDigits 10 (natOfDigits (c :: s)) = c :: s := by
  obtain ⟨hlt, hchar⟩ := digitChar_of_isDigit hc
  have hfirst : 0 < c.toNat - '0'.toNat := by
    by_contra hzero
    rw [Nat.eq_zero_of_not_pos hzero] at hchar
    exact hne hchar.symm
  have hdigits : Nat.toDigits 10 (natOfDigits (c :: s)) = c :: s := by
    show Nat.toDigits 10 (s.foldl _ (10 * 0 + (c.toNat - '0'.toNat))) = _
    rw [toDigits_foldl hs (by omega), Nat.mul_zero, Nat.zero_add, Nat.toDigits_of_lt_base hlt,
      hchar, List.singleton_append]
  refine ⟨Nat.pos_of_ne_zero fun hzero => hne ?_, hdigits⟩
  rw [hzero] at hdigits
  exact (List.cons.inj hdigits).1.symm

/-- A text of an integer is its decimal text. -/
theorem IsInteger.exists_toString {s : List Char} (h : IsInteger s) :
    ∃ i : ℤ, s = (toString i).toList := by
  cases h with
  | zero => exact ⟨0, rfl⟩
  | @positive c s first ne_zero digits =>
    obtain ⟨-, hdigits⟩ := toDigits_natOfDigits first ne_zero digits
    refine ⟨natOfDigits (c :: s), ?_⟩
    rw [Literal.toList_toString, if_neg (by omega), Int.natAbs_natCast, hdigits]
  | @negative c s first ne_zero digits =>
    obtain ⟨hpos, hdigits⟩ := toDigits_natOfDigits first ne_zero digits
    refine ⟨-natOfDigits (c :: s), ?_⟩
    rw [Literal.toList_toString, if_pos (by omega), Int.natAbs_neg, Int.natAbs_natCast, hdigits]

theorem unsigned?_of_digits {s : List Char} (hne : s ≠ []) (hs : s.all isDigit = true) :
    unsigned? s = some (nearest (natOfDigits s) 0) := by
  have htake : s.takeWhile isDigit = s :=
    List.takeWhile_eq_self_iff.mpr (List.all_eq_true.mp hs)
  have hdrop : s.dropWhile isDigit = [] := List.dropWhile_eq_nil_iff.mpr (List.all_eq_true.mp hs)
  simp [unsigned?, htake, hdrop, hne, exponentPart?]

theorem float?_toString (i : ℤ) :
    float? (toString i).toList =
      some (if i < 0 then -nearest i.natAbs 0 else nearest i.natAbs 0) := by
  have hne : Nat.toDigits 10 i.natAbs ≠ [] := Nat.toDigits_ne_nil
  have hall : (Nat.toDigits 10 i.natAbs).all isDigit = true :=
    List.all_eq_true.mpr fun c => Literal.isDigit_of_mem_toDigits
  have hunsigned := unsigned?_of_digits hne hall
  rw [Literal.natOfDigits_toDigits] at hunsigned
  rw [Literal.toList_toString]
  split
  · rw [float?, hunsigned]
    rfl
  · rw [← hunsigned]
    obtain ⟨c, rest, h⟩ := List.exists_cons_of_ne_nil hne
    have hc : isDigit c = true := Literal.isDigit_of_mem_toDigits (h ▸ List.mem_cons_self)
    rw [h]
    unfold float?
    split
    · next heq => exact absurd (List.cons.inj heq).1 (Literal.ne_minus_of_isDigit hc)
    · next heq => exact absurd (List.cons.inj heq).1 (Literal.ne_plus_of_isDigit hc)
    · rfl

end Decimal

/-! ## Texts of floating point numbers -/

namespace FloatFormat

theorem point_mem_plain (digits : List Char) (whole : ℤ) : '.' ∈ plain digits whole := by
  unfold plain
  split
  · simp
  · split <;> simp

theorem exponent_mem_scientific (digits : List Char) (exponent : ℤ) :
    'e' ∈ scientific digits exponent := by
  simp [scientific]

/-- In the text of a floating point number stands a point or an exponent. -/
theorem exists_mem_text (format : FloatFormat) (x : Float) :
    ∃ c ∈ (format.text x).toList, c = '.' ∨ c = 'e' := by
  have hsigned {sign body : List Char} (h : ∃ c ∈ body, c = '.' ∨ c = 'e') :
      ∃ c ∈ sign ++ body, c = '.' ∨ c = 'e' := by
    obtain ⟨c, hmem, hc⟩ := h
    exact ⟨c, List.mem_append_right sign hmem, hc⟩
  unfold text
  dsimp only
  rw [String.toList_ofList]
  refine hsigned ?_
  split
  · exact ⟨'.', by decide, .inl rfl⟩
  · split
    · exact ⟨'.', point_mem_plain _ _, .inl rfl⟩
    · exact ⟨'e', exponent_mem_scientific _ _, .inr rfl⟩

end FloatFormat

theorem Number.text_float_ne_toString (x : Float) (i : ℤ) : (Number.float x).text ≠ toString i := by
  intro heq
  obtain ⟨c, hmem, hc⟩ := floatFormat.exists_mem_text x
  rw [show floatFormat.text x = toString i from heq] at hmem
  rcases Literal.isDigit_or_eq_of_mem_toString hmem with hdigit | rfl
  · rcases hc with rfl | rfl <;> exact absurd hdigit (by decide)
  · exact absurd hc (by decide)

/-! ## Typing of integers -/

namespace Literal

/-- A signed word holds an integer, or floating point numbers do not reach it. -/
def KeepsDigits (i : ℤ) : Prop :=
  (Number.minInt ≤ i ∧ i ≤ Number.maxSigned) ∨ Decimal.overflow ≤ i.natAbs

instance (i : ℤ) : Decidable (KeepsDigits i) :=
  instDecidableOr

theorem value_toString_of_not_word {i : ℤ} (h : ¬(Number.minInt ≤ i ∧ i ≤ Number.maxSigned)) :
    if Decimal.overflow ≤ i.natAbs then value (toString i) = .string (toString i)
    else ∃ x, value (toString i) = .number (.float x) := by
  have hlarge : 2 ^ 63 ≤ i.natAbs := by
    have hmin : Number.minInt = -2 ^ 63 := by decide
    have hmax : Number.maxSigned = 2 ^ 63 - 1 := by decide
    omega
  -- A minus in front makes no difference to whether the number is finite.
  obtain ⟨x, hx, hfinite⟩ : ∃ x, Decimal.float? (toString i).toList = some x ∧
      x.isFinite = decide (i.natAbs < Decimal.overflow) := by
    refine ⟨_, Decimal.float?_toString i, ?_⟩
    rw [apply_ite Float.isFinite, Decimal.isFinite_neg, ite_self, Decimal.isFinite_nearest hlarge]
  have hnumber : number? (toString i).toList = Number.ofFloat? x := by
    rw [number?, int?_toString, hx]
    simp only [if_neg h]
    rfl
  rw [value_toString_eq, hnumber, Number.ofFloat?, hfinite]
  by_cases hover : Decimal.overflow ≤ i.natAbs
  · rw [if_pos hover, decide_eq_false (Nat.not_lt.mpr hover)]
    rfl
  · rw [if_neg hover, decide_eq_true (Nat.not_le.mp hover)]
    exact ⟨x, rfl⟩

/-- The text of an integer is what it is rendered as if the digits are kept. -/
theorem render_value_toString_iff (i : ℤ) :
    (value (toString i)).render = toString i ↔ KeepsDigits i := by
  by_cases hword : Number.minInt ≤ i ∧ i ≤ Number.maxSigned
  · rw [value_toString hword.1 hword.2]
    exact iff_of_true rfl (.inl hword)
  · have hvalue := value_toString_of_not_word hword
    split at hvalue
    · next hover =>
      rw [hvalue]
      exact iff_of_true rfl (.inr hover)
    · next hover =>
      obtain ⟨x, hx⟩ := hvalue
      rw [hx]
      exact iff_of_false (Number.text_float_ne_toString x i) fun h => h.elim hword hover

end Literal

/-! ## Calls that compare two arguments -/

namespace Template

open Segment Text

section

variable {P : Rule Segment} {s rest : List Char} {c : Char} {name : String}

theorem isKeyword_none : IsKeyword none :=
  fun _ h => nomatch h

/-- An argument without quotes and placeholders, behind blanks. -/
theorem exists_takesArgument_simple {text : List Char} (blanks : List Char)
    (hblanks : ∀ c ∈ blanks, isBlank c = true)
    (htext : ∀ c ∈ text, Literal.isSimpleChar c = true) (hne : text ≠ [])
    (hc : c = ',' ∨ c = ')') :
    ∃ source, TakesArgument P (blanks ++ (text ++ c :: rest))
      (.literal none (Literal.value (String.ofList text)) source) (c :: rest) := by
  obtain ⟨source, htakes⟩ := exists_takesValue_simple (P := P) none htext hne hc
  obtain ⟨x, more, rfl⟩ := List.exists_cons_of_ne_nil hne
  obtain ⟨hblank, hspecial⟩ := Literal.not_special_of_isSimpleChar (htext x List.mem_cons_self)
  simp only [List.mem_cons, not_or] at hspecial
  refine ⟨source, takesArgument_of_value hblanks isKeyword_none (keyword_of_simple htext hc)
    (ends_cons.mpr hblank) ?_ htakes⟩
  simpa using hspecial.2.2.2.2.1

/-- A name between double quotes. -/
theorem exists_takesArgument_quoted (hname : IsName name) :
    ∃ source, TakesArgument P ('"' :: (name.toList ++ '"' :: rest))
      (.quoted none '"' [.text name] source) rest := by
  have hends : TakesPieces P (.quote '"') ('"' :: rest) [] ('"' :: rest) :=
    .done (by simp [Stop.endsAt])
  have hbody := hends.append_inert (isUsual_quote (.inl rfl)) fun c hc =>
    inert_of_isWord (hname.2 c hc)
  obtain ⟨x, more, hx, -⟩ := hname.exists_cons
  have hjoin : ofPieces (name.toList.map .char ++ []) = [.text name] := by
    rw [List.append_nil, ofPieces_chars (hx ▸ List.cons_ne_nil x more), String.ofList_toList]
  rw [← hjoin]
  exact ⟨_, takesArgument_of_value (List.forall_mem_nil _) isKeyword_none
    (keyword_of_not_word (by decide)) (ends_cons.mpr (by decide)) (by simp)
    (.quoted (.inl rfl) hbody)⟩

/-- A name behind a dollar. -/
theorem exists_takesArgument_name (hname : IsName name) (hc : c = ',' ∨ c = ')') :
    ∃ source, TakesArgument P ('$' :: (name.toList ++ c :: rest)) (.expr none [.var name] source)
      (c :: rest) := by
  have hword : isWord c = false := by rcases hc with rfl | rfl <;> decide
  have hends : TakesPieces P .argument (c :: rest) [] (c :: rest) :=
    .done (by rcases hc with rfl | rfl <;> simp [Stop.endsAt])
  obtain ⟨x, more, hx, -⟩ := hname.exists_cons
  have hbody := TakesPieces.more (P := P) rfl
    (.name (word_append_of_ends hname.2 (ends_cons.mpr hword)) (hx ▸ List.cons_ne_nil x more)) hends
  rw [String.ofList_toList] at hbody
  have hvalue : ∃ source, TakesValue P none ('$' :: (name.toList ++ c :: rest))
      (.expr none [.var name] source) (c :: rest) :=
    exists_takesValue_unquoted (by decide) hbody rfl (List.cons_ne_nil _ _)
  obtain ⟨source, htakes⟩ := hvalue
  exact ⟨source, takesArgument_of_value (List.forall_mem_nil _) isKeyword_none
    (keyword_of_not_word (by decide)) (ends_cons.mpr (by decide)) (by simp) htakes⟩

/-- A call with two arguments in its bare form. -/
theorem parseCall_pair {limit : ℕ} {verb : String} (hverb : IsName verb) {mid : List Char}
    {a b : Argument} (hblank : isBlank c = false) (hparen : c ≠ ')')
    (first : TakesArgument (TakesPlaceholder limit) (c :: s) a (',' :: mid))
    (second : TakesArgument (TakesPlaceholder limit) mid b [')']) :
    parseCall limit (String.ofList (verb.toList ++ '(' :: c :: s)) = .ok ⟨verb, [a, b]⟩ := by
  have hskip : skipBlanks (c :: s) = c :: s := skipBlanks_of_ends (ends_cons.mpr hblank)
  have hcomma : skipBlanks (',' :: mid) = ',' :: mid :=
    skipBlanks_of_ends (ends_cons.mpr (by decide))
  have hclosed : skipBlanks [')'] = [')'] := skipBlanks_of_ends (ends_cons.mpr (by decide))
  have hmore := TakesMore.more first hcomma (.last second hclosed)
  have hall : TakesArguments (TakesPlaceholder limit) (c :: s) [a, b] [] :=
    .some (by rw [hskip]; simpa using hparen) (hskip.symm ▸ hmore)
  obtain ⟨x, more, hx, -⟩ := hverb.exists_cons
  have htext := IsCallText.bare (List.forall_mem_nil _) hverb.2 (hx ▸ List.cons_ne_nil x more)
    (List.forall_mem_nil _) hall (List.forall_mem_nil _)
  rw [String.ofList_toList] at htext
  refine parseCall_of_isCallText ?_
  rw [String.toList_ofList]
  exact htext

end

end Template

/-! ## Checks of a variable -/

/-- A check gives true or fails as an assertion, and leaves the store. -/
theorem Builtin.exec_verify (holds : Bool) (problem : String) (store : Store) :
    exec (verify holds problem) store =
      (if holds then .ok (.bool true) else .error (.assertion problem), store) := by
  cases holds <;> rfl

section Calls

variable {store : Store} {rules : Rules} {fresh : String → Evaluation Value} {name : String}
  {signature : Signature} {args bound : Arguments} {result : Except Error Value}

theorem gives_invoke_direct {run : Arguments → StoreAction Value}
    (hverb : rules.verbs.get? name = some ⟨signature, .direct run⟩)
    (hbind : signature.bind name args = .ok bound)
    (hrun : exec (run bound) store = (result, store)) :
    Gives store (rules.invoke fresh name args) result := by
  rw [Rules.invoke, hverb]
  simp only [hbind]
  exact gives_bind_ok (gives_lift _) (gives_bind_ok (gives_note _) (gives_onStore hrun))

theorem gives_invoke_onVariable {run : Arguments → Except Error Value → StoreAction Value}
    {found : Except Error Value}
    (hverb : rules.verbs.get? name = some ⟨signature, .onVariable run⟩)
    (hbind : signature.bind name args = .ok bound)
    (hfresh : Gives store (fresh (bound.text 0)) found)
    (hrun : exec (run bound found) store = (result, store)) :
    Gives store (rules.invoke fresh name args) result := by
  rw [Rules.invoke, hverb]
  simp only [hbind]
  exact gives_bind_ok (gives_lift _) (gives_bind_ok (gives_note _)
    (gives_bind_ok (gives_outcome hfresh) (gives_onStore hrun)))

end Calls

namespace Context

variable {c : Context}

/-- A variable with a text without dollars reads as the text, in one level if it is deferred. -/
theorem gives_template_text {name text : String} (hbound : c.store.get? name = some (.string text))
    (hdollar : '$' ∉ text.toList) (fresh : String → Evaluation Value) {room : ℕ} (depth : ℕ)
    (hroom : c.store.isDeferred name = true → 0 < room) :
    Gives c.store ((Level.tower c.rules fresh room depth).template [] [.var name])
      (.ok (.string text)) := by
  let deeper (_ : List String) (_ : Value) : Except Error Value := .ok (.string text)
  have hvalue : c.readingOver deeper [] name = .ok (.string text) := by
    rw [readingOver, Store.find?, hbound]
    cases c.store.isDeferred name <;> rfl
  have hstring (below : Option (Unit → Level)) (depth : ℕ) (expanding : List String) :
      Gives c.store ((Level.above c.rules fresh depth below).value expanding (.string text))
        (.ok (.string text)) := by
    show Gives c.store (Level.stringOver c.rules fresh depth below expanding text) _
    rw [Level.stringOver, String.contains_char_eq, if_neg (by simpa using hdollar)]
    exact gives_pure _
  rw [← hvalue]
  cases room with
  | zero =>
    refine gives_variableOver fun v hfind => ?_
    exact absurd (hroom (Store.find?_eq_some_iff.mp hfind).2) (Nat.lt_irrefl 0)
  | succ room =>
    refine gives_variableOver fun v hfind => gives_descend ?_
    cases hbound.symm.trans (Store.find?_eq_some_iff.mp hfind).1
    obtain ⟨below, hbelow⟩ := Template.exists_tower_eq c.rules fresh room (depth + 1)
    rw [hbelow]
    exact hstring below _ _

/-- However many fresh readings may be stacked, one is enough for such a variable. -/
theorem gives_fresh_text {name text : String} (hbound : c.store.get? name = some (.string text))
    (hdollar : '$' ∉ text.toList) (hlimit : 0 < c.limit) :
    Gives c.store (c.rules.fresh c.readings name) (.ok (.string text)) := by
  cases hreadings : c.readings with
  | zero =>
    -- No variable is deferred then.
    have hnone : c.store.deferred = [] :=
      List.map_eq_nil_iff.mp (List.length_eq_zero_iff.mp hreadings)
    show Gives c.store ((Level.tower c.rules _ 0 0).template [] [.var name]) _
    refine gives_template_text hbound hdollar _ 0 fun hdeferred => ?_
    rw [Store.isDeferred, hnone] at hdeferred
    cases hdeferred
  | succ n => exact gives_template_text hbound hdollar (c.rules.fresh n) 0 fun _ => hlimit

/-- A call gives what its verb gives with the values of its arguments. -/
theorem evaluateCall_of_gives {call : Call} {args : Arguments} {result : Except Error Value}
    (hknown : c.verbs.contains call.name = true) (hlimit : 0 < c.limit)
    (hargs : ∀ fresh room depth, c.limit = room + 1 → Gives c.store
      (Level.argumentsAt (Level.tower c.rules fresh room depth) [] call.args Arguments.none)
        (.ok args))
    (hinvoke : Gives c.store (c.rules.invoke (c.rules.fresh c.readings) call.name args) result) :
    c.evaluateCall call = (result, c) := by
  have hknown' : c.rules.verbs.contains call.name = true := hknown
  obtain ⟨room, hroom⟩ := Nat.exists_eq_succ_of_ne_zero (Nat.ne_of_gt hlimit)
  have hcall : Gives c.store (c.level.template [] [.call call]) result := by
    rw [level, Rules.top, show c.rules.limit = room + 1 from hroom]
    show Gives c.store (Level.callOver c.rules _ 0 (some _) [] call) result
    rw [callOver_eq_of_contains hknown']
    exact gives_descend (gives_bind_ok (hargs _ room 1 hroom) hinvoke)
  obtain ⟨hresult, hstore⟩ := hcall ⟨c.store, []⟩ rfl
  rw [← hresult]
  exact Prod.ext rfl (congrArg (fun store => { c with store }) hstore)

section Checks

/-- The action that checks a variable, named in quotes, against an argument without quotes. -/
def checkVar (name text : String) : String :=
  "VerifyVar(\"" ++ name ++ "\", " ++ text ++ ")"

/-- The action that checks the value of a variable against an argument without quotes. -/
def checkEqual (name text : String) : String :=
  "VerifyEqual($" ++ name ++ ", " ++ text ++ ")"

theorem toList_append_four (front name between text back : String) :
    (front ++ name ++ between ++ text ++ back).toList =
      front.toList ++ (name.toList ++ (between.toList ++ (text.toList ++ back.toList))) := by
  simp only [String.toList_append, List.append_assoc]

variable {name text : String}

/-- What a check compares with is its last argument, behind a blank. -/
theorem exists_takesArgument_compared (P : Template.Rule Segment)
    (htext : ∀ c ∈ text.toList, Literal.isSimpleChar c = true) (hne : text.toList ≠ []) :
    ∃ source, Template.TakesArgument P ([' '] ++ (text.toList ++ [')']))
      (.literal none (Literal.value text) source) [')'] := by
  have hblank : ∀ c ∈ [' '], Text.isBlank c = true := List.all_eq_true.mp (by decide)
  obtain ⟨source, htakes⟩ :=
    Template.exists_takesArgument_simple (P := P) [' '] hblank htext hne (.inr rfl)
  rw [String.ofList_toList] at htakes
  exact ⟨source, htakes⟩

variable (hname : Template.IsName name)
  (htext : ∀ c ∈ text.toList, Literal.isSimpleChar c = true) (hne : text.toList ≠ [])

include hname htext hne

theorem exists_parse_checkVar (limit : ℕ) :
    ∃ source source', Template.parseCall limit (checkVar name text) =
      .ok ⟨"VerifyVar", [.quoted none '"' [.text name] source,
        .literal none (Literal.value text) source']⟩ := by
  have hchars : checkVar name text = String.ofList ("VerifyVar".toList ++ '(' :: '"' ::
      (name.toList ++ '"' :: ',' :: ([' '] ++ (text.toList ++ [')'])))) := by
    rw [← String.toList_inj, String.toList_ofList]
    exact toList_append_four ..
  obtain ⟨source, first⟩ := Template.exists_takesArgument_quoted
    (P := Template.TakesPlaceholder limit) hname
  obtain ⟨source', second⟩ :=
    exists_takesArgument_compared (Template.TakesPlaceholder limit) htext hne
  refine ⟨source, source', ?_⟩
  rw [hchars]
  exact Template.parseCall_pair (by decide) (by decide) (by decide) first second

theorem exists_parse_checkEqual (limit : ℕ) :
    ∃ source source', Template.parseCall limit (checkEqual name text) =
      .ok ⟨"VerifyEqual", [.expr none [.var name] source,
        .literal none (Literal.value text) source']⟩ := by
  have hchars : checkEqual name text = String.ofList ("VerifyEqual".toList ++ '(' :: '$' ::
      (name.toList ++ ',' :: ([' '] ++ (text.toList ++ [')'])))) := by
    rw [← String.toList_inj, String.toList_ofList]
    exact toList_append_four ..
  obtain ⟨source, first⟩ := Template.exists_takesArgument_name
    (P := Template.TakesPlaceholder limit) hname (.inl rfl)
  obtain ⟨source', second⟩ :=
    exists_takesArgument_compared (Template.TakesPlaceholder limit) htext hne
  refine ⟨source, source', ?_⟩
  rw [hchars]
  exact Template.parseCall_pair (by decide) (by decide) (by decide) first second

end Checks

section Verdicts

/-- Text between quotes has the text for its value. -/
theorem gives_template_quoted (store : Store) (rules : Rules) (fresh : String → Evaluation Value)
    (room depth : ℕ) (name : String) :
    Gives store ((Level.tower rules fresh room depth).template [] [.text name])
      (.ok (.string name)) := by
  obtain ⟨below, hlevel⟩ := Template.exists_tower_eq rules fresh room depth
  have hplain : Template.plainText [.text name] = name := String.append_empty
  intro session hs
  have hexec : exec (Level.templateOver rules fresh depth below [] [.text name]) session =
      (.ok (.string (Template.plainText [.text name])), session) :=
    Template.exec_templateOver rfl
  rw [hlevel]
  show (exec (Level.templateOver rules fresh depth below [] [.text name]) session).1 = _ ∧ _
  rw [hexec, hplain]
  exact ⟨rfl, hs⟩

section Arguments

variable {store : Store} {level : Level} {body : List Segment} {v : Value}
  (h : Gives store (level.template [] body) (.ok v))

include h

theorem gives_argumentsAt_quoted (q : Char) (source : String) (w : Value) (source' : String) :
    Gives store (Level.argumentsAt level []
      [.quoted none q body source, .literal none w source'] Arguments.none)
      (.ok ⟨[.string v.render, w], []⟩) :=
  gives_bind_ok h (gives_bind_ok (gives_pure _) (gives_bind_ok (gives_pure w) (gives_pure _)))

theorem gives_argumentsAt_expr (source : String) (w : Value) (source' : String) :
    Gives store (Level.argumentsAt level []
      [.expr none body source, .literal none w source'] Arguments.none) (.ok ⟨[v, w], []⟩) :=
  gives_bind_ok h (gives_bind_ok (gives_pure w) (gives_pure _))

end Arguments

variable {name text : String} (hverbs : c.verbs = Builtin.registry) (hlimit : 0 < c.limit)
  (hbound : c.store.get? name = some (.string text)) (hdollar : '$' ∉ text.toList)
  (v : Value) (source source' : String)

include hverbs hlimit hbound hdollar

/-- `VerifyVar` compares the text of a variable with a rendering. -/
theorem evaluateCall_verifyVar :
    c.evaluateCall ⟨"VerifyVar", [.quoted none '"' [.text name] source, .literal none v source']⟩ =
      (if text = v.render then .ok (.bool true)
        else .error (.assertion
          s!"variable '{name}': expected '{v.render}', got '{text}'"), c) := by
  have hverb : c.rules.verbs.get? "VerifyVar" =
      some ⟨.exact ["name", "expected"], .onVariable Builtin.verifyVar⟩ := by
    rw [show c.rules.verbs = Builtin.registry from hverbs]
    rfl
  have hknown : c.verbs.contains "VerifyVar" = true := by
    rw [hverbs]
    rfl
  refine evaluateCall_of_gives hknown hlimit (fun fresh room depth _ => gives_argumentsAt_quoted
    (gives_template_quoted c.store c.rules fresh room depth name) '"' source v source') ?_
  refine gives_invoke_onVariable hverb rfl (gives_fresh_text hbound hdollar hlimit) ?_
  exact (Builtin.exec_verify _ _ _).trans (by simp only [decide_eq_true_eq]; rfl)

/-- `VerifyEqual` does so too, with one level more for a deferred variable. -/
theorem evaluateCall_verifyEqual (hdeferred : c.store.isDeferred name = true → 1 < c.limit) :
    c.evaluateCall ⟨"VerifyEqual", [.expr none [.var name] source, .literal none v source']⟩ =
      (if text = v.render then .ok (.bool true)
        else .error (.assertion s!"expected '{v.render}', got '{text}'"), c) := by
  have hverb : c.rules.verbs.get? "VerifyEqual" =
      some ⟨.exact ["actual", "expected"], .direct Builtin.verifyEqual⟩ := by
    rw [show c.rules.verbs = Builtin.registry from hverbs]
    rfl
  have hknown : c.verbs.contains "VerifyEqual" = true := by
    rw [hverbs]
    rfl
  refine evaluateCall_of_gives hknown hlimit (fun fresh room depth hroom =>
    gives_argumentsAt_expr (gives_template_text hbound hdollar fresh depth fun h => ?_)
      source v source') ?_
  · have := hdeferred h
    omega
  · refine gives_invoke_direct hverb rfl ?_
    exact (Builtin.exec_verify _ _ _).trans (by simp only [decide_eq_true_eq]; rfl)

end Verdicts

end Context

/-! ## Digits that are kept -/

namespace Literal

/-- An integer without quotes keeps its digits if a signed word holds it or if floating point
numbers do not reach it, and in no other case. A variable with the same text, deferred or not, is
accepted by `VerifyVar` and `VerifyEqual` exactly then, and else they fail as assertions; the
context stays as it is. (The argument of `VerifyEqual` is evaluated in a level, so a deferred
variable in it takes another one.) -/
theorem render_value_iff_keepsDigits {text : String} (htext : Decimal.IsInteger text.toList) :
    ∃ i : ℤ, text = toString i ∧ ((value text).render = text ↔ KeepsDigits i) ∧
      ∀ (c : Context) (name : String), c.verbs = Builtin.registry → 0 < c.limit →
        Template.IsName name → c.store.get? name = some (.string text) → ∀ limit,
          (∃ a, Action.parse limit (Context.checkVar name text) = .ok a ∧
            c.evaluateCall a.call =
              (if KeepsDigits i then .ok (.bool true)
                else .error (.assertion
                  s!"variable '{name}': expected '{(value text).render}', got '{text}'"), c)) ∧
          ∃ a, Action.parse limit (Context.checkEqual name text) = .ok a ∧
            ((c.store.isDeferred name = true → 1 < c.limit) → c.evaluateCall a.call =
              (if KeepsDigits i then .ok (.bool true)
                else .error (.assertion
                  s!"expected '{(value text).render}', got '{text}'"), c)) := by
  obtain ⟨i, hi⟩ := htext.exists_toString
  obtain rfl : text = toString i := String.toList_inj.mp hi
  have hkept : toString i = (value (toString i)).render ↔ KeepsDigits i :=
    eq_comm.trans (render_value_toString_iff i)
  have hsimple (x : Char) (hx : x ∈ (toString i).toList) : isSimpleChar x = true := by
    simpa [isSimpleChar] using Or.inl (isDigit_or_eq_of_mem_toString hx)
  have hdollar : '$' ∉ (toString i).toList := fun hmem => absurd (hsimple _ hmem) (by decide)
  have hne : (toString i).toList ≠ [] := by
    intro hnil
    rw [hnil] at htext
    cases htext
  refine ⟨i, rfl, render_value_toString_iff i, ?_⟩
  intro c name hverbs hlimit hname hbound limit
  obtain ⟨source, source', hvar⟩ := Context.exists_parse_checkVar hname hsimple hne limit
  obtain ⟨source₁, source₁', hequal⟩ := Context.exists_parse_checkEqual hname hsimple hne limit
  simp only [← hkept]
  refine ⟨⟨_, map_eq_ok.mpr ⟨_, hvar, rfl⟩, ?_⟩, _, map_eq_ok.mpr ⟨_, hequal, rfl⟩, ?_⟩
  · exact Context.evaluateCall_verifyVar hverbs hlimit hbound hdollar _ _ _
  · exact Context.evaluateCall_verifyEqual hverbs hlimit hbound hdollar _ _ _

/-- A context with the smallest integer of a signed word in a variable. -/
def smallest : Context where
  store := (Store.empty 0).set "v" (.string "-9223372036854775808")
  verbs := Builtin.registry
  limit := 1

/-- The smallest integer of a signed word is accepted for itself. -/
theorem render_value_iff_keepsDigits_smallest :
    Decimal.IsInteger "-9223372036854775808".toList ∧
      ∃ a, Action.parse 1 (Context.checkVar "v" "-9223372036854775808") = .ok a ∧
        smallest.evaluateCall a.call = (.ok (.bool true), smallest) := by
  have htext : Decimal.IsInteger "-9223372036854775808".toList :=
    .negative (by decide) (by decide) (by decide)
  obtain ⟨i, -, hkept, hchecks⟩ := render_value_iff_keepsDigits htext
  obtain ⟨⟨a, ha, hcall⟩, -⟩ := hchecks smallest "v" rfl (by decide) (by decide) rfl 1
  rw [if_pos (hkept.mp (by decide +kernel))] at hcall
  exact ⟨htext, a, ha, hcall⟩

/-- An integer that no signed word holds is rendered as the floating point number it becomes. -/
theorem render_value_of_too_long :
    Decimal.IsInteger "9223372036854775808".toList ∧
      (value "9223372036854775808").render = "9.223372036854776e+18" ∧
      (value "9223372036854775808").render ≠ "9223372036854775808" :=
  ⟨.positive (by decide) (by decide) (by decide), by decide +kernel, by decide +kernel⟩

end Literal

end Casebook
