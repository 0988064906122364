import Casebook.Proofs.Template.Calls
import Casebook.Proofs.Template.RoundTrip
import Mathlib.Data.List.Forall2

/-!
# Texts of arguments

The text of an argument delimits itself: the comma or the parenthesis that ended it is no part of
it, nor are the blanks around it, so it can be put in front of any other. Read as the only argument
of a call it is the same argument again, and texts with commas between them are read as the
arguments they were taken from. This is so of arguments without a keyword: what stands behind a
keyword may itself look like one.

That an argument is read again from its text is `Rereads`, which holds of all arguments of a call
that is read. Here the texts are put together.
-/

namespace Casebook.Template

open Text Casebook.Computation

/-! ## Ends of texts -/

theorem ends_reverse_trimEnd (s : List Char) : Ends isBlank (trimEnd s).reverse := by
  induction s with
  | nil => exact ends_nil isBlank
  | cons c s ih =>
    rw [trimEnd]
    cases hs : trimEnd s with
    | nil =>
      by_cases hc : isBlank c = true
      · simp [hc, ends_nil]
      · simp [hc]
    | cons x kept =>
      -- The text ends where what is left of its tail does.
      rw [hs] at ih
      intro y hy
      refine ih y ?_
      rw [List.head?_reverse] at hy ⊢
      exact hy

section

variable {P : Rule Segment} {a : Argument}

theorem TakesValue.ends_raw {s rest : List Char} {key : Option String}
    (h : TakesValue P key s a rest) : Ends isBlank a.raw.toList.reverse := by
  cases h with
  | quoted quote => simpa [Argument.raw] using (isBarrier_quote quote).not_blank
  | unquoted =>
    rw [raw_unquoted, String.toList_ofList]
    exact ends_reverse_trimEnd _

/-- The text of an argument ends in no blank. -/
theorem Rereads.ends (h : Rereads P a) : Ends isBlank a.raw.toList.reverse := by
  obtain ⟨mid, hvalue, -⟩ := h.value none (.inr rfl : ')' = ',' ∨ ')' = ')') []
  rw [← a.raw_withKey none]
  exact hvalue.ends_raw

/-! ## Argument lists -/

/-- An argument without a keyword is read again from its text. -/
theorem Rereads.isArgument (h : Rereads P a) (hkey : a.key = none) :
    IsArgument P a.raw.toList a := by
  intro c rest hc
  obtain ⟨mid, hvalue, hmid⟩ := h.value none hc rest
  have hskip : skipBlanks a.raw.toList = a.raw.toList := skipBlanks_of_ends h.starts
  have hwith : a.withKey none = a := hkey ▸ a.withKey_key
  refine ⟨mid, (takesArgument_append_cons (isBarrier_of_closes hc)).mpr ?_, hmid⟩
  rw [hskip, h.no_keyword hkey, hskip]
  rwa [hwith] at hvalue

/-- Texts of arguments with commas between them are read one after another. -/
theorem takesMore_join {texts : List String} {args : List Argument} (hargs : args ≠ [])
    (h : List.Forall₂ (fun t a => IsArgument P t.toList a) texts args) (rest : List Char) :
    TakesMore P ((Text.join "," texts).toList ++ ')' :: rest) args rest := by
  induction h with
  | nil => exact absurd rfl hargs
  | @cons t a texts args hfirst hothers ih =>
    cases hothers with
    | nil =>
      obtain ⟨mid, htakes, hmid⟩ := hfirst ')' rest (.inr rfl)
      rw [Text.join, String.intercalate_singleton]
      exact .last htakes hmid
    | @cons t' a' texts args hsecond hothers =>
      have hmore := ih (List.cons_ne_nil a' args)
      obtain ⟨mid, htakes, hmid⟩ := hfirst ','
        ((Text.join "," (t' :: texts)).toList ++ ')' :: rest) (.inl rfl)
      have htaken : TakesMore P _ (a :: a' :: args) rest := .more htakes hmid hmore
      simpa [Text.join, String.intercalate_cons_cons] using htaken

theorem takesArguments_join {texts : List String} {args : List Argument}
    (h : List.Forall₂ (fun t a => IsArgument P t.toList a) texts args) (rest : List Char) :
    TakesArguments P ((Text.join "," texts).toList ++ ')' :: rest) args rest := by
  by_cases hargs : args = []
  · subst hargs
    cases h
    exact .none (skipBlanks_closes (.inr rfl) rest)
  · exact (takesMore_join hargs h rest).arguments

end

/-! ## Calls -/

section

variable {room : ℕ} {name : String} {text : List Char} {args : List Argument}

/-- Arguments behind the name of a verb make a call. -/
theorem isCallText_bare (hname : IsName name)
    (h : ∀ rest, TakesArguments (TakesPlaceholder room) (text ++ ')' :: rest) args rest) :
    IsCallText room (name.toList ++ '(' :: (text ++ [')'])) ⟨name, args⟩ := by
  have hnone : ∀ x ∈ ([] : List Char), isBlank x = true := by simp
  have hne : name.toList ≠ [] := fun hnil => hname.1 (String.toList_inj.mp hnil)
  have hcall := IsCallText.bare hnone hname.2 hne hnone (h []) hnone
  rw [String.ofList_toList] at hcall
  exact hcall

/-- In braces the call takes a level of its own. -/
theorem isCallText_braces (hname : IsName name)
    (h : ∀ rest, TakesArguments (TakesPlaceholder room) (text ++ ')' :: rest) args rest) :
    IsCallText (room + 1) ('$' :: '\x7b' :: (name.toList ++ '(' :: (text ++ [')', '\x7d'])))
      ⟨name, args⟩ := by
  have hnone : ∀ x ∈ ([] : List Char), isBlank x = true := by simp
  have hclosed : skipBlanks ['\x7d'] = ['\x7d'] := rfl
  have hplaceholder : TakesPlaceholder (room + 1)
      (name.toList ++ '(' :: (text ++ ')' :: ['\x7d'])) (.call ⟨name, args⟩) [] :=
    ⟨['\x7d'], takesName_call hname (h ['\x7d']), hclosed⟩
  exact .braces hnone hplaceholder hnone

end

/-- An argument of some call that is read within a limit. -/
def IsCallArgument (limit : ℕ) (a : Argument) : Prop :=
  ∃ text c, parseCall limit text = .ok c ∧ a ∈ c.args

theorem IsCallArgument.rereads {limit : ℕ} {a : Argument} (h : IsCallArgument limit a) :
    Rereads (TakesPlaceholder limit) a := by
  obtain ⟨text, c, hcall, ha⟩ := h
  exact (parseCall_eq_ok.mp hcall).rereads a ha

/-- Arguments are read again from their texts, in a call of any name. In braces the call takes a
level of its own. -/
theorem parseCall_join_raw {room : ℕ} {args : List Argument}
    (hreread : ∀ a ∈ args, Rereads (TakesPlaceholder room) a) (hkeys : ∀ a ∈ args, a.key = none)
    {name : String} (hname : IsName name) :
    parseCall room (name ++ "(" ++ Text.join "," (args.map Argument.raw) ++ ")") =
        .ok ⟨name, args⟩ ∧
      parseCall (room + 1) ("$\x7b" ++ name ++ "(" ++ Text.join "," (args.map Argument.raw) ++
        ")\x7d") = .ok ⟨name, args⟩ := by
  have htexts : List.Forall₂ (fun t a => IsArgument (TakesPlaceholder room) t.toList a)
      (args.map Argument.raw) args := by
    rw [List.forall₂_map_left_iff, List.forall₂_same]
    exact fun a ha => (hreread a ha).isArgument (hkeys a ha)
  have hall := takesArguments_join htexts
  constructor
  · refine parseCall_of_isCallText ?_
    simpa using isCallText_bare hname hall
  · refine parseCall_of_isCallText ?_
    simpa using isCallText_braces hname hall

/-- The text of an argument delimits itself. It is not empty and neither begins nor ends in a blank.
An argument without a keyword is read from its text as the only argument of a call, whatever the
name of the call, and so are several of them, in a call of their texts with commas between. -/
theorem raw_delimits_itself {limit : ℕ} {args : List Argument}
    (hargs : ∀ a ∈ args, IsCallArgument limit a) {name : String} (hname : IsName name) :
    (∀ a ∈ args, a.raw ≠ "" ∧ Ends isBlank a.raw.toList ∧ Ends isBlank a.raw.toList.reverse) ∧
      (∀ a ∈ args, a.key = none →
        parseCall (limit + 1) (name ++ "(" ++ a.raw ++ ")") = .ok ⟨name, [a]⟩) ∧
      ((∀ a ∈ args, a.key = none) →
        parseCall (limit + 1) (name ++ "(" ++ Text.join "," (args.map Argument.raw) ++ ")") =
            .ok ⟨name, args⟩ ∧
          parseCall (limit + 1) ("$\x7b" ++ name ++ "(" ++
            Text.join "," (args.map Argument.raw) ++ ")\x7d") = .ok ⟨name, args⟩) := by
  have hreread (a : Argument) (ha : a ∈ args) : Rereads (TakesPlaceholder limit) a :=
    (hargs a ha).rereads
  have hmore (a : Argument) (ha : a ∈ args) : Rereads (TakesPlaceholder (limit + 1)) a :=
    (hreread a ha).mono (Nat.le_succ limit)
  refine ⟨fun a ha => ⟨fun hempty => ?_, (hreread a ha).starts, (hreread a ha).ends⟩,
    fun a ha hkey => ?_, fun hkeys => ⟨(parseCall_join_raw hmore hkeys hname).1,
      (parseCall_join_raw hreread hkeys hname).2⟩⟩
  · exact (hreread a ha).ne_nil (congrArg String.toList hempty)
  · have hone : ∀ x ∈ [a], Rereads (TakesPlaceholder (limit + 1)) x :=
      List.forall_mem_singleton.mpr (hmore a ha)
    have hcall := (parseCall_join_raw hone (List.forall_mem_singleton.mpr hkey) hname).1
    rwa [List.map_singleton, Text.join, String.intercalate_singleton] at hcall

/-- A quoted comma and quote, a call with arguments of its own, and a dollar at the end. -/
theorem raw_delimits_itself_order :
    ∃ c, parseCall 1 "pay( 'a, \\'b' ,$\x7bsum($x , 2)\x7d of 3, 5$ )" = .ok c ∧
      c.args.map Argument.raw = ["'a, \\'b'", "$\x7bsum($x , 2)\x7d of 3", "5$"] ∧
      parseCall 2 "log('a, \\'b',$\x7bsum($x , 2)\x7d of 3,5$)" = .ok ⟨"log", c.args⟩ := by
  have hread : (parseCall 1 "pay( 'a, \\'b' ,$\x7bsum($x , 2)\x7d of 3, 5$ )").map
      (fun c => (c.args.map Argument.key, c.args.map Argument.raw)) =
      .ok ([none, none, none], ["'a, \\'b'", "$\x7bsum($x , 2)\x7d of 3", "5$"]) := by
    decide +kernel
  obtain ⟨c, hc, hpair⟩ := map_eq_ok.mp hread
  obtain ⟨hkeys, hraws⟩ := Prod.mk.inj hpair
  have hnone : ∀ a ∈ c.args, a.key = none := by
    intro a ha
    have hmem : a.key ∈ [none, none, none] := hkeys ▸ List.mem_map_of_mem ha
    simpa using hmem
  have hname : IsName "log" := by decide
  have hjoin : "log" ++ "(" ++ Text.join "," (c.args.map Argument.raw) ++ ")" =
      "log('a, \\'b',$\x7bsum($x , 2)\x7d of 3,5$)" := by
    rw [hraws]
    decide +kernel
  have hcall := ((raw_delimits_itself (fun a ha => ⟨_, c, hc, ha⟩) hname).2.2 hnone).1
  rw [hjoin] at hcall
  exact ⟨c, hc, hraws, hcall⟩

end Casebook.Template
