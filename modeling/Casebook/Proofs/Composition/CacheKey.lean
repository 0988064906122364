import Casebook.Proofs.Composition.Soundness
import Casebook.Proofs.Fragment.WholeArguments

/-!
# Keys of references

The key of a reference is its name and the texts of its arguments, joined by commas between
parentheses. The commas and parentheses in those texts do no harm: each text ends where the parser
of arguments would end it, so the key is an argument list again, and reading it gives the arguments
back.

All but one kind of them. A keyword is no keyword if the equals sign behind it is doubled, so an
argument `k= =x`, whose text is `k==x` in the key, reads back as the unnamed argument `k==x`. Hence
equal keys tell the name and the text of each argument, and they tell the arguments unless a text
behind a keyword begins with an equals sign.
-/

namespace Casebook

open Text Template Computation

namespace Argument

/-- A text behind a keyword that begins with an equals sign of its own. -/
def DoublesSign (a : Argument) : Prop :=
  a.key ≠ none ∧ a.raw.toList.head? = some '='

instance (a : Argument) : Decidable a.DoublesSign :=
  inferInstanceAs (Decidable (a.key ≠ none ∧ a.raw.toList.head? = some '='))

/-- Two arguments look the same in a key: they are written the same, with the same keyword, or one
of them is unnamed and has the keyword of the other in its text. -/
def Alike (a b : Argument) : Prop :=
  Reference.argumentText a = Reference.argumentText b ∧
    ((a.key = b.key ∧ a.raw = b.raw) ∨ (a.key = none ∧ b.DoublesSign) ∨
      (a.DoublesSign ∧ b.key = none))

end Argument

namespace Reference

/-- No text behind a keyword begins with an equals sign. -/
def IsPlain (r : Reference) : Prop :=
  ∀ a ∈ r.call.args, ¬a.DoublesSign

instance (r : Reference) : Decidable r.IsPlain :=
  inferInstanceAs (Decidable (∀ a ∈ r.call.args, ¬a.DoublesSign))

/-- A reference that some text is. -/
def IsRead (r : Reference) : Prop :=
  ∃ kind limit text, Reference.parse kind limit text = .ok r

/-! ## Texts of arguments -/

section Texts

variable {P : Rule Segment} {a : Argument}

theorem argumentText_of_none (h : a.key = none) : argumentText a = a.raw := by
  simp only [argumentText, h]

theorem toList_argumentText {name : String} (h : a.key = some name) :
    (argumentText a).toList = name.toList ++ '=' :: a.raw.toList := by
  simp [argumentText, h, toString]

/-- What an argument reads back as from its text in a key. -/
structure ReadsBack (a b : Argument) : Prop where
  isKeyword : IsKeyword a.key
  same : ¬a.DoublesSign → b = a
  merged : a.DoublesSign → b.key = none ∧ b.raw = argumentText a

/-- A keyword and an equals sign in front of a text without quotes are part of that text. -/
theorem exists_takesValue_merged {c : Char} (hc : c = ',' ∨ c = ')') (hP : IsFramed P)
    (ha : Rereads P a) {name : String} (hname : IsName name) (hsign : a.raw.toList.head? = some '=')
    (rest : List Char) :
    ∃ b mid, TakesValue P none ((name.toList ++ '=' :: a.raw.toList) ++ c :: rest) b mid ∧
      skipBlanks mid = c :: rest ∧ b.key = none ∧
        b.raw.toList = name.toList ++ '=' :: a.raw.toList := by
  obtain ⟨mid, hvalue, hmid⟩ := ha.value none hc rest
  obtain ⟨x, more, hx, hword, hblank⟩ := hname.exists_cons
  have hinert : ∀ y ∈ name.toList ++ ['='], Inert y := by
    intro y hy
    rcases List.mem_append.mp hy with hy | hy
    · exact inert_of_isWord (hname.2 y hy)
    · rw [List.mem_singleton.mp hy]
      decide
  have hquote (s : List Char) :
      ∀ q, ((name.toList ++ ['=']) ++ s).head? = some q → ¬(q = '"' ∨ q = '\'') := by
    intro q hq
    rw [hx] at hq
    obtain rfl : x = q := Option.some.inj hq
    rintro (rfl | rfl) <;> exact absurd hword (by decide)
  generalize hs : a.raw.toList ++ c :: rest = s at hvalue
  generalize hb : a.withKey none = b at hvalue
  have hraw : b.raw = a.raw := hb ▸ a.raw_withKey none
  cases hvalue with
  | quoted quote =>
    obtain ⟨t, ht⟩ := List.head?_eq_some_iff.mp hsign
    rw [ht] at hs
    obtain rfl := (List.cons.inj hs).1
    exact absurd quote (by decide)
  | @unquoted _ _ _ ps no_quote body ne_nil =>
    -- What was read behind the keyword is read behind more text that means nothing.
    have hmerged := body.append_inert isUsual_argument hinert
    have hne : trimLast (ofPieces ((name.toList ++ ['=']).map .char ++ ps)) ≠ [] := by
      rw [hx]
      refine trimLast_ofPieces_ne_nil (p := .char x) ?_ nofun _
      intro y hy
      rwa [← Piece.char.inj hy]
    have htaken := takesValue_of_pieces none (hquote _) hmerged hne
    obtain ⟨u, hu, -⟩ := body.frame hP
    rw [hu, taken_append, raw_unquoted] at hraw
    have htrim : trimEnd u = a.raw.toList := by rw [← hraw, String.toList_ofList]
    rw [hu, ← List.append_assoc, taken_append, trimEnd_append, htrim, if_neg ha.ne_nil] at htaken
    have htext : (name.toList ++ '=' :: a.raw.toList) ++ c :: rest =
        name.toList ++ ['='] ++ u ++ mid := by
      rw [List.append_assoc, List.cons_append, hs, hu]
      simp
    rw [← htext] at htaken
    refine ⟨_, mid, htaken, hmid, htaken.key_eq, ?_⟩
    rw [raw_unquoted, String.toList_ofList]
    simp

/-- No keyword stands in front of an equals sign that is doubled. -/
theorem keyword_of_doubled {name : String} (hname : IsName name) {s : List Char}
    (hsign : s.head? = some '=') :
    keyword (name.toList ++ '=' :: s) = (none, name.toList ++ '=' :: s) := by
  have hword : word (name.toList ++ '=' :: s) = (name.toList, '=' :: s) :=
    word_append_of_ends hname.2 (ends_cons.mpr (by decide))
  cases hsome : keyword? (name.toList ++ '=' :: s) with
  | none => rw [keyword, hsome]
  | some k =>
    obtain ⟨w, mid, hread, -, hskip, hsingle, -⟩ := keyword?_eq_some_iff.mp hsome
    obtain ⟨-, rfl⟩ := Prod.mk.inj (hword.symm.trans hread)
    rw [skipBlanks_of_ends (ends_cons.mpr (by decide))] at hskip
    obtain rfl := (List.cons.inj hskip).2
    exact absurd hsign hsingle

/-- A text in a key is an argument in front of any comma or parenthesis. -/
theorem exists_takesArgument_argumentText (hP : IsFramed P) (ha : Rereads P a)
    (hkey : IsKeyword a.key) {c : Char} (hc : c = ',' ∨ c = ')') (rest : List Char) :
    ∃ b mid, TakesArgument P ((argumentText a).toList ++ c :: rest) b mid ∧
      skipBlanks mid = c :: rest ∧ ReadsBack a b := by
  have hskip := skipBlanks_of_ends ha.starts
  -- An argument reads back as itself if its text has the same keyword.
  have hself (hkeyword : keyword (skipBlanks (argumentText a).toList) = (a.key, a.raw.toList))
      (hsign : ¬a.DoublesSign) : ∃ b mid, TakesArgument P ((argumentText a).toList ++ c :: rest)
        b mid ∧ skipBlanks mid = c :: rest ∧ ReadsBack a b := by
    obtain ⟨mid, hvalue, hmid⟩ := ha.value a.key hc rest
    rw [a.withKey_key] at hvalue
    refine ⟨a, mid, (takesArgument_append_cons (isBarrier_of_closes hc)).mpr ?_, hmid,
      hkey, fun _ => rfl, fun h => absurd h hsign⟩
    rwa [hkeyword, hskip]
  cases hnamed : a.key with
  | none =>
    refine hself ?_ fun h => h.1 hnamed
    rw [argumentText_of_none hnamed, hskip, ha.no_keyword hnamed, hnamed]
  | some name =>
    have hname := hkey name hnamed
    obtain ⟨x, more, hx, -, hblank⟩ := hname.exists_cons
    have hstart : skipBlanks (argumentText a).toList = name.toList ++ '=' :: a.raw.toList := by
      rw [toList_argumentText hnamed, hx]
      exact skipBlanks_of_ends (ends_cons.mpr hblank)
    by_cases hsign : a.raw.toList.head? = some '='
    · obtain ⟨b, mid, hvalue, hmid, hb, hraw⟩ := exists_takesValue_merged hc hP ha hname hsign rest
      refine ⟨b, mid, (takesArgument_append_cons (isBarrier_of_closes hc)).mpr ?_, hmid, hkey,
        ?_, ?_⟩
      · rwa [hstart, keyword_of_doubled hname hsign, ← hstart,
          skipBlanks_of_ends (ends_skipBlanks _), hstart]
      · exact fun h => absurd ⟨by rw [hnamed]; exact nofun, hsign⟩ h
      · exact fun _ => ⟨hb, by rw [← String.toList_inj, hraw, toList_argumentText hnamed]⟩
    · refine hself ?_ fun h => hsign h.2
      have hsome := keyword?_eq_some_iff_append.mpr
        ⟨name.toList, [], hstart, by rw [hx]; exact List.cons_ne_nil _ _, hname.2, by simp, hsign,
          String.ofList_toList⟩
      rw [keyword, hsome, hnamed]

/-! ## Keys -/

/-- The texts of arguments with commas between them are an argument list. -/
theorem exists_takesMore_argumentTexts (hP : IsFramed P) {args : List Argument} (hargs : args ≠ [])
    (hreread : ∀ a ∈ args, Rereads P a) (hkeys : ∀ a ∈ args, IsKeyword a.key)
    (rest : List Char) :
    ∃ bs, List.Forall₂ ReadsBack args bs ∧
      TakesMore P ((Text.join "," (args.map argumentText)).toList ++ ')' :: rest) bs rest := by
  induction args with
  | nil => exact absurd rfl hargs
  | cons a args ih =>
    have ha {c : Char} (hc : c = ',' ∨ c = ')') :=
      exists_takesArgument_argumentText hP (hreread a List.mem_cons_self)
        (hkeys a List.mem_cons_self) hc
    cases args with
    | nil =>
      obtain ⟨b, mid, htakes, hmid, hback⟩ := ha (.inr rfl) rest
      refine ⟨[b], .cons hback .nil, ?_⟩
      rw [List.map_singleton, Text.join, String.intercalate_singleton]
      exact .last htakes hmid
    | cons a' args =>
      obtain ⟨bs, hbacks, hmore⟩ := ih (List.cons_ne_nil _ _)
        (fun x hx => hreread x (List.mem_cons_of_mem a hx))
        (fun x hx => hkeys x (List.mem_cons_of_mem a hx))
      obtain ⟨b, mid, htakes, hmid, hback⟩ := ha (.inl rfl)
        ((Text.join "," ((a' :: args).map argumentText)).toList ++ ')' :: rest)
      refine ⟨b :: bs, .cons hback hbacks, ?_⟩
      have htaken : TakesMore P _ (b :: bs) rest := .more htakes hmid hmore
      simpa [Text.join, String.intercalate_cons_cons] using htaken

theorem exists_takesArguments_argumentTexts (hP : IsFramed P) {args : List Argument}
    (hreread : ∀ a ∈ args, Rereads P a) (hkeys : ∀ a ∈ args, IsKeyword a.key)
    (rest : List Char) :
    ∃ bs, List.Forall₂ ReadsBack args bs ∧
      TakesArguments P ((Text.join "," (args.map argumentText)).toList ++ ')' :: rest) bs rest := by
  by_cases hargs : args = []
  · subst hargs
    exact ⟨[], .nil, .none (skipBlanks_closes (.inr rfl) rest)⟩
  · obtain ⟨bs, hbacks, hmore⟩ := exists_takesMore_argumentTexts hP hargs hreread hkeys rest
    exact ⟨bs, hbacks, hmore.arguments⟩

end Texts

/-- Texts of a word and what follows a character of no word are equal if both are. -/
theorem word_split {name name' : String} (hname : IsName name) (hname' : IsName name') {c : Char}
    (hc : isWord c = false) {s s' : List Char} (h : name.toList ++ c :: s = name'.toList ++ c :: s') :
    name = name' ∧ s = s' := by
  have hword {name : String} (hname : IsName name) (s : List Char) :
      word (name.toList ++ c :: s) = (name.toList, c :: s) :=
    word_append_of_ends hname.2 (ends_cons.mpr hc)
  have hsplit := hword hname s
  rw [h, hword hname'] at hsplit
  obtain ⟨hnames, hrest⟩ := Prod.mk.inj hsplit
  exact ⟨String.toList_inj.mp hnames.symm, (List.cons.inj hrest).2.symm⟩

/-- Arguments that read back as the same one look the same in a key. -/
theorem ReadsBack.alike {a a' b : Argument} (h : ReadsBack a b) (h' : ReadsBack a' b) :
    a.Alike a' := by
  have hmerged {x y : Argument} (hx : ReadsBack x y) (hsign : x.DoublesSign) :
      argumentText x = argumentText y := by
    obtain ⟨hkey, hraw⟩ := hx.merged hsign
    rw [argumentText_of_none hkey, hraw]
  by_cases hsign : a.DoublesSign <;> by_cases hsign' : a'.DoublesSign
  · -- Both keywords end at the first equals sign of the same text.
    have htext := (hmerged h hsign).trans (hmerged h' hsign').symm
    obtain ⟨name, hname⟩ := Option.ne_none_iff_exists'.mp hsign.1
    obtain ⟨name', hname'⟩ := Option.ne_none_iff_exists'.mp hsign'.1
    have heq := congrArg String.toList htext
    rw [toList_argumentText hname, toList_argumentText hname'] at heq
    obtain ⟨hnames, hrest⟩ := word_split (h.isKeyword name hname) (h'.isKeyword name' hname')
      (by decide) heq
    exact ⟨htext, .inl ⟨by rw [hname, hname', hnames], String.toList_inj.mp hrest⟩⟩
  · obtain rfl := h'.same hsign'
    exact ⟨hmerged h hsign, .inr (.inr ⟨hsign, (h.merged hsign).1⟩)⟩
  · obtain rfl := h.same hsign
    exact ⟨(hmerged h' hsign').symm, .inr (.inl ⟨(h'.merged hsign').1, hsign'⟩)⟩
  · obtain rfl := h.same hsign
    obtain rfl := h'.same hsign'
    exact ⟨rfl, .inl ⟨rfl, rfl⟩⟩

theorem forall₂_alike {args args' bs : List Argument} (h : List.Forall₂ ReadsBack args bs)
    (h' : List.Forall₂ ReadsBack args' bs) : List.Forall₂ Argument.Alike args args' := by
  induction h generalizing args' with
  | nil =>
    cases h'
    exact .nil
  | cons hfirst _ ih =>
    cases h' with
    | cons hfirst' hmore' => exact .cons (hfirst.alike hfirst') (ih hmore')

section Keys

variable {kind kind' : FragmentKind} {limit limit' : ℕ} {text text' : String} {r r' : Reference}

theorem isCall_of_parse (h : Reference.parse kind limit text = .ok r) :
    IsCall limit (trim text.toList) r.call := by
  obtain ⟨c, hcall, heq⟩ := map_eq_ok.mp h
  cases heq
  exact parseCall_eq_ok.mp hcall

/-- The name of a call is a word. -/
theorem isName_of_isCall {s : List Char} {c : Call} (h : IsCall limit s c) : IsName c.name := by
  cases h with
  | @braces _ _ c inner =>
    cases c
    exact (canonicalRule_takesPlaceholder limit _ _ _ inner).1.1
  | var inner => exact (canonicalRule_takesPlaceholder limit _ _ _ inner).1
  | bare word_eq ne_nil => exact isName_of_word word_eq ne_nil
  | name word_eq ne_nil => exact isName_of_word word_eq ne_nil

theorem isKeyword_of_parse (h : Reference.parse kind limit text = .ok r) :
    ∀ a ∈ r.call.args, IsKeyword a.key := by
  have hcanonical := (isCall_of_parse h).canonical
  generalize r.call.args = args at hcanonical
  induction args with
  | nil => simp
  | cons a args ih =>
    obtain ⟨ha, hargs⟩ := hcanonical
    intro x hx
    rcases List.mem_cons.mp hx with rfl | hx
    · cases x with
      | literal => exact ha
      | quoted => exact ha.1
      | expr => exact ha.1
    · exact ih hargs x hx

theorem toList_key (r : Reference) :
    r.key.toList = r.name.toList ++
      '(' :: ((Text.join "," (r.call.args.map argumentText)).toList ++ [')']) := by
  simp [key]

/-- Equal keys are those of the same name and the same text of all arguments. -/
theorem name_eq_of_parse (h : Reference.parse kind limit text = .ok r)
    (h' : Reference.parse kind' limit' text' = .ok r') (hkey : r.key = r'.key) :
    r.name = r'.name ∧ Text.join "," (r.call.args.map argumentText) =
      Text.join "," (r'.call.args.map argumentText) := by
  have heq : r.key.toList = r'.key.toList := by rw [hkey]
  rw [toList_key, toList_key] at heq
  obtain ⟨hname, hrest⟩ := word_split (isName_of_isCall (isCall_of_parse h))
    (isName_of_isCall (isCall_of_parse h')) (by decide) heq
  exact ⟨hname, String.toList_inj.mp (List.append_cancel_right hrest)⟩

/-- The arguments of references with equal keys read back as the same ones. -/
theorem exists_readsBack_of_key_eq (h : Reference.parse kind limit text = .ok r)
    (h' : Reference.parse kind' limit' text' = .ok r') (hkey : r.key = r'.key) :
    ∃ bs, List.Forall₂ ReadsBack r.call.args bs ∧ List.Forall₂ ReadsBack r'.call.args bs := by
  have hjoin := (name_eq_of_parse h h' hkey).2
  have hread {kind : FragmentKind} {limit : ℕ} {text : String} {r : Reference}
      (h : Reference.parse kind limit text = .ok r) {room : ℕ} (hroom : limit ≤ room) :=
    exists_takesArguments_argumentTexts (isFramed_takesPlaceholder room)
      (fun a ha => (FragmentHead.rereads_of_parse h a ha).mono hroom) (isKeyword_of_parse h) []
  obtain ⟨bs, hbacks, htakes⟩ := hread h (Nat.le_max_left limit limit')
  obtain ⟨bs', hbacks', htakes'⟩ := hread h' (Nat.le_max_right limit limit')
  rw [← reads_placeholder, ← reads_arguments_iff] at htakes htakes'
  rw [hjoin] at htakes
  obtain rfl := htakes.unique htakes'
  exact ⟨bs, hbacks, hbacks'⟩

/-- References that were read, without doubled equals signs, are told apart by their keys. -/
theorem call_eq_of_key_eq (h : Reference.parse kind limit text = .ok r)
    (h' : Reference.parse kind' limit' text' = .ok r') (hplain : r.IsPlain) (hplain' : r'.IsPlain)
    (hkey : r.key = r'.key) : r.call = r'.call := by
  obtain ⟨bs, hbacks, hbacks'⟩ := exists_readsBack_of_key_eq h h' hkey
  have hself {args bs : List Argument} (hargs : ∀ a ∈ args, ¬a.DoublesSign)
      (hback : List.Forall₂ ReadsBack args bs) : bs = args := by
    induction hback with
    | nil => rfl
    | @cons a b args bs hfirst _ ih =>
      rw [hfirst.same (hargs a List.mem_cons_self),
        ih fun x hx => hargs x (List.mem_cons_of_mem a hx)]
  have hargs := (hself hplain hbacks).symm.trans (hself hplain' hbacks')
  have hname := (name_eq_of_parse h h' hkey).1
  obtain ⟨_, ⟨_, _⟩, _⟩ := r
  obtain ⟨_, ⟨_, _⟩, _⟩ := r'
  cases hname
  cases hargs
  rfl

theorem bind_congr {r r' : Reference} (hcall : r.call = r'.call) (head : FragmentHead) :
    head.bind r = head.bind r' := by
  simp only [FragmentHead.bind, hcall]

/-- Such references never share a key and differ in their arguments. -/
theorem coherent_of_isPlain {P : Reference → Prop} (h : ∀ r, P r → r.IsRead ∧ r.IsPlain) :
    Composition.Coherent P := by
  intro r r' hr hr' hkey
  obtain ⟨⟨kind, limit, text, hparse⟩, hplain⟩ := h r hr
  obtain ⟨⟨kind', limit', text', hparse'⟩, hplain'⟩ := h r' hr'
  have hcall := call_eq_of_key_eq hparse hparse' hplain hplain' hkey
  simp only [Expansion.arguments, hcall]

/-- Two references that were read have the same key if and only if they have the same name and each
argument of one looks like that of the other in its place. Without doubled equals signs they are the
same call then, so they bind parameters alike, and a composer that has met no others answers a
reference with what it stands for itself. -/
theorem key_eq_iff (h : Reference.parse kind limit text = .ok r)
    (h' : Reference.parse kind' limit' text' = .ok r') :
    (r.key = r'.key ↔
        r.name = r'.name ∧ List.Forall₂ Argument.Alike r.call.args r'.call.args) ∧
      (r.IsPlain → r'.IsPlain → r.key = r'.key →
        r.call = r'.call ∧ ∀ head : FragmentHead, head.bind r = head.bind r') ∧
      ∀ files area layout refs c, Composition.Reached files area layout refs c →
        (∀ x ∈ Composition.metBy c (Composer.expand files r) ++ refs, x.IsRead ∧ x.IsPlain) →
          ∀ cases, (c.run (Composer.expand files r)).1 = .ok cases →
            Expansion.Denotes files area layout [.suite r] cases := by
  refine ⟨⟨fun hkey => ⟨(name_eq_of_parse h h' hkey).1, ?_⟩, fun hlike => ?_⟩, ?_, ?_⟩
  · obtain ⟨bs, hbacks, hbacks'⟩ := exists_readsBack_of_key_eq h h' hkey
    exact forall₂_alike hbacks hbacks'
  · obtain ⟨hname, hargs⟩ := hlike
    have htexts : r.call.args.map argumentText = r'.call.args.map argumentText := by
      rw [← List.forall₂_eq_eq_eq, List.forall₂_map_left_iff, List.forall₂_map_right_iff]
      exact hargs.imp fun _ _ halike => halike.1
    rw [key, key, hname, htexts]
  · intro hplain hplain' hkey
    have hcall := call_eq_of_key_eq h h' hplain hplain' hkey
    exact ⟨hcall, bind_congr hcall⟩
  · intro files area layout refs c reached hrefs cases hcases
    have hcoherent := coherent_of_isPlain hrefs
    have hsound := reached.sound hcoherent fun x hx => List.mem_append_right _ hx
    have hspec := Composition.spec_expand hcoherent r ⟨c, []⟩ hsound fun x hx =>
      List.mem_append_left _ hx
    exact hspec.2.denoted cases hcases

/-- Blanks around arguments are no part of a key. -/
theorem key_eq_iff_of_blanks :
    ∃ r r', Reference.parse .suite 32 "s(a, \"b,c\")" = .ok r ∧
      Reference.parse .suite 32 " s ( a ,\"b,c\" ) " = .ok r' ∧
        r.name = r'.name ∧ List.Forall₂ Argument.Alike r.call.args r'.call.args := by
  have hkeys : (do
      let r ← Reference.parse .suite 32 "s(a, \"b,c\")"
      let r' ← Reference.parse .suite 32 " s ( a ,\"b,c\" ) "
      return (r.key, r'.key)) = .ok ("s(a,\"b,c\")", "s(a,\"b,c\")") := by decide +kernel
  obtain ⟨r, hr, hrest⟩ := bind_eq_ok.mp hkeys
  obtain ⟨r', hr', hpair⟩ := bind_eq_ok.mp hrest
  obtain ⟨hkey, hkey'⟩ := Prod.mk.inj (Except.ok.inj hpair)
  exact ⟨r, r', hr, hr', (key_eq_iff hr hr').1.mp (hkey.trans hkey'.symm)⟩

end Keys

end Reference

/-! ## A doubled equals sign -/

/-- Files with a suite of one case, whose description is the parameter of the suite. -/
def describingFiles : Files where
  here := []
  root := .folder [("dependencies", .folder [("suite", .folder [("s.yaml", .file (some
    ("- project:\n    def: s($p)\n"
      ++ "- case:\n    id: A\n    desc: $p\n    steps:\n      - click: b\n")))])])]

/-- Two references with different arguments have the same key, and the composer that expanded one
answers the other with those cases. -/
theorem Reference.key_eq_of_doubled_sign :
    ∃ r r' own answer, Reference.parse .suite 32 "s(k==x)" = .ok r ∧
      Reference.parse .suite 32 "s(k= =x)" = .ok r' ∧
      ((Composer.ofArea "dependencies" .standard).run (Composer.expand describingFiles r')).1 =
        .ok own ∧
      (((Composer.ofArea "dependencies" .standard).run (Composer.expand describingFiles r)).2.run
        (Composer.expand describingFiles r')).1 = .ok answer ∧
      r.key = r'.key ∧ r.call.args.map (fun a => (a.key, a.raw)) = [(none, "k==x")] ∧
      r'.call.args.map (fun a => (a.key, a.raw)) = [(some "k", "=x")] ∧
      own.map Case.desc = ["=x"] ∧ answer.map Case.desc = ["k==x"] := by
  have hread : (do
      let r ← Reference.parse .suite 32 "s(k==x)"
      let r' ← Reference.parse .suite 32 "s(k= =x)"
      let own ← ((Composer.ofArea "dependencies" .standard).run
        (Composer.expand describingFiles r')).1
      let answer ← (((Composer.ofArea "dependencies" .standard).run
        (Composer.expand describingFiles r)).2.run (Composer.expand describingFiles r')).1
      return ([r.call.args, r'.call.args].map
          (List.map fun a : Argument => (a.key, a.raw)),
        [[r.key, r'.key], own.map Case.desc, answer.map Case.desc])) =
      .ok ([[(none, "k==x")], [(some "k", "=x")]],
        [["s(k==x)", "s(k==x)"], ["=x"], ["k==x"]]) := by decide +kernel
  obtain ⟨r, hr, hread⟩ := bind_eq_ok.mp hread
  obtain ⟨r', hr', hread⟩ := bind_eq_ok.mp hread
  obtain ⟨own, hown, hread⟩ := bind_eq_ok.mp hread
  obtain ⟨answer, hanswer, hread⟩ := bind_eq_ok.mp hread
  simp only [pure, Except.pure, Except.ok.injEq, Prod.mk.injEq, List.map_cons, List.map_nil,
    List.cons.injEq, and_true] at hread
  obtain ⟨⟨hargs, hargs'⟩, ⟨hkey, hkey'⟩, hdesc, hdesc'⟩ := hread
  exact ⟨r, r', own, answer, hr, hr', hown, hanswer, hkey.trans hkey'.symm, hargs, hargs', hdesc,
    hdesc'⟩

end Casebook
