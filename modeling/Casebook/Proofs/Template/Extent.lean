import Casebook.Proofs.Template.Deepening
import Casebook.Proofs.Template.Printing
import Casebook.Proofs.Text.Trimming

/-!
# How far rules read

A rule of the grammar takes the front of a text. Of what follows it sees no more than the first
character, so the same front is taken whatever comes behind, as long as that stops it as well; and a
rule with more room for placeholders takes the same. Hence a text that was read in one place can be
put into another: `TakesValue.reread` reads an argument again from its own text, in front of any
comma or parenthesis.

`IsFramed P` is this property of a rule for placeholders. If a rule has it, then so do the rules for
pieces and arguments, and the rule with room for one more level.
-/

namespace Casebook

open Text

/-- An argument under another keyword. -/
def Argument.withKey (key : Option String) : Argument → Argument
  | .literal _ value source => .literal key value source
  | .quoted _ delimiter body source => .quoted key delimiter body source
  | .expr _ body source => .expr key body source

@[simp] theorem Argument.withKey_key (a : Argument) : a.withKey a.key = a := by
  cases a <;> rfl

/-- The keyword is no part of the text of an argument. -/
@[simp] theorem Argument.raw_withKey (key : Option String) (a : Argument) :
    (a.withKey key).raw = a.raw := by
  cases a <;> rfl

namespace Template

open Segment Substitution

/-- A rule for placeholders takes the same front of a text, up to a closing brace, whatever follows,
and what it takes is canonical. -/
structure IsFramed (P : Rule Segment) : Prop where
  frame {s rest : List Char} {segment : Segment} (h : P s segment rest) :
    ∃ u, s = u ++ '\x7d' :: rest ∧ ∀ rest', P (u ++ '\x7d' :: rest') segment rest'
  canonical : CanonicalRule P

/-! ## Scanning in front of a character -/

section Barrier

variable {c : Char}

/-- Blanks are skipped up to a character that is none. -/
theorem skipBlanks_append_cons (hc : isBlank c = false) (u s : List Char) :
    skipBlanks (u ++ c :: s) = skipBlanks u ++ c :: s := by
  induction u with
  | nil => exact skipBlanks_of_ends (ends_cons.mpr hc)
  | cons x u ih =>
    by_cases hx : isBlank x = true
    · have hskip (t : List Char) : skipBlanks (x :: t) = skipBlanks t :=
        List.dropWhile_cons_of_pos hx
      rw [List.cons_append, hskip, hskip, ih]
    · have hskip (t : List Char) : skipBlanks (x :: t) = x :: t := List.dropWhile_cons_of_neg hx
      rw [List.cons_append, hskip, hskip, List.cons_append]

/-- A word ends at a character of no word. -/
theorem word_append_cons (hc : isWord c = false) (u s : List Char) :
    word (u ++ c :: s) = ((word u).1, (word u).2 ++ c :: s) := by
  have hends : Ends isWord ((word u).2 ++ c :: s) := by
    have hu : Ends isWord (word u).2 := ends_dropWhile isWord u
    cases h : (word u).2 with
    | nil => exact ends_cons.mpr hc
    | cons x t =>
      rw [h] at hu
      exact ends_cons.mpr (ends_cons.mp hu)
  have hword : word ((word u).1 ++ ((word u).2 ++ c :: s)) = _ :=
    word_append_of_ends (fun _ => isWord_of_mem_word) hends
  rwa [← List.append_assoc, word_append] at hword

/-- A character that no keyword has in it or in front of it. -/
structure IsBarrier (c : Char) : Prop where
  not_word : isWord c = false
  not_blank : isBlank c = false
  not_equals : c ≠ '='

theorem isBarrier_of_closes (hc : c = ',' ∨ c = ')') : IsBarrier c := by
  rcases hc with rfl | rfl <;> exact ⟨by decide, by decide, by decide⟩

theorem skipBlanks_closes (hc : c = ',' ∨ c = ')') (rest : List Char) :
    skipBlanks (c :: rest) = c :: rest :=
  skipBlanks_of_ends (ends_cons.mpr (isBarrier_of_closes hc).not_blank)

theorem skipBlanks_end (hc : c = ',' ∨ c = ')') {blanks : List Char}
    (hblanks : ∀ x ∈ blanks, isBlank x = true) (rest : List Char) :
    skipBlanks (blanks ++ c :: rest) = c :: rest :=
  skipBlanks_append_of_ends hblanks (ends_cons.mpr (isBarrier_of_closes hc).not_blank)

theorem isBarrier_dollar : IsBarrier '$' :=
  ⟨by decide, by decide, by decide⟩

theorem isBarrier_quote (hc : c = '"' ∨ c = '\'') : IsBarrier c := by
  rcases hc with rfl | rfl <;> exact ⟨by decide, by decide, by decide⟩

/-- The keyword of a text that goes on with a barrier is the keyword of what is in front of it. -/
theorem keyword?_append_cons (hc : IsBarrier c) (u s : List Char) :
    keyword? (u ++ c :: s) = (keyword? u).map fun k => (k.1, k.2 ++ c :: s) := by
  have hword : word (u ++ c :: s) = ((word u).1, (word u).2 ++ c :: s) :=
    word_append_cons hc.not_word u s
  have hskip (mid : List Char) := skipBlanks_append_cons hc.not_blank mid s
  -- Behind the word and blanks stands the same character, or the barrier.
  have hhead (after : List Char) : (after ++ c :: s).head? = some '=' ↔ after.head? = some '=' := by
    cases after with
    | nil => simp [hc.not_equals]
    | cons x after => rfl
  rw [keyword?, keyword?, hword]
  rcases word u with ⟨_ | ⟨x, w⟩, mid⟩
  · rfl
  · simp only [hskip]
    rcases skipBlanks mid with _ | ⟨y, after⟩
    · simp [hc.not_equals]
    · by_cases hy : y = '='
      · subst hy
        simp only [List.cons_append, hhead]
        split <;> rfl
      · simp [hy]

theorem keyword_append_cons (hc : IsBarrier c) (u s : List Char) :
    keyword (u ++ c :: s) = ((keyword u).1, (keyword u).2 ++ c :: s) := by
  rw [keyword, keyword, keyword?_append_cons hc]
  cases keyword? u <;> rfl

end Barrier

/-! ## What follows -/

/-- A text that goes on with no name and makes nothing of a dollar in front of it. -/
def Detached (s : List Char) : Prop :=
  ∀ x, s.head? = some x → x ≠ '$' ∧ x ≠ '\x7b' ∧ isWord x = false

theorem detached_of_blank {c : Char} (hc : isBlank c = true) (s : List Char) :
    Detached (c :: s) := by
  intro x hx
  obtain rfl : c = x := Option.some.inj hx
  have hword := isWord_eq_false_of_isBlank hc
  refine ⟨?_, ?_, hword⟩
  · rintro rfl
    exact absurd hc (by decide)
  · rintro rfl
    exact absurd hc (by decide)

theorem detached_of_closes {c : Char} (hc : c = ',' ∨ c = ')') (s : List Char) :
    Detached (c :: s) := by
  intro x hx
  obtain rfl : c = x := Option.some.inj hx
  rcases hc with rfl | rfl <;> exact ⟨by decide, by decide, by decide⟩

namespace Stop

variable {stop : Stop} {c : Char} {s s' : List Char}

/-- No backslash is dropped in front of this stop. -/
def IsPlain (stop : Stop) : Prop :=
  ∀ c, stop.escapes c = false

/-- What is a piece in front of one text is one in front of the other. -/
def Alike (stop : Stop) (s s' : List Char) : Prop :=
  s'.head? = s.head? ∨ (Detached s' ∧ stop.IsPlain)

theorem isPlain_argument : Stop.argument.IsPlain :=
  fun _ => rfl

/-- Behind more of the same text nothing has to be alike. -/
theorem Alike.append (h : stop.Alike s s') (u : List Char) : stop.Alike (u ++ s) (u ++ s') := by
  cases u with
  | nil => exact h
  | cons x u => exact .inl rfl

end Stop

section Rules

variable {P P' : Rule Segment} {stop : Stop} {s rest : List Char}

/-! ## Pieces -/

/-- A piece is taken again in front of what is like its rest. Its text ends in a blank only if it is
that blank. -/
theorem TakesPiece.frame (hP : IsFramed P) {p : Piece} (h : TakesPiece P stop s p rest) :
    ∃ u, u ≠ [] ∧ s = u ++ rest ∧
      (stop.IsPlain → trimEnd u = u ∨ ∃ c, isBlank c = true ∧ u = [c] ∧ p = .char c) ∧
      ∀ rest', stop.Alike rest rest' → TakesPiece P stop (u ++ rest') p rest' := by
  cases h with
  | @escaped x _ escapes =>
    refine ⟨['\\', x], List.cons_ne_nil _ _, rfl, fun hplain => ?_, fun _ _ => .escaped escapes⟩
    rw [hplain x] at escapes
    cases escapes
  | backslash plain =>
    refine ⟨['\\'], List.cons_ne_nil _ _, rfl, fun _ => .inl (trimEnd_concat (by decide) []), ?_⟩
    intro rest' halike
    refine .backslash fun x hx => ?_
    rcases halike with hhead | ⟨-, hplain⟩
    · exact plain x (hhead ▸ hx)
    · exact hplain x
  | dollars =>
    exact ⟨['$', '$'], List.cons_ne_nil _ _, rfl, fun _ => .inl (trimEnd_concat (by decide) ['$']),
      fun _ _ => .dollars⟩
  | braces inner =>
    obtain ⟨u, rfl, hu⟩ := hP.frame inner
    refine ⟨'$' :: '\x7b' :: (u ++ ['\x7d']), List.cons_ne_nil _ _, by simp, fun _ => .inl ?_, ?_⟩
    · exact trimEnd_concat (by decide) ('$' :: '\x7b' :: u)
    · intro rest' _
      have hinner : TakesPiece P stop _ _ rest' := .braces (hu rest')
      simpa using hinner
  | @name _ name _ word_eq ne_nil =>
    obtain ⟨rfl, hname, hrest⟩ := word_eq_iff.mp word_eq
    refine ⟨'$' :: name, List.cons_ne_nil _ _, rfl, fun _ => .inl ?_, ?_⟩
    · -- The last character of a name is no blank.
      obtain ⟨init, c, rfl⟩ : ∃ init c, name = init ++ [c] :=
        ⟨_, _, (List.dropLast_concat_getLast ne_nil).symm⟩
      have hc := isBlank_eq_false_of_isWord (hname c (by simp))
      exact trimEnd_concat hc ('$' :: init)
    · intro rest' halike
      have hends : Ends isWord rest' := by
        rcases halike with hhead | ⟨hdetached, -⟩
        · exact fun x hx => hrest x (hhead ▸ hx)
        · exact fun x hx => (hdetached x hx).2.2
      exact .name (word_append_of_ends hname hends) ne_nil
  | dollar lone =>
    refine ⟨['$'], List.cons_ne_nil _ _, rfl, fun _ => .inl (trimEnd_concat (by decide) []), ?_⟩
    intro rest' halike
    refine .dollar fun x hx => ?_
    rcases halike with hhead | ⟨hdetached, -⟩
    · exact lone x (hhead ▸ hx)
    · exact hdetached x hx
  | @char c _ ne_backslash ne_dollar =>
    refine ⟨[c], List.cons_ne_nil _ _, rfl, fun _ => ?_, fun _ _ => .char ne_backslash ne_dollar⟩
    by_cases hc : isBlank c = true
    · exact .inr ⟨c, hc, rfl, rfl⟩
    · exact .inl (trimEnd_concat (by simpa using hc) [])

/-- Pieces are taken again in front of a text that begins as their rest does. -/
theorem TakesPieces.frame (hP : IsFramed P) {ps : List Piece} (h : TakesPieces P stop s ps rest) :
    ∃ u, s = u ++ rest ∧
      ∀ rest', rest'.head? = rest.head? → TakesPieces P stop (u ++ rest') ps rest' := by
  induction h with
  | done ends => exact ⟨[], rfl, fun rest' hhead => .done fun c hc => ends c (hhead ▸ hc)⟩
  | @more c t mid rest p ps goes_on first others ih =>
    obtain ⟨u, rfl, hu⟩ := ih
    obtain ⟨v, hv, heq, -, hfirst⟩ := first.frame hP
    obtain ⟨x, v, rfl⟩ := List.exists_cons_of_ne_nil hv
    obtain rfl : c = x := (List.cons.inj heq).1
    refine ⟨c :: v ++ u, by rw [heq, List.append_assoc], fun rest' hhead => ?_⟩
    have halike : stop.Alike rest rest' := .inl hhead
    rw [List.append_assoc]
    exact .more goes_on (hfirst _ (halike.append u)) (hu rest' hhead)

/-- The blanks that pieces end with are characters of their own, and the pieces in front of them are
taken again in front of any text that is detached. -/
theorem TakesPieces.trim (hP : IsFramed P) (hplain : stop.IsPlain) {ps : List Piece}
    (h : TakesPieces P stop s ps rest) :
    ∃ u blanks ps', s = u ++ (blanks ++ rest) ∧ trimEnd u = u ∧
      (∀ c ∈ blanks, isBlank c = true) ∧ ps = ps' ++ blanks.map .char ∧
      ∀ rest' qs last, Detached rest' → TakesPieces P stop rest' qs last →
        TakesPieces P stop (u ++ rest') (ps' ++ qs) last := by
  induction h with
  | done => exact ⟨[], [], [], rfl, rfl, by simp, rfl, fun _ _ _ _ h => h⟩
  | @more c t mid rest p ps goes_on first others ih =>
    obtain ⟨u, blanks, ps', rfl, htrim, hblanks, rfl, hu⟩ := ih
    obtain ⟨v, hv, heq, hend, hfirst⟩ := first.frame hP
    obtain ⟨x, v, rfl⟩ := List.exists_cons_of_ne_nil hv
    obtain rfl : c = x := (List.cons.inj heq).1
    have hmore (rest' : List Char) (qs : List Piece) (last : List Char) (hrest' : Detached rest')
        (hqs : TakesPieces P stop rest' qs last) :
        TakesPieces P stop (c :: v ++ u ++ rest') (p :: (ps' ++ qs)) last := by
      have halike : stop.Alike (u ++ (blanks ++ rest)) (u ++ rest') := by
        cases u with
        | nil => exact .inr ⟨hrest', hplain⟩
        | cons y u => exact .inl rfl
      rw [List.append_assoc]
      exact .more goes_on (hfirst _ halike) (hu rest' qs last hrest' hqs)
    have hs : c :: t = c :: v ++ u ++ (blanks ++ rest) := by rw [heq, List.append_assoc]
    by_cases hnil : u = []
    · subst hnil
      -- Only blanks follow, so this piece is the last one, unless it is a blank as well.
      rcases hend hplain with hv' | ⟨y, hy, hcons, rfl⟩
      · exact ⟨c :: v, blanks, p :: ps', by simpa using hs, hv', hblanks, rfl, by simpa using hmore⟩
      · obtain ⟨rfl, rfl⟩ := List.cons.inj hcons
        obtain rfl : ps' = [] := by
          have hempty : TakesPieces P stop [] ps' [] := by
            simpa using hu [] [] [] (by simp [Detached]) (.done (by simp))
          cases hempty
          rfl
        refine ⟨[], c :: blanks, [], hs, rfl, fun z hz => ?_, rfl, fun _ _ _ _ h => h⟩
        rcases List.mem_cons.mp hz with rfl | hz
        · exact hy
        · exact hblanks z hz
    · have htrim' : trimEnd (c :: v ++ u) = c :: v ++ u := by
        rw [trimEnd_append, htrim, if_neg hnil]
      exact ⟨c :: v ++ u, blanks, p :: ps', hs, htrim', hblanks, rfl, hmore⟩

/-! ## Blanks behind segments -/

/-- A text alone is trimmed as a text. -/
theorem trimLast_consText_nil (text : List Char) :
    trimLast (consText text []) = consText (trimEnd text) [] := by
  by_cases htext : text = []
  · rw [htext]
    rfl
  · rw [consText_of_ne_nil htext, trimLast, String.toList_ofList]
    cases trimEnd text <;> rfl

theorem trimLast_cons {segment : Segment} {segments : List Segment}
    (h : segment.isText = false ∨ segments ≠ []) :
    trimLast (segment :: segments) = segment :: trimLast segments := by
  rw [trimLast]
  intro t ht hnil
  rcases h with htext | hne
  · rw [ht] at htext
    cases htext
  · exact hne hnil

/-- In front of other segments a text is not trimmed. -/
theorem trimLast_consText {segments : List Segment} (h : segments ≠ []) (text : List Char) :
    trimLast (consText text segments) = consText text (trimLast segments) := by
  by_cases htext : text = []
  · rw [htext]
    rfl
  · rw [consText_of_ne_nil htext, consText_of_ne_nil htext, trimLast_cons (.inr h)]

/-- A text and the segments behind it are those of other pieces, but for blanks at the end. -/
def DiffersInBlanks (a b : List Char × List Segment) : Prop :=
  (a.2 = [] ∧ b.2 = [] ∧ trimEnd a.1 = trimEnd b.1) ∨
    (a.2 ≠ [] ∧ b.2 ≠ [] ∧ a.1 = b.1 ∧ trimLast a.2 = trimLast b.2)

theorem DiffersInBlanks.trimLast_eq {a b : List Char × List Segment} (h : DiffersInBlanks a b) :
    trimLast (consText a.1 a.2) = trimLast (consText b.1 b.2) := by
  rcases h with ⟨ha, hb, htext⟩ | ⟨ha, hb, htext, hsegments⟩
  · rw [ha, hb, trimLast_consText_nil, trimLast_consText_nil, htext]
  · rw [trimLast_consText ha, trimLast_consText hb, htext, hsegments]

theorem differsInBlanks_append {ps : List Piece} (hps : ∀ p ∈ ps, CanonicalPiece p)
    {blanks : List Char} (hblanks : ∀ c ∈ blanks, isBlank c = true) :
    DiffersInBlanks (splitPieces (ps ++ blanks.map .char)) (splitPieces ps) := by
  induction ps with
  | nil =>
    have hsplit := splitPieces_chars blanks []
    rw [List.append_nil] at hsplit
    refine .inl ?_
    rw [List.nil_append, hsplit]
    simp [splitPieces, trimEnd_of_blanks hblanks, trimEnd]
  | cons p ps ih =>
    have hmore := ih fun q hq => hps q (List.mem_cons_of_mem p hq)
    cases p with
    | char c =>
      rcases hmore with ⟨ha, hb, htext⟩ | ⟨ha, hb, htext, hsegments⟩
      · refine .inl ⟨ha, hb, ?_⟩
        show trimEnd (c :: (splitPieces (ps ++ blanks.map .char)).1) =
          trimEnd (c :: (splitPieces ps).1)
        rw [trimEnd, trimEnd, htext]
      · exact .inr ⟨ha, hb, congrArg (List.cons c) htext, hsegments⟩
    | placeholder segment =>
      have hsegment := (hps _ List.mem_cons_self).2
      refine .inr ⟨List.cons_ne_nil _ _, List.cons_ne_nil _ _, rfl, ?_⟩
      rw [List.cons_append, splitPieces, splitPieces, trimLast_cons (.inl hsegment),
        trimLast_cons (.inl hsegment), hmore.trimLast_eq]

/-- Blanks behind an argument are no part of it. -/
theorem trimLast_ofPieces_append_blanks {ps : List Piece} (hps : ∀ p ∈ ps, CanonicalPiece p)
    {blanks : List Char} (hblanks : ∀ c ∈ blanks, isBlank c = true) :
    trimLast (ofPieces (ps ++ blanks.map .char)) = trimLast (ofPieces ps) :=
  (differsInBlanks_append hps hblanks).trimLast_eq

/-! ## Arguments -/

theorem raw_unquoted (key : Option String) (segments : List Segment) (source : String) :
    (unquoted key segments source).raw = source := by
  unfold unquoted
  split <;> rfl

theorem withKey_unquoted (key key' : Option String) (segments : List Segment) (source : String) :
    (unquoted key segments source).withKey key' = unquoted key' segments source := by
  unfold unquoted
  split <;> rfl

/-- Pieces that are more than blanks make an argument. -/
theorem takesValue_of_pieces (key : Option String) {ps : List Piece}
    (hs : ∀ q, s.head? = some q → ¬(q = '"' ∨ q = '\''))
    (body : TakesPieces P .argument s ps rest) (ne_nil : trimLast (ofPieces ps) ≠ []) :
    TakesValue P key s (unquoted key (trimLast (ofPieces ps))
      (String.ofList (trimEnd (taken s rest)))) rest := by
  cases s with
  | nil =>
    cases body
    exact absurd rfl ne_nil
  | cons c s => exact .unquoted (hs c rfl) body ne_nil

theorem TakesValue.key_eq {key : Option String} {a : Argument} (h : TakesValue P key s a rest) :
    a.key = key := by
  cases h with
  | quoted => rfl
  | unquoted =>
    unfold Template.unquoted
    split <;> rfl

/-- Blanks in front of what ends an argument are characters of it. -/
theorem takesPieces_blanks {blanks : List Char} (hblanks : ∀ x ∈ blanks, isBlank x = true)
    {c : Char} (hc : c = ',' ∨ c = ')') (rest : List Char) :
    TakesPieces P .argument (blanks ++ c :: rest) (blanks.map .char) (c :: rest) := by
  have hends : TakesPieces P .argument (c :: rest) [] (c :: rest) :=
    .done (by simpa [Stop.endsAt] using hc)
  have h := hends.append_inert isUsual_argument fun x hx => inert_of_isBlank (hblanks x hx)
  rwa [List.append_nil] at h

/-- The pieces of an argument stop where it ends, with the blanks in front of that taken. -/
theorem TakesPieces.rest_of_skipBlanks {ps : List Piece} {mid : List Char} {c : Char}
    (h : TakesPieces P .argument s ps mid) (hmid : skipBlanks mid = c :: rest) :
    mid = c :: rest := by
  cases mid with
  | nil => cases hmid
  | cons x mid =>
    have hx : x = ',' ∨ x = ')' := by simpa [Stop.endsAt] using h.endsAt_of_cons
    rw [← hmid]
    exact (skipBlanks_closes hx mid).symm

theorem detached_append {blanks : List Char} (hblanks : ∀ x ∈ blanks, isBlank x = true)
    {s : List Char} (hs : Detached s) : Detached (blanks ++ s) := by
  cases blanks with
  | nil => exact hs
  | cons x blanks => exact detached_of_blank (hblanks x List.mem_cons_self) _

/-- What is read up to the end of an argument is a text in front of blanks, and it is read again
from that text in front of any others. -/
theorem TakesPieces.reread (hP : IsFramed P) {x : Char} {t : List Char} {ps : List Piece} {c : Char}
    (hquote : ¬(x = '"' ∨ x = '\''))
    (body : TakesPieces P .argument (x :: t) ps (c :: rest))
    (ne_nil : trimLast (ofPieces ps) ≠ []) :
    ∃ u blanks, x :: t = u ++ (blanks ++ c :: rest) ∧ (∀ y ∈ blanks, isBlank y = true) ∧
      trimEnd (taken (x :: t) (c :: rest)) = u ∧
      ∀ (key : Option String) (blanks' : List Char) (c' : Char) (rest' : List Char),
        (∀ y ∈ blanks', isBlank y = true) → c' = ',' ∨ c' = ')' →
        TakesValue P key (u ++ (blanks' ++ c' :: rest'))
          (unquoted key (trimLast (ofPieces ps)) (String.ofList u)) (c' :: rest') := by
  obtain ⟨u, blanks, ps, heq, htrim, hblanks, rfl, hu⟩ := body.trim hP Stop.isPlain_argument
  have hcanonical : ∀ p ∈ ps, CanonicalPiece p := fun p hp =>
    body.canonical hP.canonical p (List.mem_append_left _ hp)
  have hjoin {bs : List Char} (hbs : ∀ y ∈ bs, isBlank y = true) :=
    trimLast_ofPieces_append_blanks hcanonical hbs
  have hsource {bs : List Char} (hbs : ∀ y ∈ bs, isBlank y = true) (last : List Char) :
      trimEnd (taken (u ++ (bs ++ last)) last) = u := by
    rw [← List.append_assoc, taken_append, trimEnd_append_blanks hbs, htrim]
  rw [hjoin hblanks] at ne_nil ⊢
  refine ⟨u, blanks, heq, hblanks, by rw [heq, hsource hblanks], ?_⟩
  intro key blanks' c' rest' hblanks' hc'
  have hbody := hu _ _ _ (detached_append hblanks' (detached_of_closes hc' rest'))
    (takesPieces_blanks hblanks' hc' rest')
  have hhead : (u ++ (blanks' ++ c' :: rest')).head? = some x := by
    cases u with
    | nil =>
      -- Of nothing but blanks no argument is read.
      have hempty : TakesPieces P .argument [] ps [] := by
        simpa using hu [] [] [] (by simp [Detached]) (.done (by simp))
      cases hempty
      exact absurd rfl ne_nil
    | cons y v =>
      rw [(List.cons.inj heq).1]
      rfl
  have hquote' : ∀ q, (u ++ (blanks' ++ c' :: rest')).head? = some q → ¬(q = '"' ∨ q = '\'') := by
    intro q hq
    rw [hhead] at hq
    rwa [← Option.some.inj hq]
  have hvalue := takesValue_of_pieces key hquote' hbody (by rwa [hjoin hblanks'])
  rwa [hjoin hblanks', hsource hblanks'] at hvalue

/-- The value of an argument is its text as written, in front of blanks and what ends it, and it is
taken again from that text under any keyword. -/
theorem TakesValue.reread (hP : IsFramed P) {key : Option String} {a : Argument}
    {mid : List Char} {c : Char} (h : TakesValue P key s a mid)
    (hmid : skipBlanks mid = c :: rest) :
    ∃ blanks, s = a.raw.toList ++ (blanks ++ c :: rest) ∧ (∀ x ∈ blanks, isBlank x = true) ∧
      ∀ (key' : Option String) (blanks' : List Char) (c' : Char) (rest' : List Char),
        (∀ x ∈ blanks', isBlank x = true) → c' = ',' ∨ c' = ')' →
        ∃ mid', TakesValue P key' (a.raw.toList ++ (blanks' ++ c' :: rest')) (a.withKey key') mid' ∧
          skipBlanks mid' = c' :: rest' := by
  cases h with
  | @quoted q t _ ps quote body =>
    obtain ⟨blanks, heq, hblanks⟩ := exists_eq_skipBlanks_append mid
    rw [hmid] at heq
    obtain ⟨u, rfl, hu⟩ := body.frame hP
    rw [taken_append]
    refine ⟨blanks, ?_, hblanks, fun key' blanks' c' rest' hblanks' hc' => ?_⟩
    · rw [heq]
      simp [Argument.raw]
    · have hbody := hu (q :: (blanks' ++ c' :: rest')) rfl
      have hvalue : TakesValue P key' _ _ _ := .quoted quote hbody
      rw [taken_append] at hvalue
      refine ⟨blanks' ++ c' :: rest', ?_, skipBlanks_end hc' hblanks' rest'⟩
      simpa [Argument.raw, Argument.withKey] using hvalue
  | @unquoted x t _ ps no_quote body ne_nil =>
    obtain rfl := body.rest_of_skipBlanks hmid
    obtain ⟨u, blanks, heq, hblanks, hsource, hu⟩ := body.reread hP no_quote ne_nil
    rw [hsource, raw_unquoted, String.toList_ofList]
    refine ⟨blanks, heq, hblanks, fun key' blanks' c' rest' hblanks' hc' => ?_⟩
    refine ⟨c' :: rest', ?_, skipBlanks_closes hc' rest'⟩
    rw [withKey_unquoted]
    exact hu key' blanks' c' rest' hblanks' hc'

/-- An argument in front of a barrier is the value of what its text is without its keyword. -/
theorem takesArgument_append_cons {c : Char} (hc : IsBarrier c) {u : List Char} {a : Argument} :
    TakesArgument P (u ++ c :: s) a rest ↔
      TakesValue P (keyword (skipBlanks u)).1 (skipBlanks (keyword (skipBlanks u)).2 ++ c :: s) a
        rest := by
  rw [TakesArgument, skipBlanks_append_cons hc.not_blank, keyword_append_cons hc,
    skipBlanks_append_cons hc.not_blank]

theorem suffix_keyword (s : List Char) : (keyword s).2 <:+ s := by
  unfold keyword
  split
  · next name after h =>
    obtain ⟨w, mid, hword, -, hskip, -⟩ := keyword?_eq_some_iff.mp h
    have hafter : after <:+ skipBlanks mid := hskip ▸ List.suffix_cons '=' after
    have hmid : mid <:+ s := (word_eq_iff.mp hword).1 ▸ List.suffix_append w mid
    exact (hafter.trans (List.dropWhile_suffix isBlank)).trans hmid
  · exact List.suffix_refl s

/-- An argument is taken again in front of any comma or parenthesis. -/
theorem TakesArgument.frame (hP : IsFramed P) {a : Argument} {mid : List Char} {c : Char}
    (h : TakesArgument P s a mid) (hmid : skipBlanks mid = c :: rest) (hc : c = ',' ∨ c = ')') :
    ∃ u, s = u ++ c :: rest ∧ ∀ (c' : Char) (rest' : List Char), c' = ',' ∨ c' = ')' →
      ∃ mid', TakesArgument P (u ++ c' :: rest') a mid' ∧ skipBlanks mid' = c' :: rest' := by
  have hvalue : TakesValue P _ (skipBlanks (keyword (skipBlanks s)).2) a mid := h
  obtain ⟨blanks, heq, hblanks, hreread⟩ := hvalue.reread hP hmid
  -- What ends the argument is the end of the text in front of which the keyword is skipped.
  obtain ⟨u, rfl⟩ : c :: rest <:+ s := by
    have hend : c :: rest <:+ skipBlanks (keyword (skipBlanks s)).2 := by
      rw [heq, ← List.append_assoc]
      exact List.suffix_append _ _
    have hkey := (List.dropWhile_suffix isBlank).trans (suffix_keyword (skipBlanks s))
    exact (hend.trans hkey).trans (List.dropWhile_suffix isBlank)
  have hbarrier := isBarrier_of_closes hc
  rw [skipBlanks_append_cons hbarrier.not_blank, keyword_append_cons hbarrier,
    skipBlanks_append_cons hbarrier.not_blank, ← List.append_assoc] at heq
  have hraw := List.append_cancel_right heq
  have hkey := (takesArgument_append_cons hbarrier).mp h
  refine ⟨u, rfl, fun c' rest' hc' => ?_⟩
  obtain ⟨mid', hvalue', hmid'⟩ := hreread (keyword (skipBlanks u)).1 blanks c' rest' hblanks hc'
  refine ⟨mid', (takesArgument_append_cons (isBarrier_of_closes hc')).mpr ?_, hmid'⟩
  have hwith : a.withKey (keyword (skipBlanks u)).1 = a := by
    rw [← hkey.key_eq, Argument.withKey_key]
  rwa [hwith, ← List.append_assoc, ← hraw] at hvalue'

/-- Arguments are taken again whatever follows the closing parenthesis. -/
theorem TakesMore.frame (hP : IsFramed P) {args : List Argument} (h : TakesMore P s args rest) :
    ∃ u, s = u ++ ')' :: rest ∧ ∀ rest', TakesMore P (u ++ ')' :: rest') args rest' := by
  induction h with
  | last first closed =>
    obtain ⟨u, rfl, hu⟩ := first.frame hP closed (.inr rfl)
    refine ⟨u, rfl, fun rest' => ?_⟩
    obtain ⟨mid', hfirst, hclosed⟩ := hu ')' rest' (.inr rfl)
    exact .last hfirst hclosed
  | more first comma _ ih =>
    obtain ⟨u, rfl, hu⟩ := first.frame hP comma (.inl rfl)
    obtain ⟨v, rfl, hv⟩ := ih
    refine ⟨u ++ ',' :: v, by simp, fun rest' => ?_⟩
    obtain ⟨mid', hfirst, hcomma⟩ := hu ',' (v ++ ')' :: rest') (.inl rfl)
    have hmore : TakesMore P _ _ rest' := .more hfirst hcomma (hv rest')
    simpa using hmore

theorem TakesArguments.frame (hP : IsFramed P) {args : List Argument}
    (h : TakesArguments P s args rest) :
    ∃ u, s = u ++ ')' :: rest ∧ ∀ rest', TakesArguments P (u ++ ')' :: rest') args rest' := by
  have hparen : isBlank ')' = false := by decide
  obtain ⟨blanks, hs, hblanks⟩ := exists_eq_skipBlanks_append s
  cases h with
  | none closed =>
    rw [closed] at hs
    exact ⟨blanks, hs, fun rest' =>
      .none (skipBlanks_append_of_ends hblanks (ends_cons.mpr hparen))⟩
  | some opened all =>
    obtain ⟨u, heq, hu⟩ := all.frame hP
    have hstart : ∀ rest', skipBlanks (blanks ++ (u ++ ')' :: rest')) = u ++ ')' :: rest' := by
      intro rest'
      refine skipBlanks_append_of_ends hblanks fun x hx => head?_skipBlanks s x ?_
      rw [heq, ← hx]
      cases u <;> rfl
    refine ⟨blanks ++ u, by rw [List.append_assoc, ← heq, ← hs], fun rest' => ?_⟩
    rw [List.append_assoc]
    refine .some ?_ (by rw [hstart]; exact hu rest')
    rw [hstart]
    rw [heq] at opened
    intro hhead
    exact opened (by rw [← hhead]; cases u <;> rfl)

end Rules

/-! ## Placeholders -/

/-- The induction is on the room for placeholders. -/
theorem isFramed_takesPlaceholder (room : ℕ) : IsFramed (TakesPlaceholder room) where
  canonical := canonicalRule_takesPlaceholder room
  frame {s rest segment} h := by
    have hbrace : isBlank '\x7d' = false := by decide
    cases room with
    | zero => exact h.elim
    | succ room =>
      cases segment with
      | text => exact absurd h not_takesPlaceholder_text
      | var n =>
        obtain ⟨name, hbraced, hname, rfl⟩ := takesPlaceholder_var_iff.mp h
        obtain ⟨mid, hword, hclosed⟩ := braced_eq_name_iff.mp hbraced
        obtain ⟨before, after, hs, hbefore, hisWord, hafter⟩ := exists_eq_append_word s
        rw [hword, hclosed] at hs
        rw [hword] at hisWord
        refine ⟨before ++ (name ++ after), by simpa using hs, fun rest' => ?_⟩
        have hbraced' := braced_append rest' hbefore hisWord hafter
        refine takesPlaceholder_var_iff.mpr ⟨name, ?_, hname, rfl⟩
        simpa using hbraced'
      | call c =>
        obtain ⟨mid, hcall, hclosed⟩ := h
        cases hcall with
        | @call _ name mid' next _ args word_eq ne_nil opened all =>
          obtain ⟨u, rfl, hu⟩ := all.frame (isFramed_takesPlaceholder room)
          obtain ⟨before, after, hs, hbefore, hisWord, hafter⟩ := exists_eq_append_word s
          rw [word_eq, opened] at hs
          rw [word_eq] at hisWord
          obtain ⟨blanks, hmid, hblanks⟩ := exists_eq_skipBlanks_append mid
          rw [hclosed] at hmid
          refine ⟨before ++ (name ++ (after ++ '(' :: (u ++ ')' :: blanks))), ?_, fun rest' => ?_⟩
          · rw [hs, hmid]
            simp
          · have hclosed' : skipBlanks (blanks ++ '\x7d' :: rest') = '\x7d' :: rest' :=
              skipBlanks_append_of_ends hblanks (ends_cons.mpr hbrace)
            obtain ⟨mid'', hword, hopened⟩ := exists_word_skipBlanks
              (u ++ ')' :: (blanks ++ '\x7d' :: rest')) hbefore hisWord hafter
              (by decide : isWord '(' = false) (by decide)
            refine ⟨blanks ++ '\x7d' :: rest', ?_, hclosed'⟩
            simpa using TakesName.call hword ne_nil hopened (hu _)

/-! ## More room -/

section Mono

variable {P P' : Rule Segment} {stop : Stop} {s rest : List Char}

theorem TakesPiece.mono (hP : ∀ s segment rest, P s segment rest → P' s segment rest) {p : Piece}
    (h : TakesPiece P stop s p rest) : TakesPiece P' stop s p rest := by
  cases h with
  | escaped escapes => exact .escaped escapes
  | backslash plain => exact .backslash plain
  | dollars => exact .dollars
  | braces inner => exact .braces (hP _ _ _ inner)
  | name word_eq ne_nil => exact .name word_eq ne_nil
  | dollar lone => exact .dollar lone
  | char ne_backslash ne_dollar => exact .char ne_backslash ne_dollar

theorem TakesPieces.mono (hP : ∀ s segment rest, P s segment rest → P' s segment rest)
    {ps : List Piece} (h : TakesPieces P stop s ps rest) : TakesPieces P' stop s ps rest := by
  induction h with
  | done ends => exact .done ends
  | more goes_on first _ ih => exact .more goes_on (first.mono hP) ih

theorem TakesValue.mono (hP : ∀ s segment rest, P s segment rest → P' s segment rest)
    {key : Option String} {a : Argument} (h : TakesValue P key s a rest) :
    TakesValue P' key s a rest := by
  cases h with
  | quoted quote body => exact .quoted quote (body.mono hP)
  | unquoted no_quote body ne_nil => exact .unquoted no_quote (body.mono hP) ne_nil

theorem TakesMore.mono (hP : ∀ s segment rest, P s segment rest → P' s segment rest)
    {args : List Argument} (h : TakesMore P s args rest) : TakesMore P' s args rest := by
  induction h with
  | last first closed => exact .last (TakesValue.mono hP first) closed
  | more first comma _ ih => exact .more (TakesValue.mono hP first) comma ih

theorem TakesArguments.mono (hP : ∀ s segment rest, P s segment rest → P' s segment rest)
    {args : List Argument} (h : TakesArguments P s args rest) : TakesArguments P' s args rest := by
  cases h with
  | none closed => exact .none closed
  | some opened all => exact .some opened (all.mono hP)

end Mono

/-- What is read in some room is read in more. The induction is on the room. -/
theorem TakesPlaceholder.mono {room room' : ℕ} (hroom : room ≤ room') {s rest : List Char}
    {segment : Segment} (h : TakesPlaceholder room s segment rest) :
    TakesPlaceholder room' s segment rest := by
  induction room generalizing room' s segment rest with
  | zero => exact h.elim
  | succ room ih =>
    obtain ⟨room', rfl⟩ : ∃ r, room' = r + 1 := ⟨room' - 1, by omega⟩
    obtain ⟨mid, hname, hclosed⟩ := h
    refine ⟨mid, ?_, hclosed⟩
    cases hname with
    | var word_eq ne_nil no_call => exact .var word_eq ne_nil no_call
    | call word_eq ne_nil opened all =>
      exact .call word_eq ne_nil opened
        (all.mono fun _ _ _ => ih (Nat.le_of_succ_le_succ hroom))

end Template

end Casebook
