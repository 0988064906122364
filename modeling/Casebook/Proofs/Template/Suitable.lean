import Casebook.Proofs.Template.Joining
import Casebook.Proofs.Template.Nested

/-!
# Arguments that keep their place

Replacing parameters is done by a scanner, in the text. `Argument.Suits` lists what an argument
needs for the parser to find it again where it was. Between quotes the text that is put in for a
parameter must fit between these quotes. Elsewhere a parameter that is replaced must be all of the
argument; and no quote may follow an equals sign there, because the scanner would take it for the
begin of a string.
-/

namespace Casebook

open Text Template

/-- Whether the scanner takes a quote in a text for the begin of a string: only blanks stand between
it and an equals sign. At the start the text may stand behind one itself. -/
def opensString (behind : Bool) : List Char → Bool
  | [] => false
  | c :: s =>
    (behind && (c = '"' || c = '\'')) || opensString (c = '=' || (behind && isBlank c)) s

namespace Segment

/-- Whether the scanner takes a quote in the text of segments for the begin of a string. -/
def opensString (behind : Bool) : List Segment → Bool
  | [] => false
  | text t :: rest => Casebook.opensString behind t.toList || opensString false rest
  | _ :: rest => opensString false rest

/-- Segments that begin with no placeholder, nor with text that is read differently behind a dollar.
-/
def StartsSafe : List Segment → Prop
  | [] => True
  | text t :: _ => SafeBehindDollar t.toList
  | _ :: _ => False

/-- What is put in between quotes for variables fits between them. -/
def Fit (mapping : Dict Substitution) (depth : ℕ) (q : Char) : List Segment → Prop
  | [] => True
  | var n :: rest =>
    (∀ sub, mapping.get? n = some sub → Fits depth q sub.text.toList ∧
      (endsInDollar sub.text.toList = true → StartsSafe rest)) ∧ Fit mapping depth q rest
  | _ :: rest => Fit mapping depth q rest

end Segment

/-- A text that is an argument by itself stays what it is behind a keyword, or without one. -/
def Stands (key : Option String) (literal : List Char) : Prop :=
  match key with
  | none => (keyword literal).1 = none
  | some _ => literal.head? ≠ some '='

/-- An argument is found again where it was once parameters are replaced. -/
def Argument.Suits (mapping : Dict Substitution) (depth : ℕ) : Argument → Prop
  | .literal _ _ source => opensString false source.toList = false
  | .quoted _ q body _ => Segment.Fit mapping depth q body
  | .expr key body _ =>
    Segment.opensString false body = false ∧
      ((∀ n, .var n ∈ body → mapping.get? n = none) ∨
        ∃ n sub, body = [.var n] ∧ mapping.get? n = some sub ∧ Stands key sub.literal.toList)

namespace Template

open Segment

section

variable {P : Rule Segment} {stop : Stop} {s rest : List Char} {ps : List Piece}

/-! ## Conditions on pieces -/

theorem fit_consText {mapping : Dict Substitution} {depth : ℕ} {q : Char} (text : List Char)
    (segments : List Segment) :
    Fit mapping depth q (consText text segments) ↔ Fit mapping depth q segments := by
  cases text <;> rfl

theorem fit_ofPieces_char {mapping : Dict Substitution} {depth : ℕ} {q : Char} (c : Char)
    (ps : List Piece) :
    Fit mapping depth q (ofPieces (.char c :: ps)) ↔ Fit mapping depth q (ofPieces ps) := by
  rw [ofPieces, ofPieces, fit_consText, fit_consText]
  rfl

theorem fit_tail {mapping : Dict Substitution} {depth : ℕ} {q : Char} {p : Piece}
    (h : Fit mapping depth q (ofPieces (p :: ps))) : Fit mapping depth q (ofPieces ps) := by
  cases p with
  | char c => exact (fit_ofPieces_char c ps).mp h
  | placeholder segment =>
    cases segment with
    | text => exact h
    | var => exact h.2
    | call => exact h

/-- Behind no text a text is the first of the segments. -/
theorem opensString_consText {segments : List Segment} (h : startsWithText segments = false)
    (b : Bool) (text : List Char) :
    Segment.opensString b (consText text segments) =
      (Casebook.opensString b text || Segment.opensString false segments) := by
  cases text with
  | nil =>
    -- The flag does not matter in front of a placeholder.
    cases segments with
    | nil => rfl
    | cons segment segments =>
      cases segment with
      | text => cases h
      | var => rfl
      | call => rfl
  | cons c text =>
    show (Casebook.opensString b (String.ofList (c :: text)).toList || _) = _
    rw [String.toList_ofList]

theorem opensString_ofPieces_char (hps : ∀ p ∈ ps, CanonicalPiece p) (b : Bool) (c : Char) :
    Segment.opensString b (ofPieces (.char c :: ps)) =
      ((b && (c = '"' || c = '\'')) ||
        Segment.opensString (c = '=' || (b && isBlank c)) (ofPieces ps)) := by
  have hstart := (canonical_splitPieces hps).2
  have hcons : ofPieces (.char c :: ps) = consText (c :: (splitPieces ps).1) (splitPieces ps).2 :=
    rfl
  rw [hcons, ofPieces, opensString_consText hstart, opensString_consText hstart,
    Casebook.opensString, Bool.or_assoc]

theorem opensString_ofPieces_placeholder {segment : Segment} (h : segment.isText = false)
    (b : Bool) (ps : List Piece) :
    Segment.opensString b (ofPieces (.placeholder segment :: ps)) =
      Segment.opensString false (ofPieces ps) := by
  cases segment with
  | text => cases h
  | var => rfl
  | call => rfl

/-- Blanks at the end are no quotes. -/
theorem opensString_trimEnd (b : Bool) (text : List Char) :
    Casebook.opensString b (trimEnd text) = Casebook.opensString b text := by
  induction text generalizing b with
  | nil => rfl
  | cons c text ih =>
    rw [Casebook.opensString, ← ih, trimEnd]
    cases trimEnd text with
    | cons x kept => rfl
    | nil =>
      by_cases hc : isBlank c = true
      · have hquote : (decide (c = '"') || decide (c = '\'')) = false := by
          rw [Bool.or_eq_false_iff, decide_eq_false_iff_not, decide_eq_false_iff_not]
          constructor
          · rintro rfl
            exact absurd hc (by decide)
          · rintro rfl
            exact absurd hc (by decide)
        rw [hquote, Bool.and_false]
        simp only [if_pos hc, Casebook.opensString, Bool.or_self]
      · simp only [if_neg hc, Casebook.opensString]

theorem opensString_trimLast (b : Bool) (segments : List Segment) :
    Segment.opensString b (trimLast segments) = Segment.opensString b segments := by
  fun_induction trimLast segments generalizing b with
  | case1 => rfl
  | case2 t hnil =>
    have htrim := opensString_trimEnd b t.toList
    rw [hnil] at htrim
    simp [Segment.opensString, ← htrim, Casebook.opensString]
  | case3 t hkept =>
    have htrim := opensString_trimEnd b t.toList
    simp [Segment.opensString, htrim]
  | case4 segment rest _ ih =>
    cases segment with
    | text t => rw [Segment.opensString, Segment.opensString, ih]
    | var => exact ih false
    | call => exact ih false

/-! ## Arguments without quotes -/

theorem all_isText_trimLast (segments : List Segment) :
    (trimLast segments).all isText = segments.all isText := by
  fun_induction trimLast segments with
  | case1 => rfl
  | case2 => rfl
  | case3 => rfl
  | case4 s rest _ ih => rw [List.all_cons, List.all_cons, ih]

theorem mem_ofPieces_of_mem {segment : Segment} (h : .placeholder segment ∈ ps) :
    segment ∈ ofPieces ps := by
  have hcons (text : List Char) {segments : List Segment} (hmem : segment ∈ segments) :
      segment ∈ consText text segments := by
    cases text with
    | nil => exact hmem
    | cons => exact List.mem_cons_of_mem _ hmem
  apply hcons
  induction ps with
  | nil => cases h
  | cons p ps ih =>
    cases p with
    | char => exact ih (by simpa using h)
    | placeholder first =>
      rcases List.mem_cons.mp h with heq | hmem
      · rw [Piece.placeholder.inj heq]
        exact List.mem_cons_self
      · exact List.mem_cons_of_mem _ (hcons _ (ih hmem))

/-- Only text is trimmed. -/
theorem mem_trimLast_of_mem {segment : Segment} {segments : List Segment} (h : segment ∈ segments)
    (htext : segment.isText = false) : segment ∈ trimLast segments := by
  fun_induction trimLast segments with
  | case1 => exact h
  | case2 | case3 =>
    rw [List.mem_singleton.mp h] at htext
    cases htext
  | case4 first rest _ ih =>
    rcases List.mem_cons.mp h with rfl | hmem
    · exact List.mem_cons_self
    · exact List.mem_cons_of_mem _ (ih hmem)

/-- Text that is read as characters alone looks to the scanner like these characters. -/
theorem TakesPieces.opensString_chars (hplain : stop.IsPlain) {chars : List Char}
    (h : TakesPieces P stop s (chars.map .char) rest) :
    ∃ u, s = u ++ rest ∧ ∀ b, Casebook.opensString b u = Casebook.opensString b chars := by
  generalize hps : chars.map Piece.char = ps at h
  induction h generalizing chars with
  | done =>
    rw [List.map_eq_nil_iff] at hps
    exact ⟨[], rfl, fun b => by rw [hps]⟩
  | @more c t mid rest p ps goes_on first others ih =>
    obtain ⟨x, chars, rfl, rfl, rfl⟩ := List.map_eq_cons_iff.mp hps
    obtain ⟨u, rfl, hu⟩ := ih rfl
    cases first with
    | escaped escapes =>
      rw [hplain] at escapes
      cases escapes
    | backslash =>
      exact ⟨_ :: u, rfl, fun b => by rw [Casebook.opensString, Casebook.opensString, hu]⟩
    | dollars =>
      refine ⟨'$' :: '$' :: u, rfl, fun b => ?_⟩
      rw [Casebook.opensString, Casebook.opensString, Casebook.opensString, hu]
      simp [isBlank]
    | dollar =>
      exact ⟨_ :: u, rfl, fun b => by rw [Casebook.opensString, Casebook.opensString, hu]⟩
    | char =>
      exact ⟨_ :: u, rfl, fun b => by rw [Casebook.opensString, Casebook.opensString, hu]⟩

/-- What is only a text with a blank in front is only blanks behind the blank. -/
theorem trimLast_ofPieces_tail {c : Char} (h : trimLast (ofPieces (.char c :: ps)) = []) :
    trimLast (ofPieces ps) = [] := by
  have hcons : ofPieces (.char c :: ps) = consText (c :: (splitPieces ps).1) (splitPieces ps).2 :=
    rfl
  rw [hcons] at h
  by_cases hsegments : (splitPieces ps).2 = []
  · rw [hsegments, trimLast_consText_nil, trimEnd] at h
    rw [ofPieces, hsegments, trimLast_consText_nil]
    cases hkept : trimEnd (splitPieces ps).1 with
    | nil => rfl
    | cons x kept =>
      rw [hkept] at h
      cases h
  · rw [trimLast_consText hsegments] at h
    cases h

/-- Segments of which nothing is left without the blanks at their end are blanks. -/
theorem exists_blanks_of_trimLast_eq_nil (hps : ∀ p ∈ ps, CanonicalPiece p)
    (h : trimLast (ofPieces ps) = []) :
    ∃ blanks : List Char, ps = blanks.map .char ∧ ∀ x ∈ blanks, isBlank x = true := by
  induction ps with
  | nil => exact ⟨[], rfl, by simp⟩
  | cons p ps ih =>
    cases p with
    | placeholder segment =>
      have hne := trimLast_ofPieces_ne_nil (p := .placeholder segment) nofun (fun t ht => ?_) ps
      · exact absurd h hne
      · have htext := (hps _ List.mem_cons_self).2
        rw [Piece.placeholder.inj ht] at htext
        cases htext
    | char c =>
      have hc : isBlank c = true := by
        by_contra hc
        have hne := trimLast_ofPieces_ne_nil (p := .char c)
          (fun x hx => by rw [← Piece.char.inj hx]; simpa using hc) nofun ps
        exact hne h
      obtain ⟨blanks, rfl, hblanks⟩ :=
        ih (fun q hq => hps q (List.mem_cons_of_mem _ hq)) (trimLast_ofPieces_tail h)
      refine ⟨c :: blanks, rfl, fun x hx => ?_⟩
      rcases List.mem_cons.mp hx with rfl | hx
      · exact hc
      · exact hblanks x hx

/-- A parameter that is an argument is its first piece, and blanks are all others. -/
theorem exists_blanks_of_trimLast_eq_var (hps : ∀ p ∈ ps, CanonicalPiece p) {n : String}
    (h : trimLast (ofPieces ps) = [.var n]) :
    ∃ blanks : List Char, ps = .placeholder (.var n) :: blanks.map .char ∧
      ∀ x ∈ blanks, isBlank x = true := by
  cases ps with
  | nil => cases h
  | cons p ps =>
    cases p with
    | char c =>
      -- Text in front is not trimmed to a variable.
      have hcons : ofPieces (.char c :: ps) =
          consText (c :: (splitPieces ps).1) (splitPieces ps).2 := rfl
      rw [hcons] at h
      by_cases hsegments : (splitPieces ps).2 = []
      · rw [hsegments, trimLast_consText_nil] at h
        cases hkept : trimEnd (c :: (splitPieces ps).1) with
        | nil =>
          rw [hkept] at h
          cases h
        | cons x kept =>
          rw [hkept] at h
          cases (List.cons.inj h).1
      · rw [trimLast_consText hsegments] at h
        cases (List.cons.inj h).1
    | placeholder segment =>
      have hsegment := (hps _ List.mem_cons_self).2
      have hcons : ofPieces (.placeholder segment :: ps) = segment :: ofPieces ps := rfl
      rw [hcons, trimLast_cons (.inl hsegment)] at h
      obtain ⟨rfl, hnil⟩ := List.cons.inj h
      obtain ⟨blanks, rfl, hblanks⟩ := exists_blanks_of_trimLast_eq_nil
        (fun q hq => hps q (List.mem_cons_of_mem _ hq)) hnil
      exact ⟨blanks, rfl, hblanks⟩

/-- An argument without quotes is read again as it is, or is a parameter that is replaced. -/
theorem cases_of_suits (hP : CanonicalRule P) {mapping : Dict Substitution} {depth : ℕ}
    {key : Option String} (body : TakesPieces P .argument s ps rest)
    (h : (unquoted key (trimLast (ofPieces ps)) (String.ofList (trimEnd (taken s rest)))).Suits
      mapping depth) :
    (Segment.opensString false (ofPieces ps) = false ∧
      ∀ n, .placeholder (.var n) ∈ ps → mapping.get? n = none) ∨
    ∃ n sub, ∃ blanks : List Char, ps = .placeholder (.var n) :: blanks.map .char ∧
      (∀ x ∈ blanks, isBlank x = true) ∧ mapping.get? n = some sub ∧
      Stands key sub.literal.toList := by
  have hcanonical := body.canonical hP
  unfold unquoted at h
  rw [all_isText_trimLast] at h
  split at h
  · next htext =>
    obtain ⟨chars, rfl⟩ := exists_chars_of_isText hcanonical htext
    obtain ⟨u, rfl, hu⟩ := body.opensString_chars Stop.isPlain_argument
    have hsplit : ofPieces (chars.map .char) = consText chars [] := by
      have hchars := splitPieces_chars chars []
      rw [List.append_nil] at hchars
      simp [ofPieces, hchars, splitPieces]
    rw [taken_append] at h
    refine .inl ⟨?_, by simp⟩
    have hquotes : Casebook.opensString false (String.ofList (trimEnd u)).toList = false := h
    rw [String.toList_ofList, opensString_trimEnd, hu] at hquotes
    rw [hsplit, opensString_consText rfl, hquotes]
    rfl
  · obtain ⟨hquotes, hvars⟩ := h
    rw [opensString_trimLast] at hquotes
    rcases hvars with hnone | ⟨n, sub, hbody, hget, hstands⟩
    · exact .inl ⟨hquotes, fun n hn =>
        hnone n (mem_trimLast_of_mem (mem_ofPieces_of_mem hn) rfl)⟩
    · obtain ⟨blanks, hps, hblanks⟩ := exists_blanks_of_trimLast_eq_var hcanonical hbody
      exact .inr ⟨n, sub, blanks, hps, hblanks, hget, hstands⟩

end

end Template

end Casebook
