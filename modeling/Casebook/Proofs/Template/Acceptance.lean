import Casebook.Proofs.Template.Unambiguity
import Mathlib

/-!
# What the parser accepts

A text that has no more openings than there is room parses exactly if it has a derivation, and to
the segments of that derivation, which is the only one. Every other text is an error of its syntax:
a placeholder is too deep only in a text with more openings than there is room.
-/

namespace Casebook.Template

open Text Casebook.Computation

/-! ## Nesting without room for it -/

section Deep

variable {room : ℕ} {stop : Stop} {s : List Char}

/-- Placeholders are too deep only if there are at least as many openings in them as there is
room. -/
def DeepensOpenings (room : ℕ) : Prop :=
  ∀ s, placeholder room s = .error .tooDeep → room ≤ openings s

theorem openings_of_piece (hdeep : DeepensOpenings room) {c : Char}
    (h : piece (placeholder room) stop c s = .error .tooDeep) : room < openings (c :: s) := by
  unfold piece at h
  split at h
  · split at h
    · cases h
    · split at h <;> cases h
  split at h
  · next hc =>
    subst hc
    split at h
    · cases h
    next x after =>
    split at h
    · cases h
    split at h
    · next hx =>
      subst hx
      -- This opening is one more than those that the placeholder has no room for.
      rw [openings_braces]
      exact Nat.lt_succ_of_le (hdeep after (map_eq_error.mp h))
    · split at h <;> cases h
  · cases h

/-- Behind a piece stands the end of the text. -/
theorem suffix_of_piece {c : Char} {r : Scanned Piece s}
    (h : piece (placeholder room) stop c s = .ok r) : r.rest <:+ c :: s := by
  have hreads : Reads (piece (placeholder room) stop c) s r.value r.rest := ⟨r.le, h⟩
  have htakes := takesPiece_of_reads hreads
  rw [reads_placeholder] at htakes
  obtain ⟨u, -, heq, -⟩ := htakes.frame (isFramed_takesPlaceholder room)
  exact heq ▸ List.suffix_append u r.rest

/-- The induction is on the text, of which each piece takes at least a character. -/
theorem openings_of_pieces (hdeep : DeepensOpenings room)
    (h : pieces (placeholder room) stop s = .error .tooDeep) : room < openings s := by
  induction hn : s.length using Nat.strongRecOn generalizing s with
  | ind n ih =>
  unfold pieces at h
  split at h
  · cases h
  next c s =>
  split at h
  · cases h
  rcases bind_eq_error.mp h with hfirst | ⟨p, hp, h⟩
  · exact openings_of_piece hdeep hfirst
  rcases bind_eq_error.mp h with hmore | ⟨r, -, h⟩
  · have hlt : p.rest.length < n := hn ▸ Nat.lt_succ_of_le p.le
    exact Nat.lt_of_lt_of_le (ih _ hlt hmore rfl) (openings_le_of_suffix (suffix_of_piece hp))
  · cases h

theorem openings_of_argumentValue (hdeep : DeepensOpenings room) {key : Option String}
    (h : argumentValue (placeholder room) key s = .error .tooDeep) : room < openings s := by
  unfold argumentValue at h
  split at h
  · cases h
  next q inner =>
  split at h
  · rcases bind_eq_error.mp h with hbody | ⟨r, -, h⟩
    · exact Nat.lt_of_lt_of_le (openings_of_pieces hdeep hbody)
        (openings_le_of_suffix (List.suffix_cons q inner))
    · split at h <;> cases h
  · rcases bind_eq_error.mp h with hbody | ⟨r, -, h⟩
    · exact openings_of_pieces hdeep hbody
    · simp only at h
      split at h <;> cases h

theorem openings_of_argument (hdeep : DeepensOpenings room)
    (h : argument (placeholder room) s = .error .tooDeep) : room < openings s := by
  rcases bind_eq_error.mp h with hvalue | ⟨r, -, h⟩
  · have hsuffix : skipBlanks (keyword (skipBlanks s)).2 <:+ s :=
      ((List.dropWhile_suffix isBlank).trans (suffix_keyword _)).trans (List.dropWhile_suffix isBlank)
    exact Nat.lt_of_lt_of_le (openings_of_argumentValue hdeep hvalue)
      (openings_le_of_suffix hsuffix)
  · cases h

/-- The induction is on the text, which is shorter behind a comma. -/
theorem openings_of_moreArguments (hdeep : DeepensOpenings room)
    (h : moreArguments (placeholder room) s = .error .tooDeep) : room < openings s := by
  induction hn : s.length using Nat.strongRecOn generalizing s with
  | ind n ih =>
  unfold moreArguments at h
  rcases bind_eq_error.mp h with hfirst | ⟨a, ha, h⟩
  · exact openings_of_argument hdeep hfirst
  simp only at h
  split at h
  · cases h
  next c after hc =>
  split at h
  · next hcomma =>
    subst hcomma
    rcases bind_eq_error.mp h with hmore | ⟨more, -, h⟩
    · have hfirst : TakesArgument (Reads (placeholder room)) s a.value a.rest :=
        reads_argument_iff.mp ⟨a.le, ha⟩
      rw [reads_placeholder] at hfirst
      obtain ⟨u, rfl, -⟩ := hfirst.frame (isFramed_takesPlaceholder room) hc (.inl rfl)
      have hlt : after.length < n := by
        rw [← hn, List.length_append, List.length_cons]
        omega
      exact Nat.lt_of_lt_of_le (ih _ hlt hmore rfl)
        (openings_le_of_suffix ((List.suffix_cons ',' after).trans (List.suffix_append u _)))
    · cases h
  · split at h <;> cases h

theorem openings_of_arguments (hdeep : DeepensOpenings room)
    (h : arguments (placeholder room) s = .error .tooDeep) : room < openings s := by
  unfold arguments at h
  simp only at h
  split at h
  · cases h
  · rcases bind_eq_error.mp h with hmore | ⟨r, -, h⟩
    · exact Nat.lt_of_lt_of_le (openings_of_moreArguments hdeep hmore)
        (openings_le_of_suffix (List.dropWhile_suffix isBlank))
    · cases h

theorem openings_of_nameAndArguments (hdeep : DeepensOpenings room)
    (h : nameAndArguments (placeholder room) s = .error .tooDeep) : room < openings s := by
  unfold nameAndArguments at h
  simp only at h
  split at h
  · cases h
  split at h
  · next after hopened =>
    rcases bind_eq_error.mp h with hall | ⟨r, -, h⟩
    · have hsuffix : after <:+ s := by
        have hskip : after <:+ skipBlanks (word (skipBlanks s)).2 :=
          hopened ▸ List.suffix_cons '(' after
        exact ((hskip.trans (List.dropWhile_suffix isBlank)).trans
          (List.dropWhile_suffix isWord)).trans (List.dropWhile_suffix isBlank)
      exact Nat.lt_of_lt_of_le (openings_of_arguments hdeep hall) (openings_le_of_suffix hsuffix)
    · cases h
  · cases h

end Deep

/-- The induction is on the room. -/
theorem deepensOpenings (room : ℕ) : DeepensOpenings room := by
  induction room with
  | zero => exact fun _ _ => Nat.zero_le _
  | succ room ih =>
    intro s h
    unfold placeholder at h
    rcases bind_eq_error.mp h with hname | ⟨r, -, h⟩
    · exact openings_of_nameAndArguments ih hname
    · simp only at h
      split at h <;> cases h

/-! ## Texts -/

/-- An error of a text with no more openings than the limit is one of its syntax. -/
theorem exists_templateSyntax_of_parse {limit : ℕ} {text : String}
    (hlimit : openings text.toList ≤ limit) {e : Error} (h : parse limit text = .error e) :
    ∃ problem, e = .templateSyntax text problem := by
  unfold parse read at h
  split at h
  · cases h
  next failure hfailure =>
  cases h
  cases failure with
  | problem p rest => exact ⟨_, rfl⟩
  | tooDeep =>
    have hmore := openings_of_pieces (deepensOpenings limit) hfailure
    omega

/-- The parser accepts the grammar of templates. A text that has no more openings than the limit
parses to a template exactly if this is what a derivation of it stands for, it has one derivation at
most, and any other text is an error of its syntax. -/
theorem parse_iff_derives {limit : ℕ} {text : String} (hlimit : openings text.toList ≤ limit) :
    (∀ t, parse limit text = .ok t ↔
        ∃ items, Derives text items ∧ t = ⟨segmentsOfItems items⟩) ∧
      (∀ items items', Derives text items → Derives text items' → items = items') ∧
      ((¬∃ items, Derives text items) →
        ∃ problem, parse limit text = .error (.templateSyntax text problem)) := by
  refine ⟨fun t => parse_eq_ok_iff_derives hlimit, fun _ _ h h' => h.unique h', fun hnone => ?_⟩
  cases h : parse limit text with
  | ok t =>
    obtain ⟨items, hitems, -⟩ := (parse_eq_ok_iff_derives hlimit).mp h
    exact absurd ⟨items, hitems⟩ hnone
  | error e =>
    obtain ⟨problem, rfl⟩ := exists_templateSyntax_of_parse hlimit h
    exact ⟨problem, rfl⟩

/-- A quoted argument with a keyword has a derivation; a keyword without a value has none. -/
theorem parse_iff_derives_pay :
    (∃ items, Derives "pay $\x7bsum(a , by = '$b\\'')\x7d$$" items ∧ segmentsOfItems items =
      [.text "pay ", .call ⟨"sum", [.literal none (.string "a") "a",
        .quoted (some "by") '\'' [.var "b", .text "'"] "$b\\'"]⟩, .text "$"]) ∧
      (¬∃ items, Derives "$\x7bsum(a=)\x7d" items) ∧
      ∃ problem, parse 1 "$\x7bsum(a=)\x7d" = .error (.templateSyntax "$\x7bsum(a=)\x7d" problem) := by
  have hpay : parse 1 "pay $\x7bsum(a , by = '$b\\'')\x7d$$" = .ok ⟨[.text "pay ",
      .call ⟨"sum", [.literal none (.string "a") "a",
        .quoted (some "by") '\'' [.var "b", .text "'"] "$b\\'"]⟩, .text "$"]⟩ := by cbv
  have hempty : (parse 1 "$\x7bsum(a=)\x7d").toOption.isSome = false := by decide +kernel
  have hlimit : openings "pay $\x7bsum(a , by = '$b\\'')\x7d$$".toList ≤ 1 := by decide +kernel
  have hlimit' : openings "$\x7bsum(a=)\x7d".toList ≤ 1 := by decide +kernel
  obtain ⟨items, hitems, hsegments⟩ := ((parse_iff_derives hlimit).1 _).mp hpay
  have hnone : ¬∃ items, Derives "$\x7bsum(a=)\x7d" items := by
    rintro ⟨items, hitems⟩
    rw [((parse_iff_derives hlimit').1 _).mpr ⟨items, hitems, rfl⟩] at hempty
    cases hempty
  exact ⟨⟨items, hitems, (congrArg Template.segments hsegments).symm⟩, hnone,
    (parse_iff_derives hlimit').2.2 hnone⟩

end Casebook.Template
