import Casebook.Proofs.Template.Cutting

/-!
# What replacing parameters changes

A text is divided into pieces, and the division is the same whatever the parameters stand for. A piece
that refers to a parameter becomes one of the two forms of what the parameter is replaced by, every
other piece is copied, and nothing is looked at twice: what is put in is part of no piece.

Without a backslash in the text the pieces that refer to a name are all references of the text, but for
those that begin at the second dollar of a pair. Dollars are paired from left to right.
-/

namespace Casebook.Substitution

open Text Template

/-- A text refers to a name somewhere: by a dollar in front of it, or in braces. -/
def Mentions (text name : List Char) : Prop :=
  ∃ before written rest, text = before ++ (written ++ rest) ∧ Refers name written rest

/-- Whether a text ends in the first dollar of a pair, when dollars are paired from left to right. -/
def opensPair : List Char → Bool
  | '$' :: '$' :: rest => opensPair rest
  | ['$'] => true
  | _ :: rest => opensPair rest
  | [] => false

/-- The pieces of a text become another text. Whether a piece refers to a name depends on the pieces
behind it, as a name in front of more letters is a part of a longer name. -/
inductive Rewrites (mapping : Dict Substitution) : List (List Char) → List Char → Prop where
  | nil : Rewrites mapping [] []
  | replaced {name piece inserted out : List Char} {pieces : List (List Char)} {sub : Substitution}
      (refers : Refers name piece pieces.flatten)
      (bound : mapping.get? (String.ofList name) = some sub)
      (form : inserted = sub.text.toList ∨ inserted = sub.literal.toList)
      (more : Rewrites mapping pieces out) : Rewrites mapping (piece :: pieces) (inserted ++ out)
  | copied {piece out : List Char} {pieces : List (List Char)}
      (unbound : ∀ name, Refers name piece pieces.flatten →
        mapping.get? (String.ofList name) = none)
      (more : Rewrites mapping pieces out) : Rewrites mapping (piece :: pieces) (piece ++ out)

/-- A text is divided into pieces. If it has no backslash, no piece that refers to a name begins at the
second dollar of a pair, and every other reference is a piece. -/
structure Divides (text : List Char) (pieces : List (List Char)) : Prop where
  whole : pieces.flatten = text
  unpaired : '\\' ∉ text → ∀ before name piece after, pieces = before ++ piece :: after →
    Refers name piece after.flatten → opensPair before.flatten = false
  complete : '\\' ∉ text → ∀ before name written rest, text = before ++ (written ++ rest) →
    Refers name written rest → opensPair before = false →
      ∃ front after, pieces = front ++ written :: after ∧ front.flatten = before ∧
        after.flatten = rest

section

variable {mapping : Dict Substitution} {s rest t v : List Char} {part : Part} {parts : List Part}

/-! ## Cuts as pieces -/

theorem flatten_map_written (parts : List Part) :
    (parts.map Part.written).flatten = parts.flatMap Part.written :=
  rfl

/-- What does not begin with a dollar refers to nothing. -/
theorem not_refers_of_head? {piece : List Char} (h : piece.head? ≠ some '$') (name : List Char) :
    ¬Refers name piece rest := by
  intro hrefers
  have hhead := hrefers.head? []
  rw [List.append_nil] at hhead
  exact h hhead

theorem CutInto.rewrites (h : CutInto s parts) (mapping : Dict Substitution) :
    Rewrites mapping (parts.map Part.written) (parts.flatMap (Part.replace mapping)) := by
  induction h with
  | nil => exact .nil
  | cons first others ih =>
    rw [List.map_cons, List.flatMap_cons]
    have hrest := others.flatMap_written
    rw [← flatten_map_written] at hrest
    cases first with
    | dollars => exact .copied (fun name h => absurd rfl h.ne_dollars) ih
    | @occurrence name written _ _ inArguments refers eq =>
      rw [Part.replace]
      cases hget : mapping.get? (String.ofList name) with
      | none =>
        refine .copied (fun name' h => ?_) ih
        rw [hrest] at h
        rw [← (refers.unique h rfl).1, hget]
      | some sub =>
        refine .replaced (hrest.symm ▸ refers) hget ?_ ih
        cases inArguments
        · exact .inl rfl
        · exact .inr rfl
    | dollar inert ne_dollar lone eq =>
      refine .copied (fun name h => absurd h ?_) ih
      rw [hrest]
      exact lone name _ _ rfl
    | escaped =>
      refine .copied (fun name h => absurd h (not_refers_of_head? ?_ name)) ih
      exact fun hhead => absurd (Option.some.inj hhead) (by decide)
    | char ne_dollar =>
      refine .copied (fun name h => absurd h (not_refers_of_head? ?_ name)) ih
      exact fun hhead => ne_dollar (Option.some.inj hhead)

/-- A text is cut up in one way for all mappings. -/
theorem exists_cutInto (text : String) :
    ∃ parts, CutInto text.toList parts ∧
      ∀ mapping, (apply mapping text).toList = parts.flatMap (Part.replace mapping) := by
  cases hcall : bareCall? text.toList with
  | none =>
    refine ⟨_, cutInto_partsIn [] text.toList, fun mapping => ?_⟩
    rw [apply, String.toList_ofList, parts, hcall]
  | some rest =>
    -- The head of a call in its bare form is kept at once, so it may as well be kept bit by bit.
    obtain ⟨front, htext, hfront⟩ := exists_inert_of_bareCall hcall
    refine ⟨front.map (fun c => .kept [c]) ++ partsIn [.arguments true] rest, ?_, fun mapping => ?_⟩
    · rw [htext]
      clear htext hcall
      induction front with
      | nil => exact cutInto_partsIn _ rest
      | cons c front ih =>
        refine .cons (.char ?_) (ih fun x hx => hfront x (List.mem_cons_of_mem c hx))
        rintro rfl
        exact hfront '$' List.mem_cons_self (by decide)
    · have hcopied : (front.map fun c => Part.kept [c]).flatMap (Part.replace mapping) = front := by
        rw [List.flatMap_map]
        exact List.flatMap_singleton' front
      rw [apply, String.toList_ofList, parts, hcall]
      simp only
      rw [List.flatMap_cons, List.flatMap_append, hcopied, htext, upTo_append]
      rfl

/-! ## Pairs of dollars -/

theorem opensPair_cons {c : Char} (hc : c ≠ '$') (s : List Char) :
    opensPair (c :: s) = opensPair s := by
  rw [opensPair]
  · rintro _ rfl
    exact absurd rfl hc
  · rintro rfl
    exact absurd rfl hc

theorem opensPair_dollar_cons {c : Char} (hc : c ≠ '$') (s : List Char) :
    opensPair ('$' :: c :: s) = opensPair s := by
  rw [opensPair, opensPair_cons hc]
  · rintro _ - heq
    exact absurd (List.cons.inj heq).1 hc
  · nofun

theorem opensPair_append_of_not_mem {u : List Char} (hu : '$' ∉ u) (s : List Char) :
    opensPair (u ++ s) = opensPair s := by
  induction u with
  | nil => rfl
  | cons c u ih =>
    rw [List.mem_cons, not_or] at hu
    rw [List.cons_append, opensPair_cons (Ne.symm hu.1), ih hu.2]

theorem not_mem_of_inert {u : List Char} (hu : ∀ c ∈ u, Inert c) : '$' ∉ u :=
  fun hmem => hu '$' hmem (by decide)

/-- In a text without backslashes a part is a pair of dollars, or it has no dollar but the one it may
begin with. -/
theorem Cuts.written_cases (h : Cuts s part rest) (hs : '\\' ∉ s) :
    part.written = ['$', '$'] ∨ ∃ c inner, part.written = c :: inner ∧ '$' ∉ inner := by
  cases h with
  | dollars => exact .inl rfl
  | occurrence refers eq =>
    obtain ⟨inner, rfl, -, hinner⟩ := refers.exists_inert
    exact .inr ⟨'$', inner, rfl, not_mem_of_inert hinner⟩
  | dollar inert => exact .inr ⟨'$', _, rfl, not_mem_of_inert inert⟩
  | escaped => exact absurd List.mem_cons_self hs
  | @char c => exact .inr ⟨c, [], rfl, nofun⟩

/-- A part opens no pair in front of a later dollar. -/
theorem Cuts.opensPair_append (h : Cuts s part rest) (hs : '\\' ∉ s) (hrest : rest = v ++ t)
    (ht : t.head? = some '$') : opensPair (part.written ++ v) = opensPair v := by
  cases h with
  | dollars => rfl
  | occurrence refers eq =>
    obtain ⟨inner, rfl, hne, hinner⟩ := refers.exists_inert
    obtain ⟨c, inner, rfl⟩ := List.exists_cons_of_ne_nil hne
    have hinner' := not_mem_of_inert hinner
    rw [List.mem_cons, not_or] at hinner'
    exact (opensPair_dollar_cons (Ne.symm hinner'.1) _).trans (opensPair_append_of_not_mem hinner'.2 v)
  | @dollar _ text _ inert ne_dollar lone eq =>
    have hinert := not_mem_of_inert inert
    -- The dollar is followed by another character, of this part or of the next one.
    cases text with
    | cons c text =>
      rw [List.mem_cons, not_or] at hinert
      exact (opensPair_dollar_cons (Ne.symm hinert.1) _).trans (opensPair_append_of_not_mem hinert.2 v)
    | nil =>
      rw [List.nil_append, hrest] at ne_dollar
      cases v with
      | nil => exact absurd ht ne_dollar
      | cons c v =>
        have hc : c ≠ '$' := fun heq => ne_dollar (congrArg some heq)
        exact (opensPair_dollar_cons hc v).trans (opensPair_cons hc v).symm
  | escaped => exact absurd List.mem_cons_self hs
  | char ne_dollar => exact opensPair_cons ne_dollar v

theorem Cuts.not_mem_rest {c : Char} (h : Cuts s part rest) (hs : c ∉ s) : c ∉ rest :=
  fun hmem => hs (h.written_append ▸ List.mem_append_right _ hmem)

/-- No part that refers to a name begins at the second dollar of a pair. -/
theorem CutInto.unpaired (h : CutInto s parts) (hs : '\\' ∉ s) {before after : List (List Char)}
    {name piece : List Char} (hsplit : parts.map Part.written = before ++ piece :: after)
    (hrefers : Refers name piece after.flatten) : opensPair before.flatten = false := by
  induction h generalizing before with
  | nil => exact absurd hsplit (by simp)
  | @cons s rest part parts first others ih =>
    rw [List.map_cons] at hsplit
    cases before with
    | nil => rfl
    | cons front before =>
      have hmore : parts.map Part.written = before ++ piece :: after := (List.cons.inj hsplit).2
      obtain rfl := (List.cons.inj hsplit).1
      have hrest : rest = before.flatten ++ (piece ++ after.flatten) := by
        rw [← others.flatMap_written, ← flatten_map_written, hmore, List.flatten_append,
          List.flatten_cons]
      rw [List.flatten_cons, first.opensPair_append hs hrest (hrefers.head? _)]
      exact ih (first.not_mem_rest hs) hmore

/-- A dollar that is not the second of a pair, and not where a part begins, is in the text behind the
part. -/
theorem Cuts.exists_before (h : Cuts s part rest) (hs : '\\' ∉ s) {c : Char} {before : List Char}
    (hsplit : s = c :: before ++ t) (ht : t.head? = some '$')
    (hpair : opensPair (c :: before) = false) :
    ∃ v, c :: before = part.written ++ v ∧ rest = v ++ t := by
  rw [← h.written_append] at hsplit
  rcases h.written_cases hs with hdollars | ⟨x, inner, hwritten, hinner⟩
  · rw [hdollars] at hsplit ⊢
    obtain ⟨rfl, hmore⟩ := List.cons.inj hsplit
    cases before with
    | nil => cases hpair
    | cons y before =>
      obtain ⟨rfl, hrest⟩ := List.cons.inj hmore
      exact ⟨before, rfl, hrest⟩
  · rw [hwritten] at hsplit ⊢
    obtain ⟨rfl, hmore⟩ := List.cons.inj hsplit
    rcases List.append_eq_append_iff.mp hmore with ⟨v, hbefore, hrest⟩ | ⟨w, rfl, ht'⟩
    · exact ⟨v, by rw [hbefore]; rfl, hrest⟩
    · cases w with
      | nil => exact ⟨[], by simp, by rw [ht']; rfl⟩
      | cons y w =>
        rw [ht'] at ht
        obtain rfl : y = '$' := Option.some.inj ht
        exact absurd (List.mem_append_right _ List.mem_cons_self) hinner

/-- A reference in front is cut off as a whole. -/
theorem Cuts.written_eq (h : Cuts s part rest) (hs : '\\' ∉ s) {name written behind : List Char}
    (hsplit : s = written ++ behind) (hrefers : Refers name written behind) :
    part.written = written ∧ rest = behind := by
  have hhead : s.head? = some '$' := hsplit ▸ hrefers.head? behind
  cases h with
  | dollars => exact absurd hsplit.symm hrefers.ne_dollars
  | occurrence refers eq =>
    obtain rfl := (refers.unique hrefers (eq.symm.trans hsplit)).2
    exact ⟨List.append_cancel_right (eq.symm.trans hsplit), rfl⟩
  | dollar inert ne_dollar lone eq =>
    exact absurd hrefers (lone _ _ _ (hsplit.symm.trans eq))
  | escaped => exact absurd List.mem_cons_self hs
  | char ne_dollar => exact absurd (Option.some.inj hhead) ne_dollar

/-- Every reference that does not begin at the second dollar of a pair is a part. -/
theorem CutInto.exists_part (h : CutInto s parts) (hs : '\\' ∉ s)
    {before name written behind : List Char} (hsplit : s = before ++ (written ++ behind))
    (hrefers : Refers name written behind) (hpair : opensPair before = false) :
    ∃ front after, parts.map Part.written = front ++ written :: after ∧ front.flatten = before ∧
      after.flatten = behind := by
  induction h generalizing before with
  | nil =>
    have hhead := hrefers.head? behind
    rw [(List.append_eq_nil_iff.mp hsplit.symm).2] at hhead
    cases hhead
  | @cons s rest part parts first others ih =>
    cases before with
    | nil =>
      have hfront : s = written ++ behind := hsplit
      obtain ⟨hwritten, rfl⟩ := first.written_eq hs hfront hrefers
      refine ⟨[], parts.map Part.written, by rw [List.map_cons, hwritten]; rfl, rfl, ?_⟩
      rw [flatten_map_written, others.flatMap_written]
    | cons c before =>
      obtain ⟨v, hbefore, hrest⟩ := first.exists_before hs hsplit (hrefers.head? _) hpair
      rw [hbefore, first.opensPair_append hs hrest (hrefers.head? _)] at hpair
      obtain ⟨front, after, hparts, hfront, hafter⟩ := ih (first.not_mem_rest hs) hrest hpair
      refine ⟨part.written :: front, after, by rw [List.map_cons, hparts]; rfl, ?_, hafter⟩
      rw [List.flatten_cons, hfront, hbefore]

theorem CutInto.divides (h : CutInto s parts) : Divides s (parts.map Part.written) where
  whole := h.flatMap_written
  unpaired hs _ _ _ _ := h.unpaired hs
  complete hs _ _ _ _ := h.exists_part hs

end

/-- Replacing parameters changes nothing but references to them, and each once. A text has a division
into consecutive pieces that does not depend on the parameters: for any mapping the pieces that refer
to a parameter become its text or its literal form, and all others are copied in their order. In a text
without backslashes these are exactly the references that do not begin at the second dollar of a pair.
A text that mentions no parameter stays as it is. -/
theorem apply_rewrites_references (text : String) :
    ∃ pieces, Divides text.toList pieces ∧ ∀ mapping,
      Rewrites mapping pieces (apply mapping text).toList ∧
      ((∀ name, Mentions text.toList name → mapping.get? (String.ofList name) = none) →
        apply mapping text = text) := by
  obtain ⟨parts, hcut, happly⟩ := exists_cutInto text
  refine ⟨parts.map Part.written, hcut.divides, fun mapping => ?_⟩
  refine ⟨happly mapping ▸ hcut.rewrites mapping, fun hnone => ?_⟩
  refine apply_eq_self mapping fun name hoccurs => ?_
  have hmentions : Mentions text.toList name.toList := hoccurs.exists_refers
  have hunbound := hnone name.toList hmentions
  rwa [String.ofList_toList] at hunbound

/-- What is put in may refer to a parameter, and stays as it is. -/
example :
    apply [("p", ⟨"$q", "'$q'"⟩), ("q", plain "x")]
        "$p, $$p, $\x7b p \x7d, $\x7bf($p)\x7d, $pq" =
      "$q, $$p, $q, $\x7bf('$q')\x7d, $pq" := by
  cbv

end Casebook.Substitution
