import Casebook.Proofs.Template.Renaming
import Mathlib.Data.List.Basic

/-!
# Cutting a text into parts

What the scanner that replaces parameters cuts off a text depends on the scopes it is in, but only
so far: `Cuts s part rest` lists what may be cut off any text, and each text is cut into such parts
to its end. Of the scopes nothing else is needed. Two cuts are not as the parser reads: a backslash
may be cut off together with the character behind it, which may be a dollar, and the next cut then
begins in the middle of what the parser reads as one.
-/

namespace Casebook.Substitution

open Text Template

/-- A part as it is written. -/
def Part.written : Part → List Char
  | .kept s => s
  | .occurrence written _ _ => written

/-- A part that may be cut off a text, and the text behind it. -/
inductive Cuts : List Char → Part → List Char → Prop where
  | dollars {rest : List Char} : Cuts ('$' :: '$' :: rest) (.kept ['$', '$']) rest
  | occurrence {name written s rest : List Char} {inArguments : Bool}
      (refers : Refers name written rest) (eq : s = written ++ rest) :
      Cuts s (.occurrence written (String.ofList name) inArguments) rest
  /-- A dollar that refers to nothing, and perhaps the name of the verb behind it. -/
  | dollar {s text rest : List Char} (inert : ∀ c ∈ text, Inert c)
      (ne_dollar : (text ++ rest).head? ≠ some '$')
      (lone : ∀ name written after, written ++ after = '$' :: (text ++ rest) →
        ¬Refers name written after)
      (eq : s = '$' :: (text ++ rest)) : Cuts s (.kept ('$' :: text)) rest
  /-- A backslash and what it keeps from being looked at. -/
  | escaped {x : Char} {rest : List Char} : Cuts ('\\' :: x :: rest) (.kept ['\\', x]) rest
  | char {c : Char} {rest : List Char} (ne_dollar : c ≠ '$') : Cuts (c :: rest) (.kept [c]) rest

/-- A text is cut into parts to its end. -/
inductive CutInto : List Char → List Part → Prop where
  | nil : CutInto [] []
  | cons {s rest : List Char} {part : Part} {parts : List Part} (first : Cuts s part rest)
      (others : CutInto rest parts) : CutInto s (part :: parts)

section

variable {s rest : List Char} {part : Part} {parts : List Part}

/-- A part is as it is written. -/
theorem Cuts.written_append (h : Cuts s part rest) : part.written ++ rest = s := by
  cases h with
  | dollars => rfl
  | occurrence _ eq => exact eq.symm
  | dollar _ _ _ eq => exact eq.symm
  | escaped => rfl
  | char => rfl

/-- A part is not empty. -/
theorem Cuts.length_lt (h : Cuts s part rest) : rest.length < s.length := by
  have hlength := congrArg List.length h.written_append
  have hpos : 0 < part.written.length := by
    cases h with
    | occurrence refers => cases refers <;> exact Nat.succ_pos _
    | _ => exact Nat.succ_pos _
  rw [List.length_append] at hlength
  omega

/-- Parts are written one behind another as the text. -/
theorem CutInto.flatMap_written (h : CutInto s parts) : parts.flatMap Part.written = s := by
  induction h with
  | nil => rfl
  | cons first _ ih => rw [List.flatMap_cons, ih, first.written_append]

end

/-! ## The cuts of the scanner -/

theorem upTo_append (written rest : List Char) : upTo (written ++ rest) rest = written := by
  rw [upTo, List.length_append, Nat.add_sub_cancel, List.take_left']
  rfl

/-- What stands in front of the arguments of a call means nothing. -/
theorem exists_inert_of_call {s name mid rest : List Char}
    (hword : word (skipBlanks s) = (name, mid)) (hskip : skipBlanks mid = '(' :: rest) :
    ∃ text, s = text ++ rest ∧ ∀ c ∈ text, Inert c := by
  obtain ⟨before, after, hs, hbefore, hname, hafter⟩ := exists_eq_append_word s
  rw [hword] at hs hname
  rw [hskip] at hs
  refine ⟨before ++ (name ++ (after ++ ['('])), by rw [hs]; simp, ?_⟩
  exact inert_of_mem_append hbefore hname hafter (by decide)

theorem exists_inert_of_bareCall {s rest : List Char} (h : bareCall? s = some rest) :
    ∃ text, s = text ++ rest ∧ ∀ c ∈ text, Inert c := by
  unfold bareCall? at h
  split at h
  · cases h
  next name mid _ hword =>
  split at h
  · next hskip =>
    cases h
    exact exists_inert_of_call hword hskip
  · cases h

section

variable {s rest : List Char}

/-- A dollar in front of a text that begins no reference is cut off alone. -/
theorem cuts_lone (hlone : ∀ x, s.head? = some x → x ≠ '$' ∧ x ≠ '\x7b' ∧ isWord x = false) :
    Cuts ('$' :: s) (.kept ['$']) s :=
  .dollar (by simp) (fun hs => (hlone _ hs).1 rfl) (not_refers_of_lone hlone) rfl

/-- A name in braces is cut off with its dollar. -/
theorem cuts_name {name : List Char} (h : braced s = .name name rest) (inArguments : Bool) :
    Cuts ('$' :: '\x7b' :: s)
      (.occurrence (upTo ('$' :: '\x7b' :: s) rest) (String.ofList name) inArguments) rest := by
  obtain ⟨written, hrefers, heq⟩ := exists_refers_of_braced h
  rw [← heq, upTo_append]
  exact .occurrence hrefers rfl

/-- What begins a call is cut off up to its opening parenthesis. -/
theorem cuts_call (h : braced s = .call rest) :
    Cuts ('$' :: '\x7b' :: s) (.kept (upTo ('$' :: '\x7b' :: s) rest)) rest := by
  obtain ⟨name, mid, hword, hskip⟩ := exists_of_braced_call h
  obtain ⟨text, rfl, htext⟩ := exists_inert_of_call hword hskip
  have hne (name rest' : List Char) : braced (text ++ rest) ≠ .name name rest' := by
    rw [h]
    nofun
  -- All that is cut off behind the dollar means nothing, and no name in braces begins there.
  have hupTo := upTo_append ('$' :: '\x7b' :: text) rest
  rw [List.cons_append, List.cons_append] at hupTo
  rw [hupTo]
  refine .dollar ?_ (by simp) (not_refers_of_braced hne) rfl
  intro c hc
  rcases List.mem_cons.mp hc with rfl | hc
  · decide
  · exact htext c hc

/-- A brace that begins neither is cut off with its dollar. -/
theorem cuts_other (h : braced s = .other) : Cuts ('$' :: '\x7b' :: s) (.kept ['$', '\x7b']) s := by
  have hne (name rest' : List Char) : braced s ≠ .name name rest' := by
    rw [h]
    nofun
  have hinert : ∀ c ∈ ['\x7b'], Inert c := by
    intro c hc
    rw [List.mem_singleton.mp hc]
    decide
  exact .dollar hinert (by simp) (not_refers_of_braced hne) rfl

end

/-- Whatever the scopes are, a text is cut into parts. The induction follows the scanner. -/
theorem cutInto_partsIn (scopes : List Scope) (s : List Char) : CutInto s (partsIn scopes s) := by
  fun_induction partsIn scopes s with
  | case1 => exact .nil
  | case2 => exact .cons (cuts_lone (by simp)) .nil
  | case3 _ _ ih => exact .cons .dollars ih
  | case4 _ _ _ _ hbraced _ _ ih => exact .cons (cuts_name hbraced _) ih
  | case5 _ _ _ hbraced _ _ ih => exact .cons (cuts_call hbraced) ih
  | case6 _ _ hbraced _ ih => exact .cons (cuts_other hbraced) ih
  | case7 _ x after _ _ hx _ ih =>
    have hname : (word (x :: after)).1 ≠ [] := by simp [word, hx]
    have heq : '$' :: x :: after = '$' :: (word (x :: after)).1 ++ (word (x :: after)).2 :=
      congrArg _ (word_append (x :: after)).symm
    exact .cons (.occurrence (refers_of_word rfl hname) heq) ih
  | case8 _ x after hdollar hbrace hx ih =>
    refine .cons (cuts_lone fun c hc => ?_) ih
    obtain rfl := Option.some.inj hc
    exact ⟨hdollar, hbrace, by simpa using hx⟩
  | case9 _ c hc => exact .cons (.char hc) .nil
  | case10 _ c hc hescapes x after ih =>
    obtain ⟨rfl, -⟩ := hescapes
    exact .cons .escaped ih
  | case11 _ c after hc _ ih => exact .cons (.char hc) ih

/-- The parts of a text are written one behind another as the text. -/
theorem flatMap_written_parts (s : List Char) : (parts s).flatMap Part.written = s := by
  unfold parts
  cases hcall : bareCall? s with
  | none => exact (cutInto_partsIn [] s).flatMap_written
  | some rest =>
    obtain ⟨text, rfl, -⟩ := exists_inert_of_bareCall hcall
    have hrest := (cutInto_partsIn [.arguments true] rest).flatMap_written
    simp only [upTo_append, List.flatMap_cons, hrest]
    rfl

/-- Every character of a part is one of the text. -/
theorem mem_of_mem_parts {s : List Char} {part : Part} (h : part ∈ parts s) {c : Char}
    (hc : c ∈ part.written) : c ∈ s := by
  rw [← flatMap_written_parts s]
  exact List.mem_flatMap.mpr ⟨part, h, hc⟩

/-! ## Occurrences -/

/-- A name occurs in a text, where it is replaced if it is a parameter. -/
def Occurs (name text : String) : Prop :=
  ∃ written inArguments, Part.occurrence written name inArguments ∈ parts text.toList

theorem CutInto.exists_refers {s : List Char} {parts : List Part} (h : CutInto s parts)
    {written : List Char} {name : String} {inArguments : Bool}
    (hmem : .occurrence written name inArguments ∈ parts) :
    ∃ before rest, s = before ++ (written ++ rest) ∧ Refers name.toList written rest := by
  induction h with
  | nil => cases hmem
  | @cons s rest part parts first _ ih =>
    rcases List.mem_cons.mp hmem with rfl | hmem
    · cases first with
      | occurrence refers eq => exact ⟨[], rest, eq, by rwa [String.toList_ofList]⟩
    · obtain ⟨before, behind, rfl, hrefers⟩ := ih hmem
      exact ⟨part.written ++ before, behind, by rw [List.append_assoc, first.written_append], hrefers⟩

/-- Where a name occurs, the text refers to it: by a dollar in front of it, or in braces. -/
theorem Occurs.exists_refers {name text : String} (h : Occurs name text) :
    ∃ before written rest, text.toList = before ++ (written ++ rest) ∧
      Refers name.toList written rest := by
  obtain ⟨written, inArguments, hmem⟩ := h
  unfold parts at hmem
  cases hcall : bareCall? text.toList with
  | none =>
    rw [hcall] at hmem
    obtain ⟨before, rest, heq, hrefers⟩ := (cutInto_partsIn [] _).exists_refers hmem
    exact ⟨before, written, rest, heq, hrefers⟩
  | some rest =>
    rw [hcall] at hmem
    obtain ⟨front, hfront, -⟩ := exists_inert_of_bareCall hcall
    obtain ⟨before, behind, rfl, hrefers⟩ :=
      (cutInto_partsIn [.arguments true] rest).exists_refers
        ((List.mem_cons.mp hmem).resolve_left nofun)
    exact ⟨front ++ before, written, behind, by rw [hfront, List.append_assoc], hrefers⟩

/-- A text in which no parameter occurs stays as it is. -/
theorem apply_eq_self (mapping : Dict Substitution) {text : String}
    (h : ∀ name, Occurs name text → mapping.get? name = none) : apply mapping text = text := by
  have hreplace : (parts text.toList).flatMap (Part.replace mapping) =
      (parts text.toList).flatMap Part.written := by
    refine List.flatMap_congr fun part hpart => ?_
    cases part with
    | kept s => rfl
    | occurrence written name inArguments =>
      rw [Part.replace, h name ⟨written, inArguments, hpart⟩]
      rfl
  rw [apply, hreplace, flatMap_written_parts, String.ofList_toList]

/-! ## Texts without a dollar -/

/-- A text without a dollar stays as it is. -/
theorem CutInto.of_not_mem (mapping : Dict Substitution) {s : List Char} {parts : List Part}
    (h : CutInto s parts) (hs : '$' ∉ s) :
    parts.flatMap (Part.replace mapping) = s ∧ ∀ w n i, Part.occurrence w n i ∉ parts := by
  induction h with
  | nil => exact ⟨rfl, by simp⟩
  | @cons s rest part parts first _ ih =>
    have hwritten := first.written_append
    have hdollar : '$' ∉ part.written ++ rest := hwritten ▸ hs
    obtain ⟨hreplace, hnone⟩ := ih fun hmem => hdollar (List.mem_append_right _ hmem)
    have hkept : ∃ t, part = .kept t := by
      cases part with
      | kept t => exact ⟨t, rfl⟩
      | occurrence written n i =>
        cases first with
        | occurrence refers =>
          have hhead := refers.head? rest
          exact absurd (List.mem_of_head? hhead) hdollar
    obtain ⟨t, rfl⟩ := hkept
    refine ⟨?_, fun w n i hmem => ?_⟩
    · rw [List.flatMap_cons, hreplace, ← hwritten]
      rfl
    · rcases List.mem_cons.mp hmem with heq | hmem
      · cases heq
      · exact hnone w n i hmem

/-- What has no dollar has no parameter. -/
theorem apply_of_not_mem (mapping : Dict Substitution) {text : String} (h : '$' ∉ text.toList) :
    apply mapping text = text := by
  refine apply_eq_self mapping fun name hoccurs => ?_
  obtain ⟨before, written, rest, htext, hrefers⟩ := hoccurs.exists_refers
  rw [htext] at h
  have hdollar : '$' ∈ written ++ rest := List.mem_of_head? (hrefers.head? rest)
  exact absurd (List.mem_append_right _ hdollar) h

end Casebook.Substitution
