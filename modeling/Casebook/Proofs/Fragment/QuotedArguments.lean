import Casebook.Proofs.Fragment.WholeArguments
import Casebook.Proofs.Template.FilledCalls
import Mathlib

/-!
# Parameters between quotes

A parameter between quotes is replaced by the text of an argument without the quotes it was passed
in. That is done in the text, so the arguments of a call are the same again only if what is put in
fits between the quotes: it does if it was passed in quotes of the same kind, or if it has no dollar
and each such quote in it stands behind a backslash. Under the conditions of `Argument.Suits` the
call has the same name and its arguments the same keywords as before, at every depth.
-/

namespace Casebook

open Text Template Segment Substitution

section

variable {h : FragmentHead} {r : Reference} {mapping : Dict Substitution}

/-- What a parameter is replaced by in an argument list is the text of an argument. -/
theorem exists_rereads_of_bind {kind : FragmentKind} {limit : ℕ} {reference : String}
    (hreference : Reference.parse kind limit reference = .ok r) (hbind : h.bind r = .ok mapping)
    {more : ℕ} (hmore : limit ≤ more) (n : String) (sub : Substitution)
    (hget : mapping.get? n = some sub) :
    ∃ a : Argument, sub.literal = a.raw ∧ Rereads (TakesPlaceholder more) a := by
  obtain ⟨a, hzip, rfl⟩ := FragmentHead.exists_of_get?_bind hbind hget
  have ha := FragmentHead.rereads_of_parse hreference a (List.of_mem_zip hzip).2
  exact ⟨a, rfl, ha.mono hmore⟩

/-- A text that a reference has in quotes of one kind fits between them again. -/
theorem fits_of_rereads {limit : ℕ} {key : Option String} {q : Char} {body : List Segment}
    {source : String} (ha : Rereads (TakesPlaceholder limit) (.quoted key q body source)) :
    Fits limit q source.toList := by
  obtain ⟨mid, hvalue, -⟩ := ha.value none (.inr rfl) []
  generalize (Argument.quoted key q body source).raw.toList ++ ')' :: [] = s at hvalue
  generalize hquoted : (Argument.quoted key q body source).withKey none = a at hvalue
  cases hvalue with
  | quoted _ inner =>
    cases hquoted
    obtain ⟨u, rfl, hu⟩ := inner.frame (isFramed_takesPlaceholder limit)
    rw [taken_append, String.toList_ofList]
    exact fits_iff.mpr ⟨_, hu [q] rfl⟩
  | unquoted =>
    unfold Template.unquoted at hquoted
    split at hquoted <;> cases hquoted

/-- A text without dollars fits between quotes if each quote of their kind is behind a backslash. -/
theorem fits_of_staysInside {q : Char} (hq : q = '"' ∨ q = '\'') {s : List Char} (hdollar : '$' ∉ s)
    (hinside : staysInside q s = true) (depth : ℕ) : Fits depth q s := by
  obtain ⟨ps, hps⟩ := exists_takesPieces_inside hq hdollar hinside
  exact fits_iff.mpr ⟨ps, hps []⟩

/-- A call is a call again once parameters are replaced, if its arguments are suited. -/
theorem Template.IsCallText.refilled {limit depth more : ℕ} (hdepth : depth ≤ more)
    (hrereads : ∀ n sub, mapping.get? n = some sub →
      ∃ a : Argument, sub.literal = a.raw ∧ Rereads (TakesPlaceholder more) a)
    {text : String} {c : Call} (h : IsCallText limit text.toList c)
    (hsuits : ∀ a ∈ nestedInArgs c.args, a.Suits mapping depth)
    (hhidden : Part.kept ['\\', '$'] ∉ parts text.toList) :
    ∃ c', IsCallText (limit + more) (apply mapping text).toList c' ∧ c'.name = c.name ∧
      c'.args.map Argument.key = c.args.map Argument.key := by
  have hrefills := refills_takesPlaceholder hdepth hrereads limit
  have houtside : Delimited [] := nofun
  -- Blanks at the end are copied.
  have hend {rest : List Char} (hrest : ∀ x ∈ rest, isBlank x = true) :
      filled mapping [] rest = rest := by
    have hfilled := (copies_blanks houtside hrest).filled mapping []
    rwa [filled_nil, List.append_nil] at hfilled
  generalize htext : text.toList = t at h hhidden
  cases h with
  | @braces before s rest c before_blank inner rest_blank =>
    have hcall : bareCall? (before ++ '$' :: '\x7b' :: s) = none := by
      unfold bareCall?
      rw [skipBlanks_append_of_ends before_blank (ends_cons.mpr (by decide)),
        word_cons_of_not (by decide)]
    have happly := toList_apply_of_not_call mapping (htext ▸ hcall)
    have hbefore := copies_blanks houtside before_blank
    have hbegun : begun [] = [] := rfl
    rw [parts, hcall] at hhidden
    obtain ⟨s', c', hfilled, hcall', hname, hkeys, -⟩ :=
      hrefills.call inner houtside hsuits (Unhidden.drop hhidden hbefore)
    rw [htext, hbefore.filled, hfilled] at happly
    rw [hbegun, hend rest_blank] at hcall'
    rw [happly]
    exact ⟨c', .braces before_blank hcall' rest_blank, hname, hkeys⟩
  | @bare before name after s rest args before_blank name_word ne_nil after_blank all rest_blank =>
    have happly := toList_apply_of_call mapping before_blank name_word ne_nil after_blank htext
    rw [parts_of_call before_blank name_word ne_nil after_blank] at hhidden
    have hhidden' : Unhidden [.arguments true] s :=
      fun hmem => hhidden (List.mem_cons_of_mem _ hmem)
    obtain ⟨-, args', hargs', hkeys⟩ := all.refilled hrefills hsuits hhidden'
    rw [hend rest_blank] at hargs'
    rw [happly]
    exact ⟨⟨String.ofList name, args'⟩,
      .bare before_blank name_word ne_nil after_blank hargs' rest_blank, rfl, hkeys⟩

end

/-! ## Examples -/

/-- The parameters of `say(p, k)` for the reference `say("a \"b\", c", me)`. -/
def sayMapping : Dict Substitution :=
  [("k", ⟨"me", "me"⟩), ("p", ⟨"a \\\"b\\\", c", "\"a \\\"b\\\", c\""⟩)]

end Casebook
