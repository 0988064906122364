import Casebook.Proofs.Fragment.Binding
import Casebook.Proofs.Template.Cutting
import Casebook.Proofs.Template.PlainText
import Mathlib

/-!
# Parameters in fields

Outside of argument lists a parameter is replaced by the text of its argument as it was written
between the quotes, and that text is read again when the field is evaluated. What the argument
denotes for a verb is the same text with the backslashes dropped that stand in front of a quote or
of another backslash, and with each two dollars as one. In a field only the dollars are read again,
so the two agree exactly if there is no backslash to drop, if a dollar at the end of the text does
not begin a placeholder with what follows it, and if the scanner takes the parameter for one outside
of argument lists.
-/

namespace Casebook

open Text Template Segment Substitution Casebook.Computation

/-! ## Texts between quotes -/

/-- Whether no backslash of a text is dropped between quotes. -/
def keepsBackslashes (q : Char) : List Char → Bool
  | '\\' :: x :: s => x ≠ q && x ≠ '\\' && keepsBackslashes q (x :: s)
  | _ :: s => keepsBackslashes q s
  | [] => true

section

variable {s : List Char} {c q : Char}

theorem keepsBackslashes_cons (hc : c ≠ '\\') (s : List Char) :
    keepsBackslashes q (c :: s) = keepsBackslashes q s := by
  rw [keepsBackslashes]
  intro x s' hbackslash
  exact absurd hbackslash hc

/-- What follows a text without a dollar is read with it, unless a dollar stands between. -/
theorem undollar_append {b : List Char} (hb : '$' ∉ b) (s : List Char) :
    undollar (s ++ b) = undollar s ++ b := by
  have hplain := (isPlain_of_not_mem hb).2
  fun_induction undollar s with
  | case1 s ih => exact congrArg (List.cons '$') ih
  | case2 c s hdollars ih =>
    by_cases hc : c = '$'
    · subst hc
      have hhead : (s ++ b).head? ≠ some '$' := by
        cases s with
        | nil =>
          intro hhead
          exact hb (List.mem_of_head? hhead)
        | cons x s =>
          intro hhead
          exact hdollars s rfl (by rw [Option.some.inj hhead])
      rw [List.cons_append, undollar_lone hhead, ih, List.cons_append]
    · rw [List.cons_append, undollar_cons hc, ih, List.cons_append]
  | case3 => exact hplain

/-- Two texts behind one another are plain if they are, and the first leaves no dollar to what the
second begins with. -/
theorem isPlain_append_iff {b : List Char} (hb : '$' ∉ b) (s : List Char) :
    isPlain (s ++ b) = true ↔ isPlain s = true ∧ (endsInDollar s = true →
      ∀ x, b.head? = some x → x ≠ '\x7b' ∧ isWord x = false) := by
  have hplain := (isPlain_of_not_mem hb).1
  fun_induction endsInDollar s with
  | case1 =>
    have hhead : b.head? ≠ some '$' := fun hhead => hb (List.mem_of_head? hhead)
    rw [List.cons_append, List.nil_append, isPlain_lone hhead, hplain, Bool.and_true]
    cases b with
    | nil => simp [isPlain]
    | cons x b => simp [isPlain]
  | case2 s ih => exact ih
  | case3 c s hnil hdollars ih =>
    by_cases hc : c = '$'
    · subst hc
      obtain ⟨x, s, rfl⟩ : ∃ x s', s = x :: s' :=
        List.exists_cons_of_ne_nil fun h => hnil rfl h
      have hx : x ≠ '$' := fun hx => hdollars s rfl (by rw [hx])
      have hlone (t : List Char) : isPlain ('$' :: x :: t) =
          ((decide (x ≠ '\x7b') && !isWord x) && isPlain (x :: t)) :=
        isPlain_lone (s := x :: t) fun hhead => hx (Option.some.inj hhead)
      rw [List.cons_append, List.cons_append, hlone, hlone]
      simp only [Bool.and_eq_true, and_assoc]
      exact and_congr_right fun _ => and_congr_right fun _ => ih
    · rw [List.cons_append, isPlain_cons hc, isPlain_cons hc]
      exact ih
  | case4 => simp [hplain, isPlain]

/-- A text between quotes that is read without placeholders, and what it is read as: two dollars are
one of them, and the backslashes that are dropped make it shorter. -/
structure ReadsAs (q : Char) (source text : List Char) : Prop where
  isPlain : isPlain source = true
  length_le : text.length ≤ (undollar source).length
  undollar_eq_iff : undollar source = text ↔ keepsBackslashes q source = true

namespace ReadsAs

variable {source text longer : List Char} {x : Char}

theorem nil : ReadsAs q [] [] where
  isPlain := rfl
  length_le := Nat.le_refl _
  undollar_eq_iff := by simp [undollar, keepsBackslashes]

/-- A character may be written in front of the text. -/
theorem cons (h : ReadsAs q source text)
    (hplain : Template.isPlain longer = Template.isPlain source)
    (hundollar : undollar longer = x :: undollar source)
    (hkeeps : keepsBackslashes q longer = keepsBackslashes q source) :
    ReadsAs q longer (x :: text) where
  isPlain := hplain.trans h.isPlain
  length_le := by
    rw [hundollar]
    exact Nat.succ_le_succ h.length_le
  undollar_eq_iff := by
    rw [hundollar, hkeeps, List.cons_eq_cons, h.undollar_eq_iff]
    simp

/-- A backslash that is dropped is missing in what is read. -/
theorem escaped (h : ReadsAs q source text) (hq : q ≠ '$') (hx : x = q ∨ x = '\\') :
    ReadsAs q ('\\' :: x :: source) (x :: text) := by
  have hdollar : x ≠ '$' := by
    rcases hx with rfl | rfl
    · exact hq
    · decide
  have hkeeps : keepsBackslashes q ('\\' :: x :: source) = false := by
    rcases hx with rfl | rfl <;> simp [keepsBackslashes]
  have hundollar : undollar ('\\' :: x :: source) = '\\' :: x :: undollar source := by
    rw [undollar_cons (by decide), undollar_cons hdollar]
  have hlength := h.length_le
  constructor
  · rw [isPlain_cons (by decide), isPlain_cons hdollar]
    exact h.isPlain
  · simp only [hundollar, List.length_cons]
    omega
  · rw [hundollar, hkeeps]
    refine iff_of_false (fun heq => ?_) (by simp)
    have hlengths := congrArg List.length heq
    simp only [List.length_cons] at hlengths
    omega

/-- A text between its quotes is longer than what it is read as. -/
theorem ne_quoted (h : ReadsAs q source text) (hq : q ≠ '$') {a b : List Char} (hb : '$' ∉ b) :
    a ++ text ++ b ≠ a ++ undollar (q :: (source ++ [q]) ++ b) := by
  have hquoted : '$' ∉ q :: b := by
    rw [List.mem_cons, not_or]
    exact ⟨hq.symm, hb⟩
  have hbehind : q :: (source ++ [q]) ++ b = q :: (source ++ q :: b) := by simp
  have hlength := h.length_le
  rw [hbehind, undollar_cons hq, undollar_append hquoted]
  intro heq
  have hlengths := congrArg List.length heq
  simp only [List.length_append, List.length_cons] at hlengths
  omega

end ReadsAs

/-- A piece of one character is written in front of what the text behind it is read as. -/
theorem readsAs_of_takesPiece {P : Rule Segment} (hdollar : q ≠ '$')
    {source rest text last : List Char} {x : Char} (h : ReadsAs q rest text)
    (first : TakesPiece P (.quote q) (c :: (source ++ q :: last)) (.char x) (rest ++ q :: last)) :
    ReadsAs q (c :: source) (x :: text) := by
  generalize hall : source ++ q :: last = all at first
  generalize hmid : rest ++ q :: last = mid at first
  -- What is in front of the closing quote is the piece and what follows it.
  have hfront {w : List Char} (hw : all = w ++ mid) : source = w ++ rest := by
    rw [← hall, ← hmid, ← List.append_assoc] at hw
    exact List.append_cancel_right hw
  cases first with
  | escaped escapes =>
    obtain rfl : source = [x] ++ rest := hfront rfl
    exact h.escaped hdollar (by simpa [Stop.escapes] using escapes)
  | backslash plain =>
    obtain rfl : source = [] ++ rest := hfront rfl
    subst hall
    have hkeeps : keepsBackslashes q ('\\' :: source) = keepsBackslashes q source := by
      cases source with
      | nil => rfl
      | cons y source =>
        have hy : ¬(y = q ∨ y = '\\') := by simpa [Stop.escapes] using plain y rfl
        rw [not_or] at hy
        simp [keepsBackslashes, hy]
    exact h.cons (isPlain_cons (by decide) _) (undollar_cons (by decide) _) hkeeps
  | dollars =>
    obtain rfl : source = ['$'] ++ rest := hfront rfl
    have hkeeps : keepsBackslashes q ('$' :: '$' :: rest) = keepsBackslashes q rest :=
      (keepsBackslashes_cons (by decide) _).trans (keepsBackslashes_cons (by decide) _)
    exact h.cons (isPlain.eq_1 rest) (undollar.eq_1 rest) hkeeps
  | dollar lone =>
    obtain rfl : source = [] ++ rest := hfront rfl
    subst hall
    have hnext (y : Char) (hy : source.head? = some y) :
        y ≠ '$' ∧ y ≠ '\x7b' ∧ isWord y = false := by
      obtain ⟨s, rfl⟩ := List.head?_eq_some_iff.mp hy
      exact lone y rfl
    have hhead : source.head? ≠ some '$' := fun hhead => (hnext '$' hhead).1 rfl
    have hall : (source.head?.all fun c => c ≠ '\x7b' && !isWord c) = true := by
      cases source with
      | nil => rfl
      | cons y source => simpa using (hnext y rfl).2
    have hplain : isPlain ('$' :: source) = isPlain source := by
      rw [isPlain_lone hhead, hall, Bool.true_and]
    exact h.cons hplain (undollar_lone hhead) (keepsBackslashes_cons (by decide) _)
  | char ne_backslash ne_dollar =>
    obtain rfl : source = [] ++ rest := hfront rfl
    exact h.cons (isPlain_cons ne_dollar _) (undollar_cons ne_dollar _)
      (keepsBackslashes_cons ne_backslash _)

/-- Between quotes a text is read as the text itself if it is read without placeholders, two dollars
as one, but for the backslashes that are dropped. -/
theorem readsAs_of_takesPieces {room : ℕ} (hq : q = '"' ∨ q = '\'') {source text last : List Char}
    (h : TakesPieces (TakesPlaceholder room) (.quote q) (source ++ q :: last) (text.map .char)
      (q :: last)) :
    ReadsAs q source text := by
  have hdollar : q ≠ '$' := by rcases hq with rfl | rfl <;> decide
  generalize hs : source ++ q :: last = s at h
  generalize hps : text.map Piece.char = ps at h
  generalize hrest : q :: last = rest at h
  induction h generalizing source text with
  | done =>
    subst hrest
    obtain rfl : source = [] := by simpa using hs
    rw [List.map_eq_nil_iff.mp hps]
    exact .nil
  | @more c t mid rest p ps goes_on first others ih =>
    subst hrest
    obtain ⟨x, text, rfl, rfl, hmore⟩ := List.map_eq_cons_iff.mp hps
    obtain ⟨u, rfl, -⟩ := others.frame (isFramed_takesPlaceholder room)
    cases source with
    | nil =>
      -- The text does not end here, because it goes on with no quote.
      obtain rfl : q = c := (List.cons.inj hs).1
      simp [Stop.endsAt] at goes_on
    | cons y source =>
      obtain ⟨rfl, rfl⟩ := List.cons.inj hs
      exact readsAs_of_takesPiece hdollar (ih rfl hmore rfl) first

end

/-! ## A parameter in a field -/

section

variable {mapping : Dict Substitution} {s a b : List Char} {parts : List Part} {name : List Char}

/-- The parts of a field with one placeholder: either the scanner finds it, in an argument list or
not, or it finds nothing. -/
def FieldParts (mapping : Dict Substitution) (a b name : List Char) (parts : List Part) : Prop :=
  (∃ inArguments, (∀ i, (∃ w, Part.occurrence w (String.ofList name) i ∈ parts) ↔ i = inArguments) ∧
    ∀ sub, mapping.get? (String.ofList name) = some sub →
      parts.flatMap (Part.replace mapping) = a ++ ((sub.form inArguments).toList ++ b)) ∨
  ((∀ w i, Part.occurrence w (String.ofList name) i ∉ parts) ∧
    parts.flatMap (Part.replace mapping) = a ++ ('$' :: '\x7b' :: (name ++ ['\x7d']) ++ b))

theorem FieldParts.kept (h : FieldParts mapping a b name parts) (t : List Char) :
    FieldParts mapping (t ++ a) b name (.kept t :: parts) := by
  rcases h with ⟨inArguments, hoccurs, hreplace⟩ | ⟨hnone, hreplace⟩
  · refine .inl ⟨inArguments, fun i => ?_, fun sub hsub => ?_⟩
    · rw [← hoccurs i]
      simp
    · rw [List.flatMap_cons, hreplace sub hsub, List.append_assoc]
      rfl
  · refine .inr ⟨fun w i => ?_, ?_⟩
    · simpa using hnone w i
    · rw [List.flatMap_cons, hreplace, List.append_assoc]
      rfl

/-- A placeholder that a field begins with is found. -/
theorem Substitution.CutInto.fieldParts_nil (hname : ∀ c ∈ name, isWord c = true) (hb : '$' ∉ b)
    (h : CutInto s parts) (hs : s = '$' :: '\x7b' :: (name ++ ['\x7d']) ++ b) :
    FieldParts mapping [] b name parts := by
  have hnone : ∀ c ∈ ([] : List Char), isBlank c = true := by simp
  have hrefers : Refers name ('$' :: '\x7b' :: (name ++ ['\x7d'])) b := .braces hnone hname hnone
  cases h with
  | nil => cases hs
  | cons first others =>
    cases first with
    | dollars => exact absurd (List.cons.inj (List.cons.inj hs).2).1 (by decide)
    | @occurrence name' written _ _ inArguments refers eq =>
      -- The placeholder refers to its name and to no other.
      obtain ⟨rfl, rfl⟩ := refers.unique hrefers (eq.symm.trans hs)
      obtain ⟨hreplace, hno⟩ := others.of_not_mem mapping hb
      refine .inl ⟨inArguments, fun i => ⟨fun hmem => ?_, fun hi => ?_⟩, fun sub hsub => ?_⟩
      · obtain ⟨w, hmem⟩ := hmem
        rcases List.mem_cons.mp hmem with heq | hmem
        · cases heq
          rfl
        · exact absurd hmem (hno w _ i)
      · exact ⟨written, hi ▸ List.mem_cons_self⟩
      · rw [List.flatMap_cons, hreplace, Part.replace, hsub, List.nil_append]
    | dollar _ _ lone eq => exact absurd hrefers (lone _ _ _ (hs.symm.trans eq))
    | escaped => exact absurd (List.cons.inj hs).1 (by decide)
    | char ne_dollar => exact absurd (List.cons.inj hs).1 ne_dollar

/-- However a field is cut, its placeholder is found, or a backslash in front of it hides it. -/
theorem Substitution.CutInto.fieldParts (hname : ∀ c ∈ name, isWord c = true) (ha : '$' ∉ a)
    (hb : '$' ∉ b) (h : CutInto s parts)
    (hs : s = a ++ ('$' :: '\x7b' :: (name ++ ['\x7d']) ++ b)) :
    FieldParts mapping a b name parts := by
  have hbehind : '$' ∉ '\x7b' :: (name ++ ['\x7d']) ++ b := by
    intro hmem
    simp only [List.mem_append, List.mem_cons, List.not_mem_nil, or_false] at hmem
    rcases hmem with (hbrace | hmem | hbrace) | hmem
    · exact absurd hbrace (by decide)
    · exact absurd (hname '$' hmem) (by decide)
    · exact absurd hbrace (by decide)
    · exact hb hmem
  induction h generalizing a with
  | nil => cases a <;> cases hs
  | @cons s rest part parts first others ih =>
    cases a with
    | nil => exact (CutInto.cons first others).fieldParts_nil hname hb hs
    | cons c a =>
      obtain ⟨hc, ha'⟩ : c ≠ '$' ∧ '$' ∉ a := by
        rw [List.mem_cons, not_or] at ha
        exact ⟨Ne.symm ha.1, ha.2⟩
      cases first with
      | dollars => exact absurd (List.cons.inj hs).1.symm hc
      | occurrence refers eq =>
        have hhead := congrArg List.head? (hs.symm.trans eq)
        rw [refers.head?] at hhead
        exact absurd (Option.some.inj hhead) hc
      | dollar _ _ _ eq => exact absurd (List.cons.inj (hs.symm.trans eq)).1 hc
      | @escaped x _ =>
        obtain ⟨rfl, hmore⟩ := List.cons.inj hs
        cases a with
        | nil =>
          -- The backslash keeps the dollar from being looked at.
          obtain ⟨rfl, rfl⟩ := List.cons.inj hmore
          obtain ⟨hreplace, hno⟩ := others.of_not_mem mapping hbehind
          refine .inr ⟨fun w i => ?_, ?_⟩
          · simpa using hno w _ i
          · rw [List.flatMap_cons, hreplace]
            rfl
        | cons y a =>
          obtain ⟨rfl, hrest⟩ := List.cons.inj hmore
          exact (ih (fun hmem => ha' (List.mem_cons_of_mem _ hmem)) hrest).kept ['\\', x]
      | char =>
        obtain ⟨rfl, hrest⟩ := List.cons.inj hs
        exact (ih ha' hrest).kept [_]

theorem fieldParts_parts (mapping : Dict Substitution) (hname : ∀ c ∈ name, isWord c = true)
    (ha : '$' ∉ a) (hb : '$' ∉ b) :
    FieldParts mapping a b name
      (Substitution.parts (a ++ ('$' :: '\x7b' :: (name ++ ['\x7d']) ++ b))) := by
  unfold Substitution.parts
  split
  · next rest hcall =>
    -- The name of the call in front means nothing, so the placeholder stands behind it.
    obtain ⟨front, hfront, hinert⟩ := exists_inert_of_bareCall hcall
    have hdollar : '$' ∉ front := fun hmem => hinert '$' hmem (by decide)
    obtain ⟨a', rfl, rfl⟩ : ∃ a', a = front ++ a' ∧
        rest = a' ++ ('$' :: '\x7b' :: (name ++ ['\x7d']) ++ b) := by
      rcases List.append_eq_append_iff.mp hfront with ⟨t, rfl, ht⟩ | ⟨t, rfl, ht⟩
      · cases t with
        | nil => exact ⟨[], by simp, by simpa using ht.symm⟩
        | cons x t =>
          obtain rfl : '$' = x := (List.cons.inj ht).1
          simp at hdollar
      · exact ⟨t, rfl, ht⟩
    rw [List.append_assoc, upTo_append]
    exact ((cutInto_partsIn _ _).fieldParts hname (fun hmem => ha (List.mem_append_right _ hmem)) hb
      rfl).kept front
  · exact (cutInto_partsIn [] _).fieldParts hname ha hb rfl

/-- A field with one placeholder for a parameter: the parameter is replaced by one of its forms, or
nothing is replaced. -/
theorem field_cases (mapping : Dict Substitution) {p a b : String}
    (hname : ∀ c ∈ p.toList, isWord c = true) (ha : '$' ∉ a.toList) (hb : '$' ∉ b.toList) :
    (∃ inArguments,
      (∀ i, (∃ w, Part.occurrence w p i ∈
        Substitution.parts (a ++ "$\x7b" ++ p ++ "\x7d" ++ b).toList) ↔ i = inArguments) ∧
      ∀ sub, mapping.get? p = some sub →
        (apply mapping (a ++ "$\x7b" ++ p ++ "\x7d" ++ b)).toList =
          a.toList ++ ((sub.form inArguments).toList ++ b.toList)) ∨
    ((∀ w i, Part.occurrence w p i ∉
        Substitution.parts (a ++ "$\x7b" ++ p ++ "\x7d" ++ b).toList) ∧
      (apply mapping (a ++ "$\x7b" ++ p ++ "\x7d" ++ b)).toList =
        a.toList ++ ('$' :: '\x7b' :: (p.toList ++ ['\x7d']) ++ b.toList)) := by
  have htext : (a ++ "$\x7b" ++ p ++ "\x7d" ++ b).toList =
      a.toList ++ ('$' :: '\x7b' :: (p.toList ++ ['\x7d']) ++ b.toList) := by
    simp
  have hparts := fieldParts_parts mapping hname ha hb
  rw [FieldParts, String.ofList_toList] at hparts
  rw [apply, String.toList_ofList, htext]
  exact hparts

end

/-! ## What an argument denotes -/

/-- An argument denotes a string for a verb: wherever a call with it is evaluated, the argument has
that string for its value, and nothing else changes. -/
def Argument.Denotes (a : Argument) (v : String) : Prop :=
  ∀ (rules : Rules) (fresh : String → Evaluation Value) (room depth : ℕ) (expanding : List String)
    (done : Arguments) (session : Session),
    exec (Level.argumentsAt (Level.tower rules fresh room depth) expanding [a] done) session =
      (.ok (done.add a.key (.string v)), session)

/-- An argument between quotes that has no placeholder denotes its text. -/
theorem denotes_of_isText {key : Option String} {q : Char} {body : List Segment} {source : String}
    (hbody : body.all isText = true) :
    (Argument.quoted key q body source).Denotes (plainText body) := by
  intro rules fresh room depth expanding done session
  obtain ⟨below, hlevel⟩ : ∃ below, Level.tower rules fresh room depth =
      Level.above rules fresh depth below := by
    cases room with
    | zero => exact ⟨_, rfl⟩
    | succ room => exact ⟨_, rfl⟩
  have hvalue : exec ((Level.tower rules fresh room depth).template expanding body) session =
      (.ok (.string (plainText body)), session) := by
    rw [hlevel]
    exact exec_templateOver hbody
  rw [Level.argumentsAt, exec_bind_of_ok hvalue]
  rfl

/-- An argument denotes one string. -/
theorem Argument.Denotes.unique {a : Argument} {v v' : String} (h : a.Denotes v)
    (h' : a.Denotes v') : v = v' := by
  have heq := (h ⟨[], 0⟩ (fun _ => throw (.unresolvedVariable "")) 0 0 [] Arguments.none
    ⟨Store.empty 0, []⟩).symm.trans (h' _ _ _ _ _ _ _)
  have hadd := Except.ok.inj (Prod.mk.inj heq).1
  cases hkey : a.key with
  | none => simpa [hkey, Arguments.add, Arguments.none] using hadd
  | some name => simpa [hkey, Arguments.add, Arguments.none] using hadd

/-! ## Fields and verbs -/

section

variable {h : FragmentHead} {r : Reference} {mapping : Dict Substitution}

/-- An argument between quotes that has no placeholder is read as what it denotes. -/
theorem readsAs_of_argument {kind : FragmentKind} {limit : ℕ} {reference : String}
    (hreference : Reference.parse kind limit reference = .ok r) {key : Option String} {q : Char}
    {body : List Segment} {source : String}
    (hmem : Argument.quoted key q body source ∈ r.call.args) (hbody : body.all isText = true) :
    (q = '"' ∨ q = '\'') ∧ ReadsAs q source.toList (plainText body).toList := by
  have hreread := FragmentHead.rereads_of_parse hreference _ hmem
  obtain ⟨mid, hvalue, -⟩ := hreread.value key (.inr rfl : ')' = ',' ∨ ')' = ')') []
  have hraw : (Argument.quoted key q body source).raw.toList ++ [')'] =
      q :: (source.toList ++ q :: [')']) := by simp [Argument.raw]
  rw [hraw, Argument.withKey] at hvalue
  generalize harg : Argument.quoted key q body source = arg at hvalue
  cases hvalue with
  | @quoted _ _ last ps quote hpieces =>
    obtain ⟨u, hu, -⟩ := hpieces.frame (isFramed_takesPlaceholder limit)
    rw [hu, taken_append] at harg
    obtain ⟨-, -, rfl, rfl⟩ := Argument.quoted.inj harg
    obtain ⟨text, rfl⟩ :=
      exists_chars_of_isText (hpieces.canonical (canonicalRule_takesPlaceholder limit)) hbody
    rw [String.toList_ofList] at hu hpieces ⊢
    rw [hu] at hpieces
    rw [(ofPieces_map_char text).2, String.toList_ofList]
    exact ⟨quote, readsAs_of_takesPieces quote hpieces⟩
  | unquoted no_quote =>
    unfold Template.unquoted at harg
    split at harg <;> cases harg

/-- A parameter becomes an argument between quotes, in argument lists with its quotes. -/
theorem exists_get?_of_quoted (hnodup : h.params.Nodup) (hbind : h.bind r = .ok mapping)
    {p : String} {key : Option String} {q : Char} {body : List Segment} {source : String}
    (hq : q ≠ '$') (hzip : (p, Argument.quoted key q body source) ∈ h.params.zip r.call.args) :
    ∃ sub, mapping.get? p = some sub ∧ (sub.form true).toList = q :: (source.toList ++ [q]) ∧
      (sub.form false).toList = source.toList := by
  have hget := FragmentHead.get?_bind hnodup hbind hzip
  have hquoted : (Argument.quoted key q body source).raw.toList = q :: (source.toList ++ [q]) := by
    simp [Argument.raw]
  have hraw : (Argument.quoted key q body source).raw ≠ "$" ++ p := by
    intro heq
    have hhead := congrArg (fun s => s.toList.head?) heq
    rw [hquoted, String.toList_append] at hhead
    exact hq (Option.some.inj hhead)
  rw [if_neg hraw] at hget
  exact ⟨_, hget, hquoted, rfl⟩

/-- In a field a parameter stands for what its argument denotes for a verb, in every context and
between all texts without a dollar, exactly if the scanner takes it for a parameter outside of
argument lists, no backslash of the argument is dropped, and a dollar at the end of the argument
begins no placeholder with the text behind it. -/
theorem resolveString_field_iff {location head : String}
    (hhead : FragmentHead.parse location head = .ok h) {kind : FragmentKind} {limit : ℕ}
    {reference : String} (hreference : Reference.parse kind limit reference = .ok r)
    (hbind : h.bind r = .ok mapping) {p : String} {key : Option String} {q : Char}
    {body : List Segment} {source : String}
    (hzip : (p, Argument.quoted key q body source) ∈ h.params.zip r.call.args)
    (hbody : body.all isText = true) {v : String}
    (hv : (Argument.quoted key q body source).Denotes v) {a b : String} (ha : '$' ∉ a.toList)
    (hb : '$' ∉ b.toList) :
    (∀ c : Context, (c.resolveString (apply mapping (a ++ "$\x7b" ++ p ++ "\x7d" ++ b))).1 =
        .ok (.string (a ++ v ++ b))) ↔
      (∃ written, Part.occurrence written p false ∈
        Substitution.parts (a ++ "$\x7b" ++ p ++ "\x7d" ++ b).toList) ∧
      keepsBackslashes q source.toList = true ∧
      (endsInDollar source.toList = true →
        ∀ x, b.toList.head? = some x → x ≠ '\x7b' ∧ isWord x = false) := by
  obtain ⟨hnodup, hnames⟩ := FragmentHead.params_of_parse hhead
  obtain ⟨hp, harg⟩ := List.of_mem_zip hzip
  obtain ⟨hq, hreads⟩ := readsAs_of_argument hreference harg hbody
  obtain rfl : v = plainText body := hv.unique (denotes_of_isText hbody)
  have hdollar : q ≠ '$' := by rcases hq with rfl | rfl <;> decide
  obtain ⟨sub, hget, hliteral, htextual⟩ := exists_get?_of_quoted hnodup hbind hdollar hzip
  rw [resolveString_eq_iff, String.toList_append, String.toList_append]
  rcases field_cases mapping (hnames p hp).2 ha hb with
    ⟨inArguments, hoccurs, hfield⟩ | ⟨hnone, hfield⟩
  · rw [hoccurs false, hfield sub hget]
    cases inArguments with
    | true =>
      -- With its quotes the text is longer than what it denotes.
      rw [hliteral, (isPlain_append ha _).2]
      exact iff_of_false (fun hvalue => hreads.ne_quoted hdollar hb hvalue.2.symm)
        fun hconditions => Bool.false_ne_true hconditions.1
    | false =>
      rw [htextual, (isPlain_append ha _).1, (isPlain_append ha _).2, isPlain_append_iff hb,
        undollar_append hb, List.append_assoc, List.append_cancel_left_eq,
        List.append_cancel_right_eq, hreads.undollar_eq_iff, and_iff_right hreads.isPlain,
        and_iff_right rfl, and_comm]
  · rw [hfield, (isPlain_append ha _).1]
    refine iff_of_false (fun hvalue => ?_) fun hconditions => ?_
    · exact absurd hvalue.1 (by simp [isPlain])
    · obtain ⟨⟨written, hmem⟩, -⟩ := hconditions
      exact hnone written false hmem

end

/-- A comma between the quotes is a comma of the field, as it is a comma for a verb. -/
theorem resolveString_field_comma :
    ∃ h r mapping, FragmentHead.parse "" "say($p)" = .ok h ∧
      Reference.parse .api 1 "say(\"a, b\")" = .ok r ∧ h.bind r = .ok mapping ∧
      r.call.args = [.quoted none '"' [.text "a, b"] "a, b"] ∧
      (Argument.quoted none '"' [.text "a, b"] "a, b").Denotes "a, b" ∧
      apply mapping "to $\x7bp\x7d!" = "to a, b!" ∧
      ∀ c : Context, (c.resolveString (apply mapping "to $\x7bp\x7d!")).1 =
        .ok (.string "to a, b!") := by
  have hhead : FragmentHead.parse "" "say($p)" = .ok ⟨"say", ["p"]⟩ := by cbv
  have hreference : Reference.parse .api 1 "say(\"a, b\")" =
      .ok ⟨.api, ⟨"say", [.quoted none '"' [.text "a, b"] "a, b"]⟩, "say(\"a, b\")"⟩ := by cbv
  have hbind : FragmentHead.bind ⟨"say", ["p"]⟩
      ⟨.api, ⟨"say", [.quoted none '"' [.text "a, b"] "a, b"]⟩, "say(\"a, b\")"⟩ =
      .ok [("p", ⟨"a, b", "\"a, b\""⟩)] := by cbv
  have hdenotes : (Argument.quoted none '"' [.text "a, b"] "a, b").Denotes "a, b" :=
    denotes_of_isText rfl
  have hfield := resolveString_field_iff hhead hreference hbind List.mem_cons_self rfl hdenotes
    (show '$' ∉ "to ".toList by decide) (show '$' ∉ "!".toList by decide)
  have hparts : Part.occurrence ['$', '\x7b', 'p', '\x7d'] "p" false ∈
      Substitution.parts ("to " ++ "$\x7b" ++ "p" ++ "\x7d" ++ "!").toList := by
    have hcut : Substitution.parts ("to " ++ "$\x7b" ++ "p" ++ "\x7d" ++ "!").toList =
        [.kept ['t'], .kept ['o'], .kept [' '], .occurrence ['$', '\x7b', 'p', '\x7d'] "p" false,
          .kept ['!']] := by cbv
    rw [hcut]
    simp
  exact ⟨_, _, _, hhead, hreference, hbind, rfl, hdenotes, by cbv,
    hfield.mpr ⟨⟨_, hparts⟩, by decide, by decide⟩⟩

/-- The backslashes in front of quotes are dropped for a verb, and stay in a field. -/
theorem resolveString_field_backslashes :
    ∃ h r mapping, FragmentHead.parse "" "say($p)" = .ok h ∧
      Reference.parse .api 1 "say(\"a \\\"b\\\"\")" = .ok r ∧ h.bind r = .ok mapping ∧
      r.call.args = [.quoted none '"' [.text "a \"b\""] "a \\\"b\\\""] ∧
      (Argument.quoted none '"' [.text "a \"b\""] "a \\\"b\\\"").Denotes "a \"b\"" ∧
      ((Context.ofVerbs [] 0).resolveString (apply mapping "$\x7bp\x7d")).1 =
        .ok (.string "a \\\"b\\\"") ∧
      ((Context.ofVerbs [] 0).resolveString (apply mapping "$\x7bp\x7d")).1 ≠
        .ok (.string "a \"b\"") := by
  refine ⟨⟨"say", ["p"]⟩,
    ⟨.api, ⟨"say", [.quoted none '"' [.text "a \"b\""] "a \\\"b\\\""]⟩,
      "say(\"a \\\"b\\\"\")"⟩,
    [("p", ⟨"a \\\"b\\\"", "\"a \\\"b\\\"\""⟩)], by cbv, by cbv, by cbv, rfl,
    denotes_of_isText rfl, by cbv, ?_⟩
  have hvalue : ((Context.ofVerbs [] 0).resolveString
      (apply [("p", ⟨"a \\\"b\\\"", "\"a \\\"b\\\"\""⟩)] "$\x7bp\x7d")).1 =
      .ok (.string "a \\\"b\\\"") := by cbv
  rw [hvalue]
  intro heq
  exact absurd (Value.string.inj (Except.ok.inj heq)) (by decide)

end Casebook
