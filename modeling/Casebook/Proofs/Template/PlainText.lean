import Casebook.Context.Evaluation
import Casebook.Proofs.Template.Canonical
import Casebook.Proofs.Template.Printing

/-!
# Texts without placeholders

A text in which no dollar begins a placeholder is read as text alone, with each two dollars as one.
Evaluating it in a context gives that text and changes nothing. In a context without variables and
verbs nothing else has a value: a text that has one there is a text without placeholders.
-/

namespace Casebook.Template

open Text Segment Casebook.Computation

/-- A text with each two dollars as one. -/
def undollar : List Char → List Char
  | '$' :: '$' :: s => '$' :: undollar s
  | c :: s => c :: undollar s
  | [] => []

/-- Whether no dollar of a text begins a placeholder. -/
def isPlain : List Char → Bool
  | '$' :: '$' :: s => isPlain s
  | '$' :: c :: s => c ≠ '\x7b' && !isWord c && isPlain (c :: s)
  | _ :: s => isPlain s
  | [] => true

/-- Whether a text ends in a dollar that is not the second of two. -/
def endsInDollar : List Char → Bool
  | '$' :: [] => true
  | '$' :: '$' :: s => endsInDollar s
  | _ :: s => endsInDollar s
  | [] => false

section

variable {s : List Char} {c : Char}

theorem undollar_cons (hc : c ≠ '$') (s : List Char) : undollar (c :: s) = c :: undollar s := by
  rw [undollar]
  intro s' hdollar
  exact absurd hdollar hc

theorem undollar_lone (hs : s.head? ≠ some '$') : undollar ('$' :: s) = '$' :: undollar s := by
  rw [undollar]
  intro s' _ heq
  exact absurd (by rw [heq]; rfl) hs

theorem isPlain_cons (hc : c ≠ '$') (s : List Char) : isPlain (c :: s) = isPlain s := by
  rw [isPlain]
  · intro s' hdollar
    exact absurd hdollar hc
  · intro c' s' hdollar
    exact absurd hdollar hc

theorem isPlain_lone (hs : s.head? ≠ some '$') :
    isPlain ('$' :: s) =
      ((s.head?.all fun c => c ≠ '\x7b' && !isWord c) && isPlain s) := by
  cases s with
  | nil => rfl
  | cons c s =>
    rw [isPlain]
    · rfl
    · intro heq
      exact hs (by rw [heq]; rfl)

theorem endsInDollar_cons (hc : c ≠ '$') (s : List Char) :
    endsInDollar (c :: s) = endsInDollar s := by
  rw [endsInDollar]
  · intro hdollar
    exact absurd hdollar hc
  · intro s' hdollar
    exact absurd hdollar hc

theorem endsInDollar_lone {x : Char} (hx : x ≠ '$') (s : List Char) :
    endsInDollar ('$' :: x :: s) = endsInDollar (x :: s) := by
  rw [endsInDollar]
  · intro _ hnil
    cases hnil
  · intro s' _ heq
    exact absurd (List.cons.inj heq).1 hx

/-- Behind a character that is no dollar nothing in front of it matters. -/
theorem endsInDollar_append_cons (hc : c ≠ '$') (u s : List Char) :
    endsInDollar (u ++ c :: s) = endsInDollar s := by
  fun_induction endsInDollar u with
  | case1 => rw [List.singleton_append, endsInDollar_lone hc, endsInDollar_cons hc]
  | case2 u ih => exact ih
  | case3 x u hnil hdollars ih =>
    by_cases hx : x = '$'
    · subst hx
      obtain ⟨y, u, rfl⟩ : ∃ y u', u = y :: u' :=
        List.exists_cons_of_ne_nil fun hu => hnil rfl hu
      have hy : y ≠ '$' := fun hy => hdollars u rfl (by rw [hy])
      rw [← ih]
      exact endsInDollar_lone hy _
    · rw [← ih]
      exact endsInDollar_cons hx _
  | case4 => exact endsInDollar_cons hc s

/-- A text without a dollar is plain as it is. -/
theorem isPlain_of_not_mem (h : '$' ∉ s) : isPlain s = true ∧ undollar s = s := by
  induction s with
  | nil => exact ⟨rfl, rfl⟩
  | cons c s ih =>
    have hc : c ≠ '$' := fun hc => h (hc ▸ List.mem_cons_self)
    obtain ⟨hplain, hundollar⟩ := ih fun hmem => h (List.mem_cons_of_mem c hmem)
    rw [isPlain_cons hc, undollar_cons hc, hundollar]
    exact ⟨hplain, rfl⟩

/-- In front of a plain text more text without a dollar is plain. -/
theorem isPlain_append {text : List Char} (h : '$' ∉ text) (s : List Char) :
    isPlain (text ++ s) = isPlain s ∧ undollar (text ++ s) = text ++ undollar s := by
  induction text with
  | nil => exact ⟨rfl, rfl⟩
  | cons c text ih =>
    have hc : c ≠ '$' := fun hc => h (hc ▸ List.mem_cons_self)
    obtain ⟨hplain, hundollar⟩ := ih fun hmem => h (List.mem_cons_of_mem c hmem)
    rw [List.cons_append, isPlain_cons hc, undollar_cons hc, hplain, hundollar]
    exact ⟨rfl, rfl⟩

end

/-! ## Reading -/

section

variable {P : Rule Segment} {s rest : List Char}

/-- A plain text is read as its characters, two dollars as one. -/
theorem takesPieces_of_isPlain (h : isPlain s = true) :
    TakesPieces P .never s ((undollar s).map .char) [] := by
  fun_induction isPlain s with
  | case1 s ih =>
    rw [undollar]
    exact .more rfl .dollars (ih h)
  | case2 c s hdollar ih =>
    simp only [Bool.and_eq_true, decide_eq_true_eq, Bool.not_eq_true'] at h
    obtain ⟨⟨hbrace, hword⟩, hplain⟩ := h
    have hhead : (c :: s).head? ≠ some '$' := fun hc => hdollar (Option.some.inj hc)
    rw [undollar_lone hhead]
    refine .more rfl (.dollar fun x hx => ?_) (ih hplain)
    obtain rfl : c = x := Option.some.inj hx
    exact ⟨fun hc => hdollar hc, hbrace, hword⟩
  | case3 c s hdollars hdollar ih =>
    by_cases hc : c = '$'
    · -- Only the last character of a text is a dollar that nothing follows.
      subst hc
      cases s with
      | nil => exact .more rfl (.dollar (by simp)) (.done (by simp))
      | cons x s => exact absurd rfl (hdollar x s rfl)
    · rw [undollar_cons hc]
      by_cases hbackslash : c = '\\'
      · subst hbackslash
        exact .more rfl (.backslash fun _ _ => rfl) (ih h)
      · exact .more rfl (.char hbackslash hc) (ih h)
  | case4 => exact .done (by simp)

/-- A text that is read as characters is plain, and they are those of the text, two dollars as one.
-/
theorem isPlain_of_takesPieces {text : List Char}
    (h : TakesPieces P .never s (text.map .char) rest) :
    isPlain s = true ∧ undollar s = text := by
  generalize hps : text.map Piece.char = ps at h
  induction h generalizing text with
  | @done s ends =>
    cases s with
    | nil =>
      rw [List.map_eq_nil_iff.mp hps]
      exact ⟨rfl, rfl⟩
    | cons c s => cases ends c rfl
  | @more _ t _ _ _ _ _ first _ ih =>
    obtain ⟨x, text, rfl, hx, hmore⟩ := List.map_eq_cons_iff.mp hps
    obtain ⟨hplain, rfl⟩ := ih hmore
    cases first with
    | escaped escapes => cases escapes
    | backslash =>
      rw [isPlain_cons (by decide), undollar_cons (by decide), Piece.char.inj hx]
      exact ⟨hplain, rfl⟩
    | dollars =>
      rw [isPlain, undollar, Piece.char.inj hx]
      exact ⟨hplain, rfl⟩
    | braces => cases hx
    | name => cases hx
    | dollar lone =>
      have hs : t.head? ≠ some '$' := fun hs => (lone '$' hs).1 rfl
      rw [isPlain_lone hs, undollar_lone hs, hplain, Bool.and_true, Piece.char.inj hx]
      refine ⟨?_, rfl⟩
      cases t with
      | nil => rfl
      | cons c s => simpa using (lone c rfl).2
    | char _ ne_dollar =>
      rw [isPlain_cons ne_dollar, undollar_cons ne_dollar, Piece.char.inj hx]
      exact ⟨hplain, rfl⟩

/-- Segments that are all text come from characters. -/
theorem exists_chars_of_isText {ps : List Piece} (hps : ∀ p ∈ ps, CanonicalPiece p)
    (h : (ofPieces ps).all isText = true) : ∃ text : List Char, ps = text.map .char := by
  have hsplit : (splitPieces ps).2.all isText = true := by
    unfold ofPieces at h
    cases htext : (splitPieces ps).1 with
    | nil => simpa [htext, consText] using h
    | cons c text => simpa [htext, consText, isText] using h
  clear h
  induction ps with
  | nil => exact ⟨[], rfl⟩
  | cons p ps ih =>
    cases p with
    | char c =>
      obtain ⟨text, rfl⟩ := ih (fun q hq => hps q (List.mem_cons_of_mem _ hq)) hsplit
      exact ⟨c :: text, rfl⟩
    | placeholder segment =>
      have hsegment := (Bool.and_eq_true_iff.mp hsplit).1
      rw [(hps _ List.mem_cons_self).2] at hsegment
      cases hsegment

/-- Characters are joined into their text. -/
theorem ofPieces_map_char (text : List Char) :
    (ofPieces (text.map .char)).all isText = true ∧
      plainText (ofPieces (text.map .char)) = String.ofList text := by
  have hsplit := splitPieces_chars text []
  rw [List.append_nil] at hsplit
  rw [ofPieces, hsplit]
  simp only [splitPieces, List.append_nil]
  cases text with
  | nil => exact ⟨rfl, rfl⟩
  | cons c text =>
    refine ⟨rfl, ?_⟩
    show String.ofList (c :: text) ++ "" = String.ofList (c :: text)
    rw [String.append_empty]

end

/-! ## Evaluating -/

section

variable {rules : Rules} {fresh : String → Evaluation Value} {depth : ℕ}
  {below : Option (Unit → Level)} {expanding : List String} {session : Session}

theorem exec_textOver {segments : List Segment} (h : segments.all isText = true) :
    exec (Level.textOver rules fresh depth below expanding segments) session =
      (.ok (plainText segments), session) := by
  induction segments with
  | nil => rfl
  | cons s segments ih =>
    obtain ⟨hs, hrest⟩ := Bool.and_eq_true_iff.mp h
    obtain ⟨text, rfl⟩ := exists_of_isText hs
    have hsegment :
        exec (Level.segmentOver rules fresh depth below expanding (.text text)) session =
        (.ok (.string text), session) := rfl
    rw [Level.textOver, exec_bind_of_ok hsegment, exec_bind_of_ok (ih hrest)]
    rfl

/-- Segments that are all text have that text for their value. -/
theorem exec_templateOver {segments : List Segment} (h : segments.all isText = true) :
    exec (Level.templateOver rules fresh depth below expanding segments) session =
      (.ok (.string (plainText segments)), session) := by
  have hsole : (Template.mk segments).solePlaceholder? = none := by
    unfold solePlaceholder?
    split
    · next heq =>
      rw [show segments = _ from heq] at h
      cases h
    · next heq =>
      rw [show segments = _ from heq] at h
      cases h
    · rfl
  rw [Level.templateOver, hsole]
  simp only
  rw [exec_bind_of_ok (exec_textOver h)]
  rfl

/-- Read as a template, a plain text has its characters for a value, two dollars as one. -/
theorem exec_parsed_of_isPlain {text : String} (h : isPlain text.toList = true) :
    exec (do
      let t ← Evaluation.lift (parse rules.limit text)
      Level.templateOver rules fresh depth below expanding t.segments) session =
        (.ok (.string (String.ofList (undollar text.toList))), session) := by
  have hparse : parse rules.limit text = .ok ⟨ofPieces ((undollar text.toList).map .char)⟩ :=
    parse_eq_ok.mpr ⟨_, takesPieces_of_isPlain h, rfl⟩
  have hlift : exec (Evaluation.lift (parse rules.limit text)) session =
      (.ok ⟨ofPieces ((undollar text.toList).map .char)⟩, session) := by
    rw [hparse]
    rfl
  obtain ⟨htext, hplain⟩ := ofPieces_map_char (undollar text.toList)
  rw [exec_bind_of_ok hlift, exec_templateOver htext, hplain]

/-- A text without a dollar, which is not read as a template, has the value it would have if it
were. -/
theorem exec_stringOver_eq (text : String) :
    exec (Level.stringOver rules fresh depth below expanding text) session =
      exec (do
        let t ← Evaluation.lift (parse rules.limit text)
        Level.templateOver rules fresh depth below expanding t.segments) session := by
  rw [Level.stringOver, String.contains_char_eq]
  by_cases hmem : '$' ∈ text.toList
  · rw [if_pos (by simpa using hmem)]
  · obtain ⟨hplain, hundollar⟩ := isPlain_of_not_mem hmem
    rw [if_neg (by simpa using hmem), exec_parsed_of_isPlain hplain, hundollar,
      String.ofList_toList]
    rfl

theorem exec_stringOver {text : String} (h : isPlain text.toList = true) :
    exec (Level.stringOver rules fresh depth below expanding text) session =
      (.ok (.string (String.ofList (undollar text.toList))), session) := by
  rw [exec_stringOver_eq, exec_parsed_of_isPlain h]

end

/-- A level of a tower is a level over another one, if there is one. -/
theorem exists_tower_eq (rules : Rules) (fresh : String → Evaluation Value) (room depth : ℕ) :
    ∃ below, Level.tower rules fresh room depth = Level.above rules fresh depth below := by
  cases room with
  | zero => exact ⟨_, rfl⟩
  | succ room => exact ⟨_, rfl⟩

theorem exists_level_eq (c : Context) :
    ∃ fresh below, c.level = Level.above c.rules fresh 0 below :=
  ⟨_, exists_tower_eq c.rules _ c.limit 0⟩

/-- In every context a plain text evaluates to itself, two dollars as one, and changes nothing. -/
theorem resolveString_of_isPlain (c : Context) {text : String} (h : isPlain text.toList = true) :
    c.resolveString text = (.ok (.string (String.ofList (undollar text.toList))), c) := by
  obtain ⟨fresh, below, hlevel⟩ := exists_level_eq c
  have hexec : exec (c.level.value [] (.string text)) ⟨c.store, []⟩ =
      (.ok (.string (String.ofList (undollar text.toList))), ⟨c.store, []⟩) := by
    rw [hlevel]
    exact exec_stringOver h
  unfold exec at hexec
  rw [Context.resolveString, Context.resolveValue, Context.run, hexec]

/-! ## A context without variables and verbs -/

section

variable {rules : Rules} {fresh : String → Evaluation Value} {depth : ℕ}
  {below : Option (Unit → Level)} {expanding : List String} {session session' : Session}

/-- Without variables and verbs only text has a value. -/
theorem isText_of_exec_segmentOver (hverbs : rules.verbs = [])
    (hstore : session.store.values = []) {segment : Segment} {v : Value}
    (h : exec (Level.segmentOver rules fresh depth below expanding segment) session =
      (.ok v, session')) : segment.isText = true ∧ session' = session := by
  cases segment with
  | text s =>
    cases h
    exact ⟨rfl, rfl⟩
  | var name =>
    have hfind : session.store.find? name = none := by
      rw [Store.find?, Store.get?, hstore]
      rfl
    rw [Level.segmentOver, Level.variableOver, exec_bind_of_ok (exec_get session), hfind] at h
    cases h
  | call c =>
    have hcontains : rules.verbs.contains c.name = false := by
      rw [hverbs]
      rfl
    rw [Level.segmentOver, Level.callOver, hcontains] at h
    cases h

theorem isText_of_exec_textOver (hverbs : rules.verbs = [])
    (hstore : session.store.values = []) {segments : List Segment} {text : String}
    (h : exec (Level.textOver rules fresh depth below expanding segments) session =
      (.ok text, session')) : segments.all isText = true := by
  induction segments generalizing text session' with
  | nil => rfl
  | cons s segments ih =>
    rw [Level.textOver] at h
    obtain ⟨v, session₁, hsegment, hrest⟩ := exec_bind_eq_ok.mp h
    obtain ⟨hs, rfl⟩ := isText_of_exec_segmentOver hverbs hstore hsegment
    obtain ⟨more, session₂, hmore, -⟩ := exec_bind_eq_ok.mp hrest
    exact Bool.and_eq_true_iff.mpr ⟨hs, ih hmore⟩

theorem isText_of_exec_templateOver (hverbs : rules.verbs = [])
    (hstore : session.store.values = []) {segments : List Segment} {v : Value}
    (h : exec (Level.templateOver rules fresh depth below expanding segments) session =
      (.ok v, session')) : segments.all isText = true := by
  unfold Level.templateOver at h
  split at h
  · next s hsole =>
    obtain ⟨hs, -⟩ := isText_of_exec_segmentOver hverbs hstore h
    -- The sole placeholder of a template is no text.
    unfold solePlaceholder? at hsole
    split at hsole
    · cases hsole
      cases hs
    · cases hsole
      cases hs
    · cases hsole
  · obtain ⟨text, session₁, htext, -⟩ := exec_bind_eq_ok.mp h
    exact isText_of_exec_textOver hverbs hstore htext

end

/-- A text that has a value without variables and verbs is plain. -/
theorem isPlain_of_resolveString {clock : ℕ} {text : String} {v : Value}
    (h : ((Context.ofVerbs [] clock).resolveString text).1 = .ok v) :
    isPlain text.toList = true ∧ v = .string (String.ofList (undollar text.toList)) := by
  have hplain : isPlain text.toList = true := by
    by_cases hmem : '$' ∈ text.toList
    · obtain ⟨fresh, below, hlevel⟩ := exists_level_eq (Context.ofVerbs [] clock)
      have hexec : (exec (Level.stringOver (Context.ofVerbs [] clock).rules fresh 0 below [] text)
          ⟨Store.empty clock, []⟩).1 = .ok v := by
        rw [← h]
        show _ = (exec ((Context.ofVerbs [] clock).level.value [] (.string text)) _).1
        rw [hlevel]
        rfl
      rw [Level.stringOver, String.contains_char_eq, if_pos (by simpa using hmem)] at hexec
      obtain ⟨t, session, hparse, hvalue⟩ := exec_bind_eq_ok.mp (Prod.ext hexec rfl)
      obtain ⟨hread, rfl⟩ := Prod.mk.inj hparse
      obtain ⟨ps, hps, rfl⟩ := parse_eq_ok.mp hread
      have htext := isText_of_exec_templateOver rfl rfl hvalue
      obtain ⟨chars, rfl⟩ :=
        exists_chars_of_isText (hps.canonical (canonicalRule_takesPlaceholder _)) htext
      exact (isPlain_of_takesPieces hps).1
    · exact (isPlain_of_not_mem hmem).1
  refine ⟨hplain, ?_⟩
  rw [resolveString_of_isPlain _ hplain] at h
  exact (Except.ok.inj h).symm

/-- A text has one and the same value in all contexts exactly if it is plain. -/
theorem resolveString_eq_iff {text s : String} :
    (∀ c : Context, (c.resolveString text).1 = .ok (.string s)) ↔
      isPlain text.toList = true ∧ undollar text.toList = s.toList := by
  constructor
  · intro h
    -- Without variables and verbs only a plain text has a value.
    obtain ⟨hplain, hvalue⟩ := isPlain_of_resolveString (h (Context.ofVerbs [] 0))
    rw [Value.string.inj hvalue, String.toList_ofList]
    exact ⟨hplain, rfl⟩
  · rintro ⟨hplain, heq⟩ c
    rw [resolveString_of_isPlain c hplain, heq, String.ofList_toList]

end Casebook.Template
