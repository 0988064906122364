import Casebook.Proofs.Template.Grammar

/-!
# Canonical templates

A template is canonical if its texts are as long as can be: none is empty, and none stands next to
another. Names of variables, verbs and keywords are words. Whatever the parser returns is canonical,
the texts of arguments included.

Joining pieces into segments is where texts come from, so this is proved of `ofPieces` for any
pieces first, and then for pieces that follow the rules of the grammar, by induction on the room for
placeholders.
-/

namespace Casebook

open Text

/-- A name of a variable, a verb or a keyword. -/
def Template.IsName (s : String) : Prop :=
  s ≠ "" ∧ ∀ c ∈ s.toList, isWord c = true

instance (s : String) : Decidable (Template.IsName s) :=
  decidable_of_iff (s ≠ "" ∧ s.toList.all isWord = true)
    (and_congr_right fun _ => List.all_eq_true)

/-- A keyword of an argument is a name, if there is one. -/
def Template.IsKeyword (key : Option String) : Prop :=
  ∀ name, key = some name → Template.IsName name

namespace Segment

/-- Whether segments begin with a text. -/
def startsWithText : List Segment → Bool
  | [] => false
  | s :: _ => s.isText

mutual

/-- No text in a segment is empty or next to another, and its names are words. -/
def Canonical : Segment → Prop
  | text s => s ≠ ""
  | var name => Template.IsName name
  | call ⟨name, args⟩ => Template.IsName name ∧ CanonicalArgs args

/-- No text in some segments is empty or next to another, and their names are words. -/
def CanonicalSegments : List Segment → Prop
  | [] => True
  | s :: rest =>
    Canonical s ∧ (s.isText = true → startsWithText rest = false) ∧ CanonicalSegments rest

/-- An argument has a canonical value and a keyword that is a name, if it has one. -/
def CanonicalArg : Argument → Prop
  | .literal key _ _ => Template.IsKeyword key
  | .quoted key _ body _ => Template.IsKeyword key ∧ CanonicalSegments body
  | .expr key body _ => Template.IsKeyword key ∧ CanonicalSegments body

/-- Each of some arguments is canonical. -/
def CanonicalArgs : List Argument → Prop
  | [] => True
  | a :: rest => CanonicalArg a ∧ CanonicalArgs rest

end

end Segment

namespace Template

open Segment

/-- No text in a template is empty or next to another, and its names are words. -/
def Canonical (t : Template) : Prop :=
  CanonicalSegments t.segments

theorem ofList_ne_empty {s : List Char} (h : s ≠ []) : String.ofList s ≠ "" := by
  rw [Ne, ← String.toList_inj, String.toList_ofList]
  exact h

theorem isName_ofList_iff {name : List Char} :
    IsName (String.ofList name) ↔ name ≠ [] ∧ ∀ c ∈ name, isWord c = true := by
  rw [IsName, String.toList_ofList, Ne, Ne, ← String.toList_inj, String.toList_ofList]
  rfl

theorem isName_of_word {s name rest : List Char} (h : word s = (name, rest)) (hname : name ≠ []) :
    IsName (String.ofList name) :=
  isName_ofList_iff.mpr ⟨hname, (word_eq_iff.mp h).2.1⟩

/-! ## Joining pieces -/

/-- What a piece is for is canonical. -/
def CanonicalPiece : Piece → Prop
  | .char _ => True
  | .placeholder s => s.Canonical ∧ s.isText = false

theorem canonical_consText {text : List Char} {segments : List Segment}
    (h : CanonicalSegments segments) (hstart : startsWithText segments = false) :
    CanonicalSegments (consText text segments) := by
  cases text with
  | nil => exact h
  | cons c text => exact ⟨ofList_ne_empty (List.cons_ne_nil c text), fun _ => hstart, h⟩

/-- What follows the characters in front begins with no text. -/
theorem canonical_splitPieces {ps : List Piece} (h : ∀ p ∈ ps, CanonicalPiece p) :
    CanonicalSegments (splitPieces ps).2 ∧ startsWithText (splitPieces ps).2 = false := by
  induction ps with
  | nil => exact ⟨trivial, rfl⟩
  | cons p ps ih =>
    obtain ⟨hrest, hstart⟩ := ih fun q hq => h q (List.mem_cons_of_mem p hq)
    cases p with
    | char c => exact ⟨hrest, hstart⟩
    | placeholder s =>
      obtain ⟨hs, htext⟩ := h _ List.mem_cons_self
      refine ⟨⟨hs, fun hs => ?_, canonical_consText hrest hstart⟩, htext⟩
      rw [htext] at hs
      cases hs

theorem canonical_ofPieces {ps : List Piece} (h : ∀ p ∈ ps, CanonicalPiece p) :
    CanonicalSegments (ofPieces ps) :=
  canonical_consText (canonical_splitPieces h).1 (canonical_splitPieces h).2

theorem startsWithText_trimLast {segments : List Segment} (h : startsWithText segments = false) :
    startsWithText (trimLast segments) = false := by
  fun_cases trimLast segments with
  | case1 => rfl
  | case2 => rfl
  | case3 => cases h
  | case4 => exact h

/-- Without the blanks at their end segments are still canonical. -/
theorem canonical_trimLast {segments : List Segment} (h : CanonicalSegments segments) :
    CanonicalSegments (trimLast segments) := by
  fun_induction trimLast segments with
  | case1 => trivial
  | case2 => trivial
  | case3 s hkept => exact ⟨ofList_ne_empty hkept, fun _ => rfl, trivial⟩
  | case4 s rest _ ih =>
    obtain ⟨hs, hnext, hrest⟩ := h
    exact ⟨hs, fun htext => startsWithText_trimLast (hnext htext), ih hrest⟩

theorem canonical_unquoted {key : Option String} {segments : List Segment} {source : String}
    (hkey : IsKeyword key) (h : CanonicalSegments segments) :
    CanonicalArg (unquoted key segments source) := by
  unfold unquoted
  split
  · exact hkey
  · exact ⟨hkey, h⟩

/-! ## What the parser returns -/

section Rules

variable {P : Rule Segment} {s rest : List Char}

/-- What follows the rule of placeholders is canonical, and no text. -/
def CanonicalRule (P : Rule Segment) : Prop :=
  ∀ s segment rest, P s segment rest → segment.Canonical ∧ segment.isText = false

theorem TakesPiece.canonical (hP : CanonicalRule P) {stop : Stop} {p : Piece}
    (h : TakesPiece P stop s p rest) : CanonicalPiece p := by
  cases h with
  | braces inner => exact hP _ _ _ inner
  | name word_eq ne_nil => exact ⟨isName_of_word word_eq ne_nil, rfl⟩
  | _ => trivial

theorem TakesPieces.canonical (hP : CanonicalRule P) {stop : Stop} {ps : List Piece}
    (h : TakesPieces P stop s ps rest) : ∀ p ∈ ps, CanonicalPiece p := by
  induction h with
  | done => simp
  | more _ first _ ih =>
    intro p hp
    rcases List.mem_cons.mp hp with rfl | hp
    · exact first.canonical hP
    · exact ih p hp

theorem TakesValue.canonical (hP : CanonicalRule P) {key : Option String} (hkey : IsKeyword key)
    {a : Argument} (h : TakesValue P key s a rest) : CanonicalArg a := by
  cases h with
  | quoted _ body => exact ⟨hkey, canonical_ofPieces (body.canonical hP)⟩
  | unquoted _ body =>
    exact canonical_unquoted hkey (canonical_trimLast (canonical_ofPieces (body.canonical hP)))

theorem isKeyword_keyword (s : List Char) : IsKeyword (keyword s).1 := by
  intro name hname
  unfold keyword at hname
  split at hname
  · next h =>
    cases hname
    obtain ⟨w, mid, hword, hw, -, -, rfl⟩ := keyword?_eq_some_iff.mp h
    exact isName_of_word hword hw
  · cases hname

theorem TakesArgument.canonical (hP : CanonicalRule P) {a : Argument}
    (h : TakesArgument P s a rest) : CanonicalArg a :=
  TakesValue.canonical hP (isKeyword_keyword _) h

theorem TakesMore.canonical (hP : CanonicalRule P) {args : List Argument}
    (h : TakesMore P s args rest) : CanonicalArgs args := by
  induction h with
  | last first => exact ⟨first.canonical hP, trivial⟩
  | more first _ _ ih => exact ⟨first.canonical hP, ih⟩

theorem TakesArguments.canonical (hP : CanonicalRule P) {args : List Argument}
    (h : TakesArguments P s args rest) : CanonicalArgs args := by
  cases h with
  | none => trivial
  | some _ all => exact all.canonical hP

theorem TakesName.canonical (hP : CanonicalRule P) {segment : Segment}
    (h : TakesName P s segment rest) : segment.Canonical ∧ segment.isText = false := by
  cases h with
  | var word_eq ne_nil => exact ⟨isName_of_word word_eq ne_nil, rfl⟩
  | call word_eq ne_nil _ all => exact ⟨⟨isName_of_word word_eq ne_nil, all.canonical hP⟩, rfl⟩

end Rules

/-- The induction is on the room for placeholders. -/
theorem canonicalRule_takesPlaceholder (room : ℕ) : CanonicalRule (TakesPlaceholder room) := by
  induction room with
  | zero => exact fun _ _ _ h => h.elim
  | succ room ih =>
    intro s segment rest h'
    obtain ⟨mid, h, -⟩ := h'
    exact h.canonical ih

/-- Whatever the parser returns is canonical. -/
theorem canonical_of_parse {limit : ℕ} {text : String} {t : Template}
    (h : parse limit text = .ok t) : t.Canonical := by
  obtain ⟨ps, hps, rfl⟩ := parse_eq_ok.mp h
  exact canonical_ofPieces (hps.canonical (canonicalRule_takesPlaceholder limit))

end Template

end Casebook
