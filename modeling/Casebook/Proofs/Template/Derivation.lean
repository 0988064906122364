import Casebook.Proofs.Template.Calls

/-!
# Derivations

The grammar of templates apart from how it is read. A derivation is a tree of everything that is
written, blanks included; its leaves from left to right are the text. `Derives text items` says that
the items are a derivation of a text with longest match: no item could have been another one that
takes more of the text, and no keyword is read as text.

Longest match is a condition on neighbours, so whether an item fits depends on what follows it, and
of that on the first character alone.
-/

namespace Casebook.Template

open Text

/-- A text of nothing but blanks. -/
abbrev AreBlanks (s : List Char) : Prop :=
  ∀ c ∈ s, isBlank c = true

/-- A text that is a word. -/
structure IsWordText (s : List Char) : Prop where
  ne_nil : s ≠ []
  isWord : ∀ c ∈ s, isWord c = true

/-! ## Trees -/

/-- A keyword as it is written, up to its equals sign. -/
structure Keyword where
  before : List Char
  name : List Char
  gap : List Char

mutual

/-- A part of the text of a template. -/
inductive Item where
  /-- A character that stands for itself. -/
  | char (c : Char)
  /-- A backslash that is dropped, and the character behind it. -/
  | escaped (c : Char)
  /-- Two dollars. -/
  | dollars
  /-- A dollar and a name. -/
  | name (name : List Char)
  /-- A dollar and a placeholder in braces. -/
  | braces (inner : Inner)

/-- What is written behind `${`, up to and including the closing brace. -/
inductive Inner where
  | var (before name after : List Char)
  | call (before name gap : List Char) (arguments : Arguments) (after : List Char)

/-- What is written behind an opening parenthesis, up to and including the closing one. -/
inductive Arguments where
  | none (blanks : List Char)
  | some (first : WrittenArgument) (more : List WrittenArgument)

/-- An argument between what separates it from others. -/
structure WrittenArgument where
  key : Option Keyword
  before : List Char
  content : Content
  after : List Char

/-- The value of an argument, with its quotes if it has any. -/
inductive Content where
  | quoted (quote : Char) (body : List Item)
  | unquoted (body : List Item)

end

/-! ## The text of a tree -/

/-- The text of a keyword. -/
def Keyword.text (k : Keyword) : List Char :=
  k.before ++ (k.name ++ (k.gap ++ ['=']))

mutual

/-- The text of an item. -/
def Item.text : Item → List Char
  | .char c => [c]
  | .escaped c => ['\\', c]
  | .dollars => ['$', '$']
  | .name name => '$' :: name
  | .braces inner => '$' :: '\x7b' :: inner.text

/-- The text of each item, in order. -/
def textOfItems : List Item → List Char
  | [] => []
  | i :: items => i.text ++ textOfItems items

/-- The text of what stands behind `${`. -/
def Inner.text : Inner → List Char
  | .var before name after => before ++ (name ++ (after ++ ['\x7d']))
  | .call before name gap arguments after =>
    before ++ (name ++ (gap ++ '(' :: (arguments.text ++ (after ++ ['\x7d']))))

/-- The text of arguments, with the closing parenthesis. -/
def Arguments.text : Arguments → List Char
  | .none blanks => blanks ++ [')']
  | .some first more => first.text ++ textOfMore more

/-- The text of an argument. -/
def WrittenArgument.text : WrittenArgument → List Char
  | ⟨key, before, content, after⟩ =>
    (key.elim [] Keyword.text) ++ (before ++ (content.text ++ after))

/-- The text of further arguments, each behind a comma, with the closing parenthesis. -/
def textOfMore : List WrittenArgument → List Char
  | [] => [')']
  | a :: more => ',' :: (a.text ++ textOfMore more)

/-- The text of a value. -/
def Content.text : Content → List Char
  | .quoted quote body => quote :: (textOfItems body ++ [quote])
  | .unquoted body => textOfItems body

end

/-! ## What a tree stands for -/

mutual

/-- The piece that an item is. -/
def Item.piece : Item → Piece
  | .char c => .char c
  | .escaped c => .char c
  | .dollars => .char '$'
  | .name name => .placeholder (.var (String.ofList name))
  | .braces inner => .placeholder inner.segment

/-- The piece that each item is, in order. -/
def piecesOfItems : List Item → List Piece
  | [] => []
  | i :: items => i.piece :: piecesOfItems items

/-- The variable or the call that stands in braces. -/
def Inner.segment : Inner → Segment
  | .var _ name _ => .var (String.ofList name)
  | .call _ name _ arguments _ => .call ⟨String.ofList name, arguments.values⟩

/-- The arguments of a call. -/
def Arguments.values : Arguments → List Argument
  | .none _ => []
  | .some first more => first.value :: valuesOfMore more

/-- An argument that is written. -/
def WrittenArgument.value : WrittenArgument → Argument
  | ⟨key, _, content, _⟩ => content.argument (key.map fun k => String.ofList k.name)

/-- The further arguments of a call. -/
def valuesOfMore : List WrittenArgument → List Argument
  | [] => []
  | a :: more => a.value :: valuesOfMore more

/-- The argument that a value is under a keyword. -/
def Content.argument (key : Option String) : Content → Argument
  | .quoted quote body =>
    .quoted key quote (ofPieces (piecesOfItems body)) (String.ofList (textOfItems body))
  | .unquoted body =>
    unquoted key (ofPieces (piecesOfItems body)) (String.ofList (textOfItems body))

end

/-- The segments that items stand for. -/
def segmentsOfItems (items : List Item) : List Segment :=
  ofPieces (piecesOfItems items)

/-! ## Longest match -/

/-- A text that begins with a word and an equals sign that is not doubled. -/
def BeginsWithKeyword (s : List Char) : Prop :=
  ∃ name gap rest, s = name ++ (gap ++ '=' :: rest) ∧ IsWordText name ∧ AreBlanks gap ∧
    rest.head? ≠ some '='

/-- A keyword of which nothing could be read in another way. -/
structure Keyword.Fits (k : Keyword) : Prop where
  before : AreBlanks k.before
  name : IsWordText k.name
  gap : AreBlanks k.gap

mutual

/-- An item in front of a text is the longest that could be read there. -/
def Item.Fits (stop : Stop) (follow : List Char) : Item → Prop
  | .char c =>
    (c = '\\' → ∀ x, follow.head? = some x → stop.escapes x = false) ∧
      (c = '$' → Detached follow)
  | .escaped c => stop.escapes c = true
  | .dollars => True
  | .name name => IsWordText name ∧ Ends isWord follow
  | .braces inner => inner.Fits

/-- Items in front of a text fit, and none of them begins where the text of a template ends. -/
def FitsItems (stop : Stop) (follow : List Char) : List Item → Prop
  | [] => True
  | i :: items =>
    (∀ c, i.text.head? = some c → stop.endsAt c = false) ∧
      i.Fits stop (textOfItems items ++ follow) ∧ FitsItems stop follow items

/-- A name between blanks, and what a call has in its parentheses. -/
def Inner.Fits : Inner → Prop
  | .var before name after => AreBlanks before ∧ IsWordText name ∧ AreBlanks after
  | .call before name gap arguments after =>
    AreBlanks before ∧ IsWordText name ∧ AreBlanks gap ∧ arguments.Fits ∧ AreBlanks after

/-- Every argument fits. -/
def Arguments.Fits : Arguments → Prop
  | .none blanks => AreBlanks blanks
  | .some first more => first.Fits ∧ FitsMore more

/-- What could be a keyword is one, and its equals sign is not doubled. -/
def WrittenArgument.Fits : WrittenArgument → Prop
  | ⟨key, before, content, after⟩ =>
    AreBlanks before ∧ content.Fits ∧ AreBlanks after ∧
      match key with
      | none => ¬BeginsWithKeyword content.text
      | some k => k.Fits ∧ (before ++ content.text).head? ≠ some '='

/-- Every further argument fits. -/
def FitsMore : List WrittenArgument → Prop
  | [] => True
  | a :: more => a.Fits ∧ FitsMore more

/-- A value that begins with a quote is quoted. The blanks around a value are no part of it, and
without them it is not empty. -/
def Content.Fits : Content → Prop
  | .quoted quote body =>
    (quote = '"' ∨ quote = '\'') ∧ FitsItems (.quote quote) [quote] body
  | .unquoted body =>
    body ≠ [] ∧
      (∀ c, (textOfItems body).head? = some c → isBlank c = false ∧ ¬(c = '"' ∨ c = '\'')) ∧
      (∀ c, body.getLast? = some (.char c) → isBlank c = false) ∧ FitsItems .argument [] body

end

/-- Items are a derivation of a text in the grammar of templates, read with longest match. -/
def Derives (text : String) (items : List Item) : Prop :=
  textOfItems items = text.toList ∧ FitsItems .never [] items

/-! ## Lists of items -/

section

variable {stop : Stop} {follow follow' : List Char} {items more : List Item}

theorem textOfItems_append (items more : List Item) :
    textOfItems (items ++ more) = textOfItems items ++ textOfItems more := by
  induction items with
  | nil => rfl
  | cons i items ih => rw [List.cons_append, textOfItems, textOfItems, ih, List.append_assoc]

theorem piecesOfItems_append (items more : List Item) :
    piecesOfItems (items ++ more) = piecesOfItems items ++ piecesOfItems more := by
  induction items with
  | nil => rfl
  | cons i items ih => rw [List.cons_append, piecesOfItems, piecesOfItems, ih, List.cons_append]

@[simp] theorem textOfItems_chars (text : List Char) :
    textOfItems (text.map .char) = text := by
  induction text with
  | nil => rfl
  | cons c text ih => rw [List.map_cons, textOfItems, ih, Item.text, List.singleton_append]

@[simp] theorem piecesOfItems_chars (text : List Char) :
    piecesOfItems (text.map .char) = text.map .char := by
  induction text with
  | nil => rfl
  | cons c text ih => rw [List.map_cons, piecesOfItems, ih, Item.piece, List.map_cons]

theorem fitsItems_append :
    FitsItems stop follow (items ++ more) ↔
      FitsItems stop (textOfItems more ++ follow) items ∧ FitsItems stop follow more := by
  induction items with
  | nil => simp [FitsItems]
  | cons i items ih =>
    rw [List.cons_append, FitsItems, FitsItems, ih, textOfItems_append, List.append_assoc]
    simp only [and_assoc]

/-- An item is some text. -/
theorem Item.exists_text_eq_cons {i : Item} : ∃ c s, i.text = c :: s := by
  cases i <;> exact ⟨_, _, rfl⟩

/-- Where an item is read depends on what follows only as far as a stop can tell. -/
theorem Item.Fits.alike {i : Item} (h : i.Fits stop follow) (halike : stop.Alike follow follow') :
    i.Fits stop follow' := by
  cases i with
  | char c =>
    obtain ⟨hbackslash, hdollar⟩ := h
    rcases halike with hhead | ⟨hdetached, hplain⟩
    · exact ⟨by rwa [hhead], fun hc x hx => hdollar hc x (hhead ▸ hx)⟩
    · exact ⟨fun _ x _ => hplain x, fun _ => hdetached⟩
  | name name =>
    refine ⟨h.1, ?_⟩
    rcases halike with hhead | ⟨hdetached, -⟩
    · exact fun x hx => h.2 x (hhead ▸ hx)
    · exact fun x hx => (hdetached x hx).2.2
  | escaped | dollars | braces => exact h

theorem FitsItems.alike (h : FitsItems stop follow items) (halike : stop.Alike follow follow') :
    FitsItems stop follow' items := by
  induction items with
  | nil => trivial
  | cons i items ih =>
    obtain ⟨hstart, hi, hitems⟩ := h
    exact ⟨hstart, hi.alike (halike.append _), ih hitems⟩

/-- Characters that mean nothing fit in front of any text. -/
theorem fitsItems_inert (hstop : stop.IsUsual) {text : List Char} (htext : ∀ c ∈ text, Inert c)
    (follow : List Char) : FitsItems stop follow (text.map .char) := by
  induction text with
  | nil => trivial
  | cons c text ih =>
    have hc := htext c List.mem_cons_self
    refine ⟨fun x hx => ?_, ⟨fun h => absurd h hc.ne_backslash, fun h => absurd h hc.ne_dollar⟩,
      ih fun x hx => htext x (List.mem_cons_of_mem c hx)⟩
    obtain rfl : c = x := Option.some.inj hx
    exact hstop.inert hc

/-- The items of an argument fit with blanks behind them, in front of what ends the argument. -/
theorem FitsItems.append_blanks (h : FitsItems .argument [] items) {blanks rest : List Char}
    (hblanks : AreBlanks blanks) {c : Char} (hc : c = ',' ∨ c = ')') :
    FitsItems .argument (c :: rest) (items ++ blanks.map .char) := by
  have hdetached : Detached (blanks ++ c :: rest) :=
    detached_append hblanks (detached_of_closes hc rest)
  refine fitsItems_append.mpr ⟨h.alike (.inr ⟨?_, Stop.isPlain_argument⟩),
    fitsItems_inert isUsual_argument (fun x hx => inert_of_isBlank (hblanks x hx)) _⟩
  rwa [textOfItems_chars]

end

/-! ## Openings -/

/-- The number of times that `${` stands in a text. -/
def openings : List Char → ℕ
  | [] => 0
  | c :: s => (if c = '$' ∧ s.head? = some '\x7b' then 1 else 0) + openings s

theorem openings_le_of_suffix {s t : List Char} (h : s <:+ t) : openings s ≤ openings t := by
  obtain ⟨u, rfl⟩ := h
  induction u with
  | nil => exact Nat.le_refl _
  | cons c u ih =>
    rw [List.cons_append, openings]
    omega

theorem openings_le_append (s u : List Char) : openings s ≤ openings (s ++ u) := by
  induction s with
  | nil => exact Nat.zero_le _
  | cons c s ih =>
    rw [List.cons_append, openings, openings]
    -- What is in front of the end of a text stays in front of more.
    have hhead : s.head? = some '\x7b' → (s ++ u).head? = some '\x7b' := by
      intro hs
      obtain ⟨t, rfl⟩ := List.head?_eq_some_iff.mp hs
      rfl
    split
    · next h => rw [if_pos ⟨h.1, hhead h.2⟩]; omega
    · omega

theorem openings_mono {s t : List Char} (h : s <:+: t) : openings s ≤ openings t := by
  obtain ⟨u, v, rfl⟩ := h
  rw [List.append_assoc]
  exact Nat.le_trans (openings_le_append s v)
    (openings_le_of_suffix (List.suffix_append u _))

theorem openings_braces (s : List Char) : openings ('$' :: '\x7b' :: s) = openings s + 1 := by
  simp [openings, Nat.add_comm]

end Casebook.Template
