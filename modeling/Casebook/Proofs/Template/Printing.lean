import Casebook.Proofs.Template.Canonical
import Casebook.Proofs.Template.Literals
import Casebook.Proofs.Text.Blanks

/-!
# Printing templates

`Template.print` writes a template as text: a dollar in text is doubled, quotes and backslashes in
text between quotes get a backslash in front, and every placeholder is written with braces. A
canonical template that can be printed is read back from that text, but for what its arguments
remember of how they were written.

The proof builds a derivation in the grammar, by induction on the room for placeholders: with room
for one level less, the quoted texts and placeholders in arguments are read back.
-/

namespace Casebook

open Text

/-! ## Printing -/

/-- A character of text as it is printed in front of a stop. -/
def Template.printChar (stop : Template.Stop) (c : Char) : List Char :=
  if c = '$' then ['$', '$'] else if stop.escapes c then ['\\', c] else [c]

/-- The keyword of an argument as it is printed, behind which the value stands. -/
def Template.printKey : Option String → List Char
  | none => []
  | some name => name.toList ++ ['=']

namespace Segment

mutual

/-- A segment as it is printed in front of a stop. -/
def print (stop : Template.Stop) : Segment → List Char
  | text s => s.toList.flatMap (Template.printChar stop)
  | var name => '$' :: '\x7b' :: (name.toList ++ ['\x7d'])
  | call ⟨name, args⟩ => '$' :: '\x7b' :: (name.toList ++ '(' :: (printArgs args ++ [')', '\x7d']))

/-- Segments as they are printed in front of a stop. -/
def printSegments (stop : Template.Stop) : List Segment → List Char
  | [] => []
  | s :: rest => print stop s ++ printSegments stop rest

/-- The value of an argument as it is printed. -/
def printValue : Argument → List Char
  | .literal _ value _ => value.render.toList
  | .quoted _ _ body _ => '"' :: (printSegments (.quote '"') body ++ ['"'])
  | .expr _ body _ => printSegments .argument body

/-- Arguments as they are printed, with a comma and a space between two of them. -/
def printArgs : List Argument → List Char
  | [] => []
  | [a] => Template.printKey a.key ++ printValue a
  | a :: b :: rest =>
    Template.printKey a.key ++ (printValue a ++ ',' :: ' ' :: printArgs (b :: rest))

end

mutual

/-- Whether the arguments of a segment can be printed: texts between quotes, single placeholders and
literals that are read back from their rendering. -/
def Printable : Segment → Prop
  | text _ => True
  | var _ => True
  | call ⟨_, args⟩ => PrintableArgs args

/-- Whether the arguments of some segments can be printed. -/
def PrintableSegments : List Segment → Prop
  | [] => True
  | s :: rest => Printable s ∧ PrintableSegments rest

/-- Whether an argument can be printed. -/
def PrintableArg : Argument → Prop
  | .literal _ value _ => Literal.IsSimple value
  | .quoted _ _ body _ => PrintableSegments body
  | .expr _ [s] _ => s.isText = false ∧ Printable s
  | .expr _ _ _ => False

/-- Whether each of some arguments can be printed. -/
def PrintableArgs : List Argument → Prop
  | [] => True
  | a :: rest => PrintableArg a ∧ PrintableArgs rest

end

/-! ## Nesting -/

mutual

/-- How deep the braces of a segment nest once it is printed. -/
def nesting : Segment → ℕ
  | text _ => 0
  | var _ => 1
  | call ⟨_, args⟩ => nestingOfArgs args + 1

/-- How deep the braces of some segments nest. -/
def nestingOfSegments : List Segment → ℕ
  | [] => 0
  | s :: rest => max (nesting s) (nestingOfSegments rest)

/-- How deep the braces of an argument nest. -/
def nestingOfArg : Argument → ℕ
  | .literal _ _ _ => 0
  | .quoted _ _ body _ => nestingOfSegments body
  | .expr _ body _ => nestingOfSegments body

/-- How deep the braces of some arguments nest. -/
def nestingOfArgs : List Argument → ℕ
  | [] => 0
  | a :: rest => max (nestingOfArg a) (nestingOfArgs rest)

end

/-! ## What arguments remember -/

mutual

/-- A segment whose arguments forget how they were written. -/
def bare : Segment → Segment
  | text s => text s
  | var name => var name
  | call ⟨name, args⟩ => call ⟨name, bareArgs args⟩

/-- Segments whose arguments forget how they were written. -/
def bareSegments : List Segment → List Segment
  | [] => []
  | s :: rest => bare s :: bareSegments rest

/-- The keyword and the value of an argument, without the text and the quotes it was written in. -/
def bareArg : Argument → Argument
  | .literal key value _ => .literal key value ""
  | .quoted key _ body _ => .quoted key '"' (bareSegments body) ""
  | .expr key body _ => .expr key (bareSegments body) ""

/-- The keywords and values of some arguments. -/
def bareArgs : List Argument → List Argument
  | [] => []
  | a :: rest => bareArg a :: bareArgs rest

end

end Segment

namespace Template

open Segment

/-- The text that a template is printed as. -/
def print (t : Template) : String :=
  String.ofList (printSegments .never t.segments)

/-- Whether the arguments of a template can be printed. -/
def Printable (t : Template) : Prop :=
  PrintableSegments t.segments

/-- How deep the braces of a template nest once it is printed. -/
def nesting (t : Template) : ℕ :=
  nestingOfSegments t.segments

/-- A template whose arguments forget how they were written. -/
def bare (t : Template) : Template :=
  ⟨bareSegments t.segments⟩

/-! ## Pieces of segments -/

/-- The pieces that a segment is joined from. -/
def toPieces : Segment → List Piece
  | .text s => s.toList.map .char
  | s => [.placeholder s]

/-- A piece whose placeholder forgets how its arguments were written. -/
def barePiece : Piece → Piece
  | .char c => .char c
  | .placeholder s => .placeholder s.bare

theorem toPieces_of_isText {s : Segment} (h : s.isText = false) :
    toPieces s = [.placeholder s] := by
  cases s with
  | text => cases h
  | _ => rfl

theorem exists_of_isText {s : Segment} (h : s.isText = true) : ∃ text, s = .text text := by
  cases s with
  | text text => exact ⟨text, rfl⟩
  | _ => cases h

theorem consText_of_ne_nil {text : List Char} (h : text ≠ []) (segments : List Segment) :
    consText text segments = .text (String.ofList text) :: segments := by
  cases text with
  | nil => exact absurd rfl h
  | cons c text => rfl

theorem splitPieces_chars (text : List Char) (ps : List Piece) :
    splitPieces (text.map .char ++ ps) = (text ++ (splitPieces ps).1, (splitPieces ps).2) := by
  induction text with
  | nil => rfl
  | cons c text ih => simp only [List.map_cons, List.cons_append, splitPieces, ih]

/-- The characters in front of canonical segments are those of the text they begin with. -/
theorem splitPieces_toPieces {segments : List Segment} (h : CanonicalSegments segments) :
    consText (splitPieces (segments.flatMap toPieces)).1
        (splitPieces (segments.flatMap toPieces)).2 = segments ∧
      (startsWithText segments = false →
        splitPieces (segments.flatMap toPieces) = ([], segments)) := by
  induction segments with
  | nil => exact ⟨rfl, fun _ => rfl⟩
  | cons s rest ih =>
    obtain ⟨hs, hnext, hrest⟩ := h
    obtain ⟨hjoin, hsplit⟩ := ih hrest
    rw [List.flatMap_cons]
    -- No text follows a text, so its characters end where the next placeholder begins.
    by_cases htext : s.isText = true
    · obtain ⟨text, rfl⟩ := exists_of_isText htext
      have hne : text.toList ≠ [] := fun hnil => hs (String.toList_inj.mp hnil)
      refine ⟨?_, fun h => by cases h⟩
      rw [toPieces, splitPieces_chars, hsplit (hnext rfl), List.append_nil, consText_of_ne_nil hne,
        String.ofList_toList]
    · have hplaceholder : toPieces s = [.placeholder s] := toPieces_of_isText (by simpa using htext)
      rw [hplaceholder, List.singleton_append, splitPieces, hjoin]
      exact ⟨rfl, fun _ => rfl⟩

/-- Canonical segments are what their pieces are joined into. -/
theorem ofPieces_toPieces {segments : List Segment} (h : CanonicalSegments segments) :
    ofPieces (segments.flatMap toPieces) = segments :=
  (splitPieces_toPieces h).1

theorem bareSegments_consText (text : List Char) (segments : List Segment) :
    bareSegments (consText text segments) = consText text (bareSegments segments) := by
  cases text <;> rfl

theorem splitPieces_barePiece (ps : List Piece) :
    splitPieces (ps.map barePiece) = ((splitPieces ps).1, bareSegments (splitPieces ps).2) := by
  induction ps with
  | nil => rfl
  | cons p ps ih =>
    cases p with
    | char c => simp only [List.map_cons, barePiece, splitPieces, ih]
    | placeholder s =>
      simp only [List.map_cons, barePiece, splitPieces, ih, bareSegments, bareSegments_consText]

theorem bareSegments_ofPieces (ps : List Piece) :
    bareSegments (ofPieces ps) = ofPieces (ps.map barePiece) := by
  simp only [ofPieces, bareSegments_consText, splitPieces_barePiece]

/-- Pieces like those of canonical segments are joined into segments like those. -/
theorem bareSegments_ofPieces_eq {segments : List Segment} (h : CanonicalSegments segments)
    {ps : List Piece} (hps : ps.map barePiece = (segments.flatMap toPieces).map barePiece) :
    bareSegments (ofPieces ps) = bareSegments segments := by
  rw [bareSegments_ofPieces, hps, ← bareSegments_ofPieces, ofPieces_toPieces h]

end Template

end Casebook
