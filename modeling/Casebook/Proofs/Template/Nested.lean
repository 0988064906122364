import Casebook.Proofs.Template.References

/-!
# Arguments at every depth

An argument of a call may hold calls, whose arguments may hold calls again. What is said of all
arguments of a template is said of the list of them, which is the list of its pieces: joining pieces
into segments and trimming an argument change the text between placeholders and nothing else.
-/

namespace Casebook

namespace Segment

mutual

/-- The arguments of the calls in a piece, those in arguments included. -/
def nestedArguments : Segment → List Argument
  | text _ => []
  | var _ => []
  | call ⟨_, args⟩ => nestedInArgs args

/-- The arguments of the calls in each piece, in order. -/
def nestedInSegments : List Segment → List Argument
  | [] => []
  | s :: rest => nestedArguments s ++ nestedInSegments rest

/-- An argument and the arguments in it. -/
def nestedInArg : Argument → List Argument
  | .literal key value source => [.literal key value source]
  | .quoted key delimiter body source => .quoted key delimiter body source :: nestedInSegments body
  | .expr key body source => .expr key body source :: nestedInSegments body

/-- The arguments of a list and the arguments in them, in order. -/
def nestedInArgs : List Argument → List Argument
  | [] => []
  | a :: rest => nestedInArg a ++ nestedInArgs rest

end

end Segment

namespace Template

open Segment

/-- The arguments of the calls in a template, at every depth. -/
def nestedArguments (t : Template) : List Argument :=
  nestedInSegments t.segments

/-- The arguments in a placeholder. -/
def Piece.nestedArguments : Piece → List Argument
  | .char _ => []
  | .placeholder s => s.nestedArguments

theorem mem_nestedInArg_self (a : Argument) : a ∈ nestedInArg a := by
  cases a <;> exact List.mem_cons_self

theorem nestedInSegments_consText (text : List Char) (segments : List Segment) :
    nestedInSegments (consText text segments) = nestedInSegments segments := by
  cases text <;> rfl

theorem nestedInSegments_ofPieces (ps : List Piece) :
    nestedInSegments (ofPieces ps) = ps.flatMap Piece.nestedArguments := by
  rw [ofPieces, nestedInSegments_consText]
  induction ps with
  | nil => rfl
  | cons p ps ih =>
    cases p with
    | char c => exact ih
    | placeholder s =>
      rw [splitPieces, nestedInSegments, nestedInSegments_consText, ih]
      rfl

theorem nestedInSegments_trimLast (segments : List Segment) :
    nestedInSegments (trimLast segments) = nestedInSegments segments := by
  fun_induction trimLast segments with
  | case1 => rfl
  | case2 => rfl
  | case3 => rfl
  | case4 s rest _ ih => rw [nestedInSegments, nestedInSegments, ih]

theorem nestedInSegments_of_all_isText {segments : List Segment}
    (h : segments.all isText = true) : nestedInSegments segments = [] := by
  induction segments with
  | nil => rfl
  | cons s rest ih =>
    obtain ⟨hs, hrest⟩ := Bool.and_eq_true_iff.mp h
    rw [nestedInSegments, ih hrest, List.append_nil]
    cases s with
    | text => rfl
    | _ => cases hs

/-- In an argument without quotes are the arguments that are in its segments. -/
theorem nestedInArg_unquoted (key : Option String) (segments : List Segment) (source : String) :
    nestedInArg (unquoted key segments source) =
      unquoted key segments source :: nestedInSegments segments := by
  unfold unquoted
  split
  · next h => rw [nestedInArg, nestedInSegments_of_all_isText h]
  · rfl

end Template

end Casebook
