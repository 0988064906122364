import Casebook.Definition.Action
import Casebook.Proofs.Template.Calls
import Casebook.Proofs.Template.RoundTrip

/-!
# How deep calls are nested

Calls stand in the arguments of calls. The parser counts the braces that it is in, and a call in a
template has braces of its own, so a limit of the braces is a limit of the calls. An action has
braces of its own only in one of its two forms: in the other one its outermost call is not counted.

* `Action.depth_le_of_parse`: how deep calls are nested in an action that the parser accepts;
* `exists_parseCall_depth_eq`: under every limit the bare form makes use of the level that is not
  counted.
-/

namespace Casebook

open Text Computation

namespace Segment

mutual

/-- How deep calls are nested in a segment. -/
def callDepth : Segment → ℕ
  | text _ => 0
  | var _ => 0
  | call ⟨_, args⟩ => callDepthOfArgs args + 1

/-- How deep calls are nested in some segments. -/
def callDepthOfSegments : List Segment → ℕ
  | [] => 0
  | s :: rest => max (callDepth s) (callDepthOfSegments rest)

/-- How deep calls are nested in an argument. -/
def callDepthOfArg : Argument → ℕ
  | .literal _ _ _ => 0
  | .quoted _ _ body _ => callDepthOfSegments body
  | .expr _ body _ => callDepthOfSegments body

/-- How deep calls are nested in some arguments. -/
def callDepthOfArgs : List Argument → ℕ
  | [] => 0
  | a :: rest => max (callDepthOfArg a) (callDepthOfArgs rest)

end

end Segment

/-- How deep calls are nested in a call, which is the outermost one. -/
def Call.depth (c : Call) : ℕ :=
  Segment.callDepthOfArgs c.args + 1

namespace Template

open Segment

@[simp] theorem callDepth_call (c : Call) : (Segment.call c).callDepth = c.depth := by
  cases c
  rfl

/-! ## Joining pieces -/

/-- How deep calls are nested in what a piece is for. -/
def Piece.callDepth : Piece → ℕ
  | .char _ => 0
  | .placeholder s => s.callDepth

variable {n : ℕ}

theorem callDepthOfSegments_consText (text : List Char) (segments : List Segment) :
    callDepthOfSegments (consText text segments) = callDepthOfSegments segments := by
  cases text with
  | nil => rfl
  | cons c text => exact Nat.zero_max _

theorem callDepthOfSegments_splitPieces {ps : List Piece} (h : ∀ p ∈ ps, p.callDepth ≤ n) :
    callDepthOfSegments (splitPieces ps).2 ≤ n := by
  induction ps with
  | nil => exact Nat.zero_le n
  | cons p ps ih =>
    have hrest := ih fun q hq => h q (List.mem_cons_of_mem p hq)
    cases p with
    | char c => exact hrest
    | placeholder s =>
      refine Nat.max_le.mpr ⟨h _ List.mem_cons_self, ?_⟩
      rwa [callDepthOfSegments_consText]

theorem callDepthOfSegments_ofPieces {ps : List Piece} (h : ∀ p ∈ ps, p.callDepth ≤ n) :
    callDepthOfSegments (ofPieces ps) ≤ n := by
  rw [ofPieces, callDepthOfSegments_consText]
  exact callDepthOfSegments_splitPieces h

theorem callDepthOfSegments_trimLast (segments : List Segment) :
    callDepthOfSegments (trimLast segments) ≤ callDepthOfSegments segments := by
  fun_induction trimLast segments with
  | case1 => exact Nat.le_refl _
  | case2 => exact Nat.zero_le _
  | case3 => exact Nat.le_refl _
  | case4 s rest _ ih =>
    exact Nat.max_le.mpr ⟨Nat.le_max_left _ _, Nat.le_trans ih (Nat.le_max_right _ _)⟩

theorem callDepthOfArg_unquoted (key : Option String) (segments : List Segment) (source : String) :
    callDepthOfArg (unquoted key segments source) ≤ callDepthOfSegments segments := by
  unfold unquoted
  split
  · exact Nat.zero_le _
  · exact Nat.le_refl _

/-! ## What the parser accepts -/

section Rules

variable {P : Rule Segment} {s rest : List Char}

/-- In what follows the rule of placeholders calls are nested so deep at most. -/
def BoundedRule (n : ℕ) (P : Rule Segment) : Prop :=
  ∀ s segment rest, P s segment rest → segment.callDepth ≤ n

theorem TakesPiece.callDepth_le (hP : BoundedRule n P) {stop : Stop} {p : Piece}
    (h : TakesPiece P stop s p rest) : p.callDepth ≤ n := by
  cases h with
  | braces inner => exact hP _ _ _ inner
  | _ => exact Nat.zero_le n

theorem TakesPieces.callDepth_le (hP : BoundedRule n P) {stop : Stop} {ps : List Piece}
    (h : TakesPieces P stop s ps rest) : ∀ p ∈ ps, p.callDepth ≤ n := by
  induction h with
  | done => simp
  | more _ first _ ih =>
    intro p hp
    rcases List.mem_cons.mp hp with rfl | hp
    · exact first.callDepth_le hP
    · exact ih p hp

theorem TakesValue.callDepth_le (hP : BoundedRule n P) {key : Option String} {a : Argument}
    (h : TakesValue P key s a rest) : callDepthOfArg a ≤ n := by
  cases h with
  | quoted _ body => exact callDepthOfSegments_ofPieces (body.callDepth_le hP)
  | unquoted _ body =>
    have hpieces := callDepthOfSegments_ofPieces (body.callDepth_le hP)
    have htrimmed := Nat.le_trans (callDepthOfSegments_trimLast _) hpieces
    exact Nat.le_trans (callDepthOfArg_unquoted _ _ _) htrimmed

theorem TakesMore.callDepth_le (hP : BoundedRule n P) {args : List Argument}
    (h : TakesMore P s args rest) : callDepthOfArgs args ≤ n := by
  induction h with
  | last first => exact Nat.max_le.mpr ⟨TakesValue.callDepth_le hP first, Nat.zero_le n⟩
  | more first _ _ ih => exact Nat.max_le.mpr ⟨TakesValue.callDepth_le hP first, ih⟩

theorem TakesArguments.callDepth_le (hP : BoundedRule n P) {args : List Argument}
    (h : TakesArguments P s args rest) : callDepthOfArgs args ≤ n := by
  cases h with
  | none => exact Nat.zero_le n
  | some _ all => exact all.callDepth_le hP

end Rules

/-- The braces are counted, so calls in placeholders are nested no deeper than there is room. The
induction is on the room. -/
theorem boundedRule_takesPlaceholder (room : ℕ) : BoundedRule room (TakesPlaceholder room) := by
  induction room with
  | zero => exact fun _ _ _ h => h.elim
  | succ room ih =>
    intro s segment rest h
    obtain ⟨mid, hname, -⟩ := h
    cases hname with
    | var => exact Nat.zero_le _
    | call _ _ _ all => exact Nat.succ_le_succ (all.callDepth_le ih)

/-- In an action calls are nested one level deeper than the limit at most, and no deeper than the
limit if the action is written in braces. -/
theorem IsCall.depth_le {limit : ℕ} {s : List Char} {c : Call} (h : IsCall limit s c) :
    c.depth ≤ limit + 1 ∧ ((∃ inner, s = '$' :: '\x7b' :: inner) → c.depth ≤ limit) := by
  have hdollar {name mid inner : List Char} (hword : word ('$' :: inner) = (name, mid)) :
      name = [] := by
    rw [word_cons_of_not (by decide)] at hword
    exact (Prod.mk.inj hword).1.symm
  cases h with
  | @braces s rest c inner _ =>
    have hdepth : c.depth ≤ limit := by
      simpa using boundedRule_takesPlaceholder limit _ _ _ inner
    exact ⟨Nat.le_succ_of_le hdepth, fun _ => hdepth⟩
  | var inner _ =>
    -- There is room for the braces that the name stands in.
    cases limit with
    | zero => exact inner.elim
    | succ limit =>
      have hdepth : 1 ≤ limit + 1 := Nat.succ_le_succ (Nat.zero_le limit)
      exact ⟨Nat.le_succ_of_le hdepth, fun _ => hdepth⟩
  | bare word_eq ne_nil _ all _ =>
    refine ⟨Nat.succ_le_succ (all.callDepth_le (boundedRule_takesPlaceholder limit)), ?_⟩
    rintro ⟨inner, rfl⟩
    exact absurd (hdollar word_eq) ne_nil
  | name word_eq ne_nil _ =>
    refine ⟨Nat.succ_le_succ (Nat.zero_le _), ?_⟩
    rintro ⟨inner, rfl⟩
    exact absurd (hdollar word_eq) ne_nil

/-! ## Bare calls come by one level -/

mutual

/-- How arguments were written makes no difference to how deep calls are nested in them. -/
theorem callDepth_bare (s : Segment) : s.bare.callDepth = s.callDepth := by
  cases s with
  | text => rfl
  | var => rfl
  | call c =>
    obtain ⟨name, args⟩ := c
    exact congrArg Nat.succ (callDepthOfArgs_bare args)

theorem callDepthOfSegments_bare (segments : List Segment) :
    callDepthOfSegments (bareSegments segments) = callDepthOfSegments segments := by
  cases segments with
  | nil => rfl
  | cons s rest => exact congrArg₂ max (callDepth_bare s) (callDepthOfSegments_bare rest)

theorem callDepthOfArg_bare (a : Argument) : callDepthOfArg (bareArg a) = callDepthOfArg a := by
  cases a with
  | literal => rfl
  | quoted _ _ body => exact callDepthOfSegments_bare body
  | expr _ body => exact callDepthOfSegments_bare body

theorem callDepthOfArgs_bare (args : List Argument) :
    callDepthOfArgs (bareArgs args) = callDepthOfArgs args := by
  cases args with
  | nil => rfl
  | cons a rest => exact congrArg₂ max (callDepthOfArg_bare a) (callDepthOfArgs_bare rest)

end

/-- A call as it is printed in its bare form. -/
def printBare (c : Call) : String :=
  String.ofList (c.name.toList ++ '(' :: (printArgs c.args ++ [')']))

/-- In its bare form a call is read back as soon as there is room for what is in its arguments. -/
theorem exists_parseCall_printBare {c : Call} (hcanonical : (Segment.call c).Canonical)
    (hprintable : (Segment.call c).Printable) {limit : ℕ} (hlimit : nestingOfArgs c.args ≤ limit) :
    ∃ c', parseCall limit (printBare c) = .ok c' ∧
      (Segment.call c').bare = (Segment.call c).bare := by
  obtain ⟨name, args⟩ := c
  obtain ⟨⟨hname, hword⟩, hargs⟩ := hcanonical
  obtain ⟨args', htakes, hbares⟩ := exists_takesArguments_printArgs
    (readsPrinted_takesPlaceholder limit) hargs hprintable hlimit []
  have hnone : ∀ x ∈ ([] : List Char), isBlank x = true := by simp
  have hne : name.toList ≠ [] := by
    intro h
    exact hname (String.toList_eq_nil_iff.mp h)
  have htext := IsCallText.bare hnone hword hne hnone htakes hnone
  refine ⟨⟨name, args'⟩, parseCall_of_isCallText ?_, ?_⟩
  · rw [printBare, String.toList_ofList]
    rwa [String.ofList_toList] at htext
  · rw [Segment.bare, Segment.bare, hbares]

/-- A call in the argument of a call, and so on. -/
def chain : ℕ → Call
  | 0 => ⟨"F", []⟩
  | n + 1 => ⟨"F", [.expr none [.call (chain n)] ""]⟩

theorem canonical_chain (n : ℕ) :
    (Segment.call (chain n)).Canonical ∧ (Segment.call (chain n)).Printable := by
  have hname : IsName "F" := ⟨by decide, List.all_eq_true.mp (by decide)⟩
  have hkey : IsKeyword none := by
    intro _ h
    cases h
  induction n with
  | zero => exact ⟨⟨hname, trivial⟩, trivial⟩
  | succ n ih =>
    have hbody : CanonicalSegments [.call (chain n)] := ⟨ih.1, fun _ => rfl, trivial⟩
    exact ⟨⟨hname, ⟨hkey, hbody⟩, trivial⟩, ⟨rfl, ih.2⟩, trivial⟩

theorem nestingOfArgs_chain (n : ℕ) : nestingOfArgs (chain n).args = n := by
  have hcall (c : Call) : (Segment.call c).nesting = nestingOfArgs c.args + 1 := by
    cases c
    rfl
  induction n with
  | zero => rfl
  | succ n ih => simp [chain, nestingOfArgs, nestingOfArg, nestingOfSegments, hcall, ih]

theorem depth_chain (n : ℕ) : (chain n).depth = n + 1 := by
  induction n with
  | zero => rfl
  | succ n ih =>
    have hargs : callDepthOfArgs (chain (n + 1)).args = (chain n).depth := by
      simp [chain, callDepthOfArgs, callDepthOfArg, callDepthOfSegments]
    rw [Call.depth, hargs, ih]

/-- Under every limit there is a call, in its bare form, in which calls are nested one level
deeper. -/
theorem exists_parseCall_depth_eq (limit : ℕ) :
    ∃ text c, parseCall limit text = .ok c ∧ c.depth = limit + 1 := by
  obtain ⟨hcanonical, hprintable⟩ := canonical_chain limit
  obtain ⟨c, hparse, hbare⟩ := exists_parseCall_printBare hcanonical hprintable
    (Nat.le_of_eq (nestingOfArgs_chain limit))
  have hdepth : c.depth = (chain limit).depth := by
    rw [← callDepth_call, ← callDepth_bare, hbare, callDepth_bare, callDepth_call]
  exact ⟨_, c, hparse, hdepth.trans (depth_chain limit)⟩

end Template

/-! ## Actions -/

namespace Action

/-- An action is written in braces. -/
def IsWrapped (a : Action) : Prop :=
  ['$', '\x7b'] <+: a.source.toList

/-- In an action calls are nested one level deeper than the limit at most, and no deeper than the
limit if it is written in braces. -/
theorem depth_le_of_parse {limit : ℕ} {text : String} {a : Action} (h : parse limit text = .ok a) :
    a.call.depth ≤ limit + 1 ∧ (a.IsWrapped → a.call.depth ≤ limit) := by
  obtain ⟨c, hcall, rfl⟩ := map_eq_ok.mp h
  obtain ⟨hdepth, hwrapped⟩ := (Template.parseCall_eq_ok.mp hcall).depth_le
  refine ⟨hdepth, fun hsource => hwrapped ?_⟩
  obtain ⟨inner, hinner⟩ := hsource
  rw [trimmed, String.toList_ofList] at hinner
  exact ⟨inner, hinner.symm⟩

end Action

end Casebook
