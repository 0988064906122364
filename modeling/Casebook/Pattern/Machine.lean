import Casebook.Pattern.Regex

/-!
# Running patterns

An expression is compiled to instructions, and these are run over a text once, with all ways to
go on side by side in the order in which they are preferred. The first match from the left is
found, and of the matches that start there the preferred one.
-/

namespace Casebook.Pattern

/-- An instruction; targets are indices of instructions. -/
inductive Instruction where
  /-- Consume a member of the set. -/
  | consume (members : Unicode.CharSet) (next : Nat)
  /-- Go on both ways, the first preferred. -/
  | fork (first second : Nat)
  /-- Remember the position. -/
  | save (slot next : Nat)
  /-- Go on if the condition holds. -/
  | check (c : Condition) (next : Nat)
  /-- The text matches. -/
  | accept
  deriving Inhabited

/-- Instructions in the order of their indices. -/
abbrev Program := Array Instruction

/-! ## Compilation -/

namespace Regex

/-- Append an instruction; its index. -/
def emit (i : Instruction) : StateM Program Nat :=
  modifyGet fun program => (program.size, program.push i)

/-- A fork whose preferred way is taken if the repetition is greedy. -/
def forkTo (greedy : Bool) (inside outside : Nat) : Instruction :=
  if greedy then .fork inside outside else .fork outside inside

/-- A fork that is set once the instructions it leads to are known; its index. -/
def emitLoop (greedy : Bool) (outside : Nat) (body : Nat → StateM Program Nat) :
    StateM Program (Nat × Nat) := do
  let fork ← emit .accept
  let entry ← body fork
  modify fun program => program.set! fork (forkTo greedy entry outside)
  return (fork, entry)

/-- So many copies of something one after another. -/
def copies (compile : Nat → StateM Program Nat) : Nat → Nat → StateM Program Nat
  | 0, next => pure next
  | n + 1, next => do
    let next ← compile next
    copies compile n next

/-- Up to so many copies of something in front of an instruction, each inside the choice of the one
before. -/
def optionalCopies (compile : Nat → StateM Program Nat) (greedy : Bool) (outside : Nat) :
    Nat → Nat → StateM Program Nat
  | 0, next => pure next
  | n + 1, next => do
    let entry ← compile next
    let fork ← emit (forkTo greedy entry outside)
    optionalCopies compile greedy outside n fork

/-- The instructions of an expression in front of instruction `next`; the index to start at. A
repetition of something that may match the empty text is compiled as an optional repetition of
one round or more, which keeps the order of preference. -/
def compile : Regex → Nat → StateM Program Nat
  | empty, next => pure next
  | set members, next => emit (.consume members next)
  | condition c, next => emit (.check c next)
  | group index body, next => do
    let close ← emit (.save (2 * index + 1) next)
    let entry ← compile body close
    emit (.save (2 * index) entry)
  | seq first second, next => do
    let entry ← compile second next
    compile first entry
  | alt first second, next => do
    let a ← compile first next
    let b ← compile second next
    emit (.fork a b)
  | repeated min max greedy body, next => do
    match max with
    | some n =>
      let entry ← optionalCopies (compile body) greedy next (n - min) next
      copies (compile body) min entry
    | none =>
      if min = 0 then
        let (fork, entry) ← emitLoop greedy next (compile body)
        if body.nullable then emit (forkTo greedy entry next) else return fork
      else
        let (_, entry) ← emitLoop greedy next (compile body)
        copies (compile body) (min - 1) entry

/-- The program of an expression and the index to start at: the whole match is group zero. -/
def program (r : Regex) : Program × Nat :=
  let (start, program) := (compile (group 0 r) 0).run #[.accept]
  (program, start)

end Regex

/-! ## Running -/

/-- The positions remembered by a thread. -/
abbrev Slots := Array (Option Nat)

/-- A place in the program with what was remembered on the way. -/
structure Thread where
  index : Nat
  slots : Slots

/-- Where in the text the machine is. -/
structure Place where
  before : Option Char
  after : Option Char
  position : Nat

/-- The threads that wait for a character or have matched, the preferred first, and the
instructions already reached. -/
structure Threads where
  waiting : Array Thread
  reached : Array Bool

/-- Follow the instructions that consume nothing from the threads on a stack; each instruction is
reached once. -/
def follow (program : Program) (place : Place) : Nat → List Thread → Threads → Threads
  | 0, _, threads => threads
  | _, [], threads => threads
  | fuel + 1, t :: stack, threads =>
    if threads.reached[t.index]?.getD true then follow program place fuel stack threads
    else
      let threads := { threads with reached := threads.reached.set! t.index true }
      match program[t.index]? with
      | some (.fork first second) =>
        follow program place fuel (⟨first, t.slots⟩ :: ⟨second, t.slots⟩ :: stack) threads
      | some (.save slot next) =>
        follow program place fuel (⟨next, t.slots.set! slot place.position⟩ :: stack) threads
      | some (.check c next) =>
        if c.holds place.before place.after then
          follow program place fuel (⟨next, t.slots⟩ :: stack) threads
        else follow program place fuel stack threads
      | some (.consume ..) | some .accept =>
        follow program place fuel stack { threads with waiting := threads.waiting.push t }
      | none => follow program place fuel stack threads

/-- Follow the instructions from one thread. -/
def followFrom (program : Program) (place : Place) (t : Thread) (threads : Threads) : Threads :=
  follow program place (2 * program.size + 2) [t] threads

/-- No threads. -/
def Threads.none (program : Program) : Threads :=
  ⟨#[], Array.replicate program.size false⟩

/-- Let each thread consume a character, the preferred first. A thread that has matched ends the
step: the threads behind it are given up. -/
def stepThreads (program : Program) (c : Option Char) (place : Place) :
    List Thread → Threads → Option Slots → Threads × Option Slots
  | [], threads, found => (threads, found)
  | t :: rest, threads, found =>
    match program[t.index]? with
    | some .accept => (threads, some t.slots)
    | some (.consume members next) =>
      if c.any members.contains then
        stepThreads program c place rest (followFrom program place ⟨next, t.slots⟩ threads) found
      else stepThreads program c place rest threads found
    | _ => stepThreads program c place rest threads found

/-- Run over a text from a position, with the threads that wait there. A new thread starts at each
position as long as nothing has matched. -/
def runFrom (program : Program) (start : Nat) (slots : Slots) (before : Option Char)
    (position : Nat) (threads : Threads) (found : Option Slots) : List Char → Option Slots
  | [] =>
    let threads := begin ⟨before, .none, position⟩
    (stepThreads program .none ⟨.none, .none, position + 1⟩ threads.waiting.toList
      (Threads.none program) found).2
  | c :: rest =>
    let threads := begin ⟨before, some c, position⟩
    let (next, found) :=
      stepThreads program (some c) ⟨some c, rest.head?, position + 1⟩ threads.waiting.toList
        (Threads.none program) found
    if found.isSome && next.waiting.isEmpty then found
    else runFrom program start slots (some c) (position + 1) next found rest
where
  /-- The threads at a place, with a new one if nothing has matched yet. -/
  begin (place : Place) : Threads :=
    if found.isSome then threads else followFrom program place ⟨start, slots⟩ threads

/-- The groups of the first match in a text, the whole match first; none for a group that took no
part in it. -/
def firstMatch (r : Regex) (groups : Nat) (text : List Char) : Option (List (Option String)) :=
  let (program, start) := r.program
  let slots : Slots := Array.replicate (2 * groups + 2) none
  (runFrom program start slots none 0 (Threads.none program) none text).map fun slots =>
    (List.range (groups + 1)).map fun g =>
      match slots[2 * g]?.join, slots[2 * g + 1]?.join with
      | some first, some last => some (String.ofList ((text.drop first).take (last - first)))
      | _, _ => none

end Casebook.Pattern
