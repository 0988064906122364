import Casebook.Pattern.Regex
import Casebook.Pattern.Utf8

/-!
# Sizes of patterns

A pattern is refused if the automaton that would run it byte by byte grows too large, read forward
or backward. The size of an automaton is counted in bytes: each state has a fixed size, and the
ways out of a state add to it. Repetitions count as often as they are written out.
-/

namespace Casebook.Pattern

open Unicode

/-- The direction in which an automaton reads a text. -/
inductive Direction where
  | forward
  | backward
  deriving DecidableEq

namespace Size

/-- The size of a state. -/
def state : Nat := 32

/-- The size of one way out of a state that makes no choice by bytes. -/
def branch : Nat := 4

/-- The size of one range of bytes in a state that chooses by bytes. -/
def transition : Nat := 8

/-! ## Sets -/

/-- A state that chooses by bytes: ranges with the numbers of the states behind them. -/
abbrev Node := List ((Nat × Nat) × Nat)

/-- The number of the state for some sequences of bytes, among the different states so far. Two
states with the same ways out are one; zero is the end. -/
def share : Nat → List (List (Nat × Nat)) → StateM (Array Node) Nat
  | 0, _ => pure 0
  | fuel + 1, seqs => do
    let node ← (Utf8.byFirst seqs).mapM fun (first, rests) => do
      let target ← if rests.all List.isEmpty then pure 0 else share fuel rests
      return (first, target)
    let known ← get
    match known.idxOf? node with
    | some i => return i + 1
    | none =>
      set (known.push node)
      return known.size + 1

/-- The number of different beginnings of some sequences. -/
def beginnings : Nat → List (List (Nat × Nat)) → Nat
  | 0, _ => 0
  | fuel + 1, seqs =>
    ((Utf8.byFirst seqs).map fun (_, rests) => 1 + beginnings fuel rests).sum

/-- The size of the automaton of a set. -/
def ofSet (d : Direction) (s : CharSet) : Nat :=
  match s.ranges.getLast? with
  | none => 2 * state
  | some last =>
    if s.ranges = [(last.2, last.2)] then state * (Utf8.encode last.2).length
    else if last.2 < 0x80 then 2 * state + transition * s.ranges.length
    else
      let seqs := Utf8.sequences s
      match d with
      | .forward =>
        let (_, nodes) := (share 4 seqs).run #[]
        nodes.foldl (fun size node => size + state + transition * node.length) state
      | .backward => 2 * state + branch * seqs.length + state * beginnings 4 seqs

/-! ## Choices between words -/

/-- The parts of some words between those that are empty. -/
def partsBetween : List (List Nat) → List (List (List Nat))
  | [] => [[]]
  | [] :: rest => [] :: partsBetween rest
  | word :: rest =>
    match partsBetween rest with
    | [] => [[word]]
    | part :: parts => (word :: part) :: parts

/-- The parts of some words between those that are empty, where empty words in front count once. -/
def chunks : List (List Nat) → List (List (List Nat))
  | [] :: rest => [] :: partsBetween (rest.dropWhile List.isEmpty)
  | words => partsBetween words

/-- Words by their first bytes, in the order of their first occurrence. -/
def byFirstByte : List (List Nat) → List (Nat × List (List Nat))
  | [] => []
  | [] :: rest => byFirstByte rest
  | (b :: tail) :: rest =>
    let others := byFirstByte rest
    match others.lookup b with
    | some tails => (b, tail :: tails) :: others.filter fun entry => entry.1 ≠ b
    | none => (b, [tail]) :: others

/-- The size of the states for a choice between words behind a common beginning. A word that ends
there gives way to the words behind it. -/
def ofWords : Nat → List (List Nat) → Nat
  | 0, _ => 0
  | fuel + 1, words =>
    if words.all List.isEmpty then 0
    else
      let parts := (chunks words).map byFirstByte
      let ends := parts.length - 1
      let part (entries : List (Nat × List (List Nat))) : Nat :=
        match entries.length with
        | 0 => 0
        | 1 => branch + state
        | n => branch + state + transition * n
      let inner := parts.flatMap fun entries => entries.map fun entry => ofWords fuel entry.2
      state + branch * ends + (parts.map part).sum + inner.sum

/-! ## Expressions -/

/-- What an expression adds to the size of an automaton: its size, the number and the sizes of the
alternatives it is a choice between, and their bytes if each of them is a word. -/
structure Extent where
  size : Nat
  branches : Nat
  ofBranches : Nat
  words : Option (List (List Nat))

/-- An expression that is no choice. -/
def Extent.plain (size : Nat) : Extent := ⟨size, 1, size, none⟩

/-- The extent of an expression in an automaton. -/
def extent (d : Direction) : Regex → Extent
  | .empty => .plain state
  | .set members =>
    let size := ofSet d members
    match members.ranges with
    | [(n, m)] => ⟨size, 1, size, if n = m then some [Utf8.encode n] else none⟩
    | _ => .plain size
  | .condition _ => .plain state
  | .group _ body =>
    .plain ((extent d body).size + match d with | .forward => 2 * state | .backward => 0)
  | .seq first second =>
    let a := extent d first
    let b := extent d second
    let size := a.size + b.size
    match a.words, b.words with
    | some [v], some [w] => ⟨size, 1, size, some [v ++ w]⟩
    | _, _ => .plain size
  | .alt first second =>
    let a := extent d first
    let b := extent d second
    let branches := a.branches + b.branches
    let ofBranches := a.ofBranches + b.ofBranches
    match a.words, b.words with
    | some v, some w =>
      let words := v ++ w
      let read := match d with | .forward => words | .backward => words.map List.reverse
      let longest := (words.map List.length).foldl max 0
      ⟨state + ofWords (longest + 1) read, branches, ofBranches, some words⟩
    | _, _ => ⟨2 * state + branch * branches + ofBranches, branches, ofBranches, none⟩
  | .repeated least most _ body =>
    let inner := (extent d body).size
    let fork := state + 2 * branch
    .plain <|
      match least, most with
      | 0, some 1 => fork + state + inner
      | 0, none => if body.nullable then 2 * fork + state + inner else fork + inner
      | least, none => least * inner + fork
      | least, some most =>
        if least = most then least * inner
        else (if least = 0 then state else least * inner) + state + (most - least) * (fork + inner)

/-- Whether an expression matches at the start of the text alone. -/
def startsAtStart : Regex → Bool
  | .condition .textStart => true
  | .group _ body => startsAtStart body
  | .seq first second => startsAtStart first || (first.neverConsumes && startsAtStart second)
  | .alt first second => startsAtStart first && startsAtStart second
  | .repeated least _ _ body => 0 < least && startsAtStart body
  | _ => false

/-- Whether an expression matches up to the end of the text alone. -/
def endsAtEnd : Regex → Bool
  | .condition .textEnd => true
  | .group _ body => endsAtEnd body
  | .seq first second => endsAtEnd second || (second.neverConsumes && endsAtEnd first)
  | .alt first second => endsAtEnd first && endsAtEnd second
  | .repeated least _ _ body => 0 < least && endsAtEnd body
  | _ => false

/-- The size of the automaton of a pattern: the whole match is a group, and unless the expression
matches at one end of the text alone, the automaton can pass over what is in front. -/
def ofPattern (d : Direction) (r : Regex) : Nat :=
  let anchored := match d with | .forward => startsAtStart r | .backward => endsAtEnd r
  let passing := if anchored then state else 3 * state + transition + 2 * branch
  (extent d (.group 0 r)).size + state + passing

/-- The largest size an automaton may have: ten mebibytes. -/
def limit : Nat := 10 * 1024 * 1024

end Size

/-- Whether the automata of an expression stay within the limit. -/
def Regex.fits (r : Regex) : Bool :=
  Size.ofPattern .forward r ≤ Size.limit && Size.ofPattern .backward r ≤ Size.limit

end Casebook.Pattern
