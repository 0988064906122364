import Casebook.Dict
import Casebook.Error
import Casebook.Value.Basic

/-!
# Blocks

A document is a list of blocks, each a mapping with one key that says what the block is. The body
of a block has a fixed set of fields. It is a mapping of their names, or a list with exactly one
item for each of them in their order; a field that is null counts as left out.
-/

namespace Casebook

/-- A block of a document. -/
structure Block where
  key : String
  body : Value

namespace Block

/-- The block that an item of a document is, where items are counted from one. -/
def ofItem (location : String) (number : Nat) : Value → Except Error Block
  | .object [(key, body)] => .ok ⟨key, body⟩
  | _ => .error (.malformed location s!"block #{number} must be a single-key mapping")

/-- The blocks of items, the first of which has some number. -/
def ofItems (location : String) : Nat → List Value → Except Error (List Block)
  | _, [] => .ok []
  | number, item :: rest => do
    let block ← ofItem location number item
    return block :: (← ofItems location (number + 1) rest)

/-- The blocks of a document. -/
def ofDocument (location : String) : Value → Except Error (List Block)
  | .array [] | .null => .error (.malformed location "empty document")
  | .array items => ofItems location 1 items
  | _ => .error (.malformed location "a definition document must be a list of blocks")

end Block

/-- The fields of a body that are not left out. -/
abbrev Fields := Dict Value

namespace Fields

/-- Entries that are not null. -/
def present (entries : List (String × Value)) : Fields :=
  entries.filter fun entry =>
    match entry.2 with
    | .null => false
    | _ => true

/-- The fields of a body, which has no others than these if `closed` is set; none if it is no
mapping of fields. -/
def ofBody? (names : List String) (closed : Bool) : Value → Option Fields
  | .object entries =>
    if closed && entries.any fun entry => !names.contains entry.1 then none
    else some (present entries)
  | .array items =>
    if items.length = names.length then some (present (names.zip items)) else none
  | _ => none

/-- A field that is read in some way; none if it cannot be read so. -/
def get {α : Type} (fields : Fields) (name : String) (read : Value → Option α) :
    Option (Option α) :=
  match fields.get? name with
  | none => some none
  | some v => (read v).map some

/-- A list of texts. -/
def texts? : Value → Option (List String)
  | .array items => items.mapM Value.text?
  | _ => none

/-- A mapping. -/
def entries? : Value → Option (Dict Value)
  | .object entries => some entries
  | _ => none

/-- A list of mappings. -/
def mappings? : Value → Option (List (Dict Value))
  | .array items => items.mapM entries?
  | _ => none

/-- A mapping to texts. -/
def textEntries? : Value → Option (Dict String)
  | .object entries => entries.mapM fun entry => (entry.2.text?).map fun s => (entry.1, s)
  | _ => none

end Fields

end Casebook
