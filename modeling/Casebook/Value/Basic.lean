import Casebook.Dict
import Casebook.Number

/-!
# Values

Documents, step fields, variables and results are all values: the tree a definition document is
read into. Readers list the entries of an object in ascending order of their keys, and
everything here keeps that order.
-/

namespace Casebook

/-- A structured value. -/
inductive Value where
  | null
  | bool (b : Bool)
  | number (n : Number)
  | string (s : String)
  | array (items : List Value)
  | object (entries : List (String × Value))
  deriving Inhabited

namespace Value

/-- An integer value. -/
def int (i : Int) : Value := .number (.int i)

/-- A natural number as a value. -/
def nat (n : Nat) : Value := .number (.int n)

/-- The entry of an object under a key. -/
def field? (key : String) : Value → Option Value
  | .object entries => Dict.get? entries key
  | _ => none

/-- The text of a string. -/
def text? : Value → Option String
  | .string s => some s
  | _ => none

/-- The text of a string, or the default for any other value. -/
def textD (default : String) (v : Value) : String :=
  v.text?.getD default

/-! ## The texts of a value

`mapTexts` replaces every string of a value by a value of its own and every key by a text, in
the order in which they stand. Of two keys that become the same the later entry stays. -/

section Texts

variable {m : Type → Type} [Monad m] (onText : String → m Value) (onKey : String → m String)

mutual

/-- Replace every string and every key of a value. -/
def mapTexts : Value → m Value
  | .null => pure .null
  | .bool b => pure (.bool b)
  | .number n => pure (.number n)
  | .string s => onText s
  | .array items => do return .array (← mapTextsOfItems items)
  | .object entries => do return .object (← mapTextsOfEntries [] entries)

/-- Replace the strings and keys of each item, in order. -/
def mapTextsOfItems : List Value → m (List Value)
  | [] => pure []
  | item :: rest => do
    let item ← mapTexts item
    let rest ← mapTextsOfItems rest
    return item :: rest

/-- Replace each key and then its value, in order, on top of the entries already done. -/
def mapTextsOfEntries (done : Dict Value) : List (String × Value) → m (Dict Value)
  | [] => pure done
  | (key, item) :: rest => do
    let key ← onKey key
    let item ← mapTexts item
    mapTextsOfEntries (done.insert key item) rest

end

end Texts

end Value

end Casebook
