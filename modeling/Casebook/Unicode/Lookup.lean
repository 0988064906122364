import Casebook.Unicode.Age
import Casebook.Unicode.Property
import Casebook.Unicode.ScriptExtension

/-!
# Sets by name

Properties, categories and scripts are looked up by names that are compared loosely: case, blanks,
hyphens, underscores and characters from U+0080 on make no difference, nor does `is` in front.
-/

namespace Casebook.Unicode

/-- What is left of a name when it is compared. The name `isc` is no `c` with `is` in front. -/
def looseName (name : List Char) : String :=
  let (prefixed, rest) :=
    match name with
    | i :: s :: rest => if i.toLower = 'i' ∧ s.toLower = 's' then (true, rest) else (false, name)
    | _ => (false, name)
  let kept := rest.filter fun c => c.toNat < 0x80 && c ≠ ' ' && c ≠ '-' && c ≠ '_'
  if prefixed ∧ kept.map Char.toLower = ['c'] then "isc"
  else String.ofList (kept.map Char.toLower)

/-- The set with one of some names. -/
def named? (sets : List (List String × CharSet)) (name : String) : Option CharSet :=
  (sets.find? fun entry => entry.1.contains name).map Prod.snd

/-- The set that a name alone stands for: a property, a category or a script. -/
def setNamed? (name : List Char) : Option CharSet :=
  let name := looseName name
  (named? properties name).or ((named? categories name).or (named? scripts name))

/-- The characters for which a property that may have several values has a certain one. -/
def setWithValue? (property value : List Char) : Option CharSet :=
  let value := looseName value
  match looseName property with
  | "gc" | "generalcategory" => named? categories value
  | "sc" | "script" => named? scripts value
  | "scx" | "scriptextensions" => named? scriptExtensions value
  | "age" => named? ages value
  | "gcb" | "graphemeclusterbreak" => named? graphemeClasses value
  | "wb" | "wordbreak" => named? wordClasses value
  | "sb" | "sentencebreak" => named? sentenceClasses value
  | _ => none

end Casebook.Unicode
