import Casebook.Text.Split

/-!
# Paths

A path is a text: names with slashes between them. It is kept as it was written, so that messages
show it that way; empty names and single dots mean nothing except at the beginning, and two paths
are the same place if they differ in such names only.
-/

namespace Casebook.Path

open Text

/-- Whether a path starts at the root. -/
def isAbsolute (path : String) : Bool :=
  path.toList.head? = some '/'

/-- What a path starts with: the slash of the root, a dot for the current directory, or nothing. -/
def start (path : List Char) : List Char :=
  match path with
  | '/' :: _ => ['/']
  | ['.'] => ['.']
  | '.' :: '/' :: _ => ['.']
  | _ => []

/-- Whether a part between slashes names nothing. -/
def isVoid (part : List Char) : Bool :=
  part = [] || part = ['.']

/-- Drop the parts at the end that name nothing. -/
def dropVoid (parts : List (List Char)) : List (List Char) :=
  (parts.reverse.dropWhile isVoid).reverse

/-- The parts behind the start of a path, up to the last that names something. -/
def body (path : String) : List (List Char) :=
  let s := path.toList
  dropVoid (splitOn '/' (s.drop (start s).length))

/-- The last name of a path, unless it goes up. -/
def fileName? (path : String) : Option (List Char) :=
  match (body path).getLast? with
  | none | some ['.', '.'] => none
  | some name => some name

/-- The path without its last name, if there is anything to leave out. -/
def parent? (path : String) : Option String :=
  let head := start path.toList
  match body path with
  | [] => if head = ['.'] then some "" else none
  | parts => some (String.ofList (head ++ ['/'].intercalate (dropVoid parts.dropLast)))

/-- The names of a path, a slash in front for the root and a dot in front for the current
directory. -/
def components (path : String) : List (List Char) :=
  let head := start path.toList
  (if head = [] then [] else [head]) ++ (body path).filter fun part => !isVoid part

/-- One path continued by another; an absolute one stands alone. -/
def join (path more : String) : String :=
  if isAbsolute more || path = "" then more
  else if path.endsWith "/" then path ++ more
  else path ++ "/" ++ more

/-- A name split at its last dot; a dot in front does not count. -/
def splitAtDot (name : List Char) : List Char × Option (List Char) :=
  let extension := (name.reverse.takeWhile (· ≠ '.')).reverse
  let stem := name.take (name.length - extension.length - 1)
  if stem = [] ∨ extension.length = name.length then (name, none) else (stem, some extension)

/-- The last name of a path without its extension. -/
def stem? (path : String) : Option String :=
  (fileName? path).map fun name => String.ofList (splitAtDot name).1

/-- The extension of a path, without its dot. -/
def extension? (path : String) : Option String :=
  (fileName? path).bind fun name => (splitAtDot name).2.map String.ofList

end Casebook.Path
