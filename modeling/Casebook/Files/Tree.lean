import Casebook.Dict
import Casebook.Files.Path

/-!
# Trees of files

Definitions are read from files, and the files are a value here: folders hold files and folders
under names in ascending order. Paths are taken from the current folder, or from the root if they
start with a slash.
-/

namespace Casebook

/-- A file or a folder. -/
inductive FileNode where
  /-- A file with its text; none if it is no text. -/
  | file (text : Option String)
  | folder (entries : List (String × FileNode))
  /-- A folder whose entries cannot be listed. -/
  | locked
  deriving Inhabited

namespace FileNode

/-- A folder that holds nothing. -/
def empty : FileNode := .folder []

/-- Whether a node is a file. -/
def isFile : FileNode → Bool
  | file _ => true
  | folder _ | locked => false

/-- The entries of a folder. -/
def entries? : FileNode → Option (List (String × FileNode))
  | file _ | locked => none
  | folder entries => some entries

/-- What lies under names, one folder inside the other. -/
def under? : List String → FileNode → Option FileNode
  | [], n => some n
  | name :: rest, n => (n.entries?.bind fun entries => Dict.get? entries name).bind (under? rest)

/-- Replace what lies under names, one folder inside the other. -/
def replace (n : FileNode) : List String → FileNode → FileNode
  | [], new => new
  | name :: rest, new =>
    let entries := n.entries?.getD []
    .folder (Dict.insert entries name (replace ((Dict.get? entries name).getD empty) rest new))

/-! ## Walking -/

mutual

/-- The paths of the files in a node at a path, in order of their names; folders of some names are
left out. -/
def filesOf (skip : String → Bool) (path : String) : FileNode → List String
  | .file _ => [path]
  | .folder entries => filesOfEntries skip path entries
  | .locked => []

/-- The paths of the files in the entries of a folder. -/
def filesOfEntries (skip : String → Bool) (path : String) :
    List (String × FileNode) → List String
  | [] => []
  | (name, .file text) :: rest =>
    filesOf skip (Path.join path name) (.file text) ++ filesOfEntries skip path rest
  | (name, .folder entries) :: rest =>
    (if skip name then [] else filesOf skip (Path.join path name) (.folder entries))
      ++ filesOfEntries skip path rest
  | (_, .locked) :: rest => filesOfEntries skip path rest

end

mutual

/-- Whether all folders in a node can be listed, itself included; folders of some names are left
out. -/
def isListable (skip : String → Bool) : FileNode → Bool
  | .file _ => true
  | .folder entries => areListable skip entries
  | .locked => false

/-- Whether all folders in the entries of a folder can be listed. -/
def areListable (skip : String → Bool) : List (String × FileNode) → Bool
  | [] => true
  | (_, .file _) :: rest => areListable skip rest
  | (name, .folder entries) :: rest =>
    (skip name || isListable skip (.folder entries)) && areListable skip rest
  | (name, .locked) :: rest => skip name && areListable skip rest

end

end FileNode

/-- All files, and the names of the current folder from the root on. -/
structure Files where
  root : FileNode
  here : List String

namespace Files

/-- Where a path starts. -/
def start (fs : Files) (path : String) : List String :=
  if Path.isAbsolute path then [] else fs.here

/-! ## Finding -/

/-- The names from the root on that a path leads to from a folder; every name but the last has to be
that of a folder. -/
def resolve (root : FileNode) (names : List String) : List (List Char) → Option (List String)
  | [] => some names
  | part :: rest =>
    match root.under? names with
    | some (.folder _) =>
      if Path.isVoid part then resolve root names rest
      else if part = ['.', '.'] then resolve root names.dropLast rest
      else resolve root (names ++ [String.ofList part]) rest
    | _ => none

/-- What lies at a path. -/
def find? (fs : Files) (path : String) : Option FileNode :=
  if path = "" then none
  else
    (resolve fs.root (fs.start path) (Text.splitOn '/' path.toList)).bind fun names =>
      fs.root.under? names

/-- Whether there is a file at a path. -/
def isFileAt (fs : Files) (path : String) : Bool :=
  (fs.find? path).any FileNode.isFile

/-- Whether there is a folder at a path. -/
def isFolderAt (fs : Files) (path : String) : Bool :=
  (fs.find? path).any fun n => !n.isFile

/-- Whether there is anything at a path. -/
def isThere (fs : Files) (path : String) : Bool :=
  (fs.find? path).isSome

/-- The text of the file at a path. -/
def read? (fs : Files) (path : String) : Option String :=
  match fs.find? path with
  | some (.file text) => text
  | _ => none

/-- The paths of the files beneath a path, in order; folders of some names are left out. -/
def filesBeneath (fs : Files) (skip : String → Bool) (path : String) : List String :=
  match fs.find? path with
  | some n => n.filesOf skip path
  | none => []

/-- Whether all folders beneath a path can be listed; folders of some names are left out. -/
def isListableAt (fs : Files) (skip : String → Bool) (path : String) : Bool :=
  (fs.find? path).all (FileNode.isListable skip)

/-! ## Writing -/

/-- Make the folders that a path leads through, from the folder under some names on: the root with
them, and the names of the last; none if a file is in the way. -/
def makeFolders (root : FileNode) (names : List String) :
    List (List Char) → Option (FileNode × List String)
  | [] => some (root, names)
  | part :: rest =>
    if Path.isVoid part then makeFolders root names rest
    else if part = ['.', '.'] then makeFolders root names.dropLast rest
    else
      let names := names ++ [String.ofList part]
      match root.under? names with
      | some (.file _) | some .locked => none
      | some (.folder _) => makeFolders root names rest
      | none => makeFolders (root.replace names .empty) names rest

/-- The files with a folder at a path, and folders on the way there. -/
def makeFolder (fs : Files) (path : String) : Option Files :=
  if path = "" then none
  else
    (makeFolders fs.root (fs.start path) (Text.splitOn '/' path.toList)).map fun made =>
      { fs with root := made.1 }

/-- The files with a file at a path, and folders on the way there; none if no file can be there. -/
def write (fs : Files) (path : String) (text : Option String) : Option Files := do
  let parts := Text.splitOn '/' path.toList
  let last ← parts.getLast?
  if Path.isVoid last ∨ last = ['.', '.'] then none
  let (root, names) ← makeFolders fs.root (fs.start path) parts.dropLast
  let names := names ++ [String.ofList last]
  match root.under? names with
  | some (.folder _) | some .locked => none
  | _ => return { fs with root := root.replace names (.file text) }

end Files

end Casebook
