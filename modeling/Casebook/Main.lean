import Casebook.CommandLine.Session
import Std.Time.DateTime

/-!
# The program

Reads the files a command may look at, carries the command out, and writes the files it added.
-/

namespace Casebook

/-- Read a file or a folder with everything in it. -/
partial def loadNode (path : String) : IO (Option FileNode) := do
  let here ← IO.currentDir
  let place := here / path
  if ← place.isDir then
    let listed ← try some <$> place.readDir catch _ => pure none
    let some found := listed | return some .locked
    let mut entries : List (String × FileNode) := []
    for e in found do
      if let some n ← loadNode (Path.join path e.fileName) then
        entries := Dict.insert entries e.fileName n
    return some (.folder entries)
  else if ← place.pathExists then
    try return some (.file (some (← IO.FS.readFile place)))
    catch _ => return some (.file none)
  else return none

/-- Add what lies at a path to the files that were read. -/
def mount (files : Files) (path : String) : IO Files := do
  match ← loadNode path with
  | none => return files
  | some n =>
    let parts := Text.splitOn '/' path.toList
    match Files.makeFolders files.root (files.start path) parts with
    | some (root, names) => return { files with root := root.replace names n }
    | none => return files

/-- The paths that a command looks at, apart from dependency areas. -/
def pathsOf : CommandLine.Command → List String
  | .run o => o.configuration.toList ++ o.paths
  | .check o => o.configuration.toList ++ o.paths
  | .functions _ => []

/-- The dependency areas of the testsets that a command names. -/
def areasOf (around : CommandLine.Surroundings) (files : Files) (c : CommandLine.Command) :
    List String :=
  let (configuration, paths) :=
    match c with
    | .run o => (o.configuration, o.paths)
    | .check o => (o.configuration, o.paths)
    | .functions _ => (none, [])
  match ((CommandLine.Commanding.configuration around configuration).run.run ⟨"", files⟩).1 with
  | .error _ => []
  | .ok configuration =>
    let layout := configuration.layout
    paths.flatMap fun path =>
      let area := layout.area files path
      [area, layout.folder .api area, layout.folder .suite area]

/-- Write a file that a command added. -/
def save (files : Files) (path : String) : IO Unit := do
  match files.read? path with
  | none => return
  | some text =>
    let here ← IO.currentDir
    if let some folder := Path.parent? path then
      IO.FS.createDirAll (here / folder)
    IO.FS.writeFile (here / path) text

/-- The paths of the reports that a run may write. -/
def reportsOf (around : CommandLine.Surroundings) (files : Files) :
    CommandLine.Command → List String
  | .run o =>
    match ((CommandLine.Commanding.configuration around o.configuration).run.run ⟨"", files⟩).1 with
    | .error _ => []
    | .ok c =>
      (o.report.or c.output.report).toList ++ (o.trace.or c.output.trace).toList
        ++ (o.logFile.or c.output.logFile).toList
  | _ => []

/-- Where the default configuration is kept. -/
def defaultConfiguration : IO (Option String) := do
  match ← IO.getEnv "XDG_CONFIG_HOME", ← IO.getEnv "HOME" with
  | some folder, _ => return some (Path.join folder "stepcase/config.toml")
  | none, some home => return some (Path.join home ".config/stepcase/config.toml")
  | none, none => return none

end Casebook

open Casebook in
/-- Run the program. -/
def main (args : List String) : IO UInt32 := do
  let here ← IO.currentDir
  let names := (Path.components here.toString).map String.ofList
  let now ← Std.Time.Timestamp.now
  let around : CommandLine.Surroundings :=
    { defaultConfiguration := ← defaultConfiguration
      clock := now.toMillisecondsSinceUnixEpoch.val.toNat }
  let nothing : Files := ⟨.empty, names.filter (· ≠ "/")⟩
  let command := CommandLine.Command.parse args
  let files ←
    match command with
    | .error _ => pure nothing
    | .ok c => do
      let files ← (around.defaultConfiguration.toList ++ pathsOf c).foldlM mount nothing
      (areasOf around files c).foldlM mount files
  let ending := CommandLine.execute around files args
  IO.print ending.output
  if let some complaint := ending.complaint then IO.eprintln complaint
  if let .ok c := command then
    for path in reportsOf around files c do
      save ending.files path
  return ending.status.toUInt32
