import DeclSurvey.Command.Outcome

/-! # The program

Reads the part of the file system that a command looks at into a file tree, runs the command on
it, and carries out what the outcome says.  All decisions are made by `Outcome.ofArguments`. -/

namespace DeclSurvey

namespace Program

/-- A text as a string. -/
def string (t : Text) : String := String.ofList t

/-- The place that a path leads to from the working directory, by its text alone. -/
def placeOf (cwd : Place) (path : Text) : Place :=
  (Path.components path).foldl
    (fun place c =>
      match c with
      | .root => []
      | .current => place
      | .parent => place.dropLast
      | .name t => place ++ [t])
    cwd

/-- What the file system holds at a place. -/
def nodeAt? (place : Place) : IO (Option Node) := do
  let path := string (Walk.absolute place)
  try
    let real ← IO.FS.realPath path
    if ← real.isDir then return some .directory
    else if ← real.pathExists then
      try return some (.file (← IO.FS.readBinFile path).toList)
      catch _ => return some .brokenFile
    else return none
  catch _ => return none

/-- Adds a place and the directories on the way to it. -/
def loadPlace (tree : Tree) (place : Place) : IO Tree := do
  let mut tree := tree
  for k in List.range place.length do
    let here := place.take (k + 1)
    if (tree.node? here).isNone then
      match ← nodeAt? here with
      | some n => tree := tree.put here n
      | none => return tree
  return tree

/-- Adds all that is below a directory.  Links to directories are not followed. -/
partial def loadBelow (tree : Tree) (place : Place) : IO Tree := do
  let mut tree := tree
  let real ← IO.FS.realPath (string (Walk.absolute place))
  if ← real.isDir then
    for entry in ← real.readDir do
      let here := place ++ [entry.fileName.toList]
      tree ← loadPlace tree here
      if tree.node? here == some .directory then
        if (← entry.path.symlinkMetadata).type == .dir then
          tree ← loadBelow tree here
  return tree

/-- The files beside a directory that decide what a walk ignores. -/
def ignoreFiles : List Place :=
  [".ignore", ".gitignore", ".git", ".git/info/exclude", ".jj"].map fun name =>
    Text.splitChar '/' name.toList

/-- Adds the directory at a path, all that is below it, and the ignore files above it. -/
def loadDirectory (env : Environment) (tree : Tree) (path : Text) : IO Tree := do
  let place := placeOf env.cwd path
  let mut tree ← loadPlace tree place
  for k in List.range place.length do
    for file in ignoreFiles do
      tree ← loadPlace tree (place.take k ++ file)
  try loadBelow tree place catch _ => return tree

/-- Adds what a scan looks at. -/
def loadScan (env : Environment) (config : Option Text) (path : Text) : IO Tree := do
  let mut tree ← loadPlace {} env.cwd
  let candidates := config.toList ++ Lookup.projectNames.map (Path.join path) ++
    (env.userDir.map (Path.join · Lookup.userName)).toList
  for file in candidates do
    tree ← loadPlace tree (placeOf env.cwd file)
  let source := Lookup.choose (tree.pathExists env.cwd) path config env.userDir
  match Lookup.settings (Configuration.load tree env.cwd) source with
  | .ok settings => loadDirectory env tree (Outcome.scanRoot path settings)
  | .error _ => return tree

/-- The part of the file system that a command line looks at. -/
def load (env : Environment) (args : List Text) : IO Tree := do
  match Request.ofArguments args with
  | .ok (.run i) =>
    match i.command with
    | .inspect path _ => loadPlace (← loadPlace {} env.cwd) (placeOf env.cwd path)
    | .scan path _ _ _ => loadScan env i.config path
    | .init _ => loadPlace {} (env.cwd ++ [Outcome.configName])
  | _ => return {}

/-- Writes every file in which two trees differ. -/
def store (before after : Tree) : IO Unit := do
  for (place, n) in after.nodes do
    if before.node? place != some n then
      match n with
      | .file content => IO.FS.writeBinFile (string (Walk.absolute place)) ⟨content.toArray⟩
      | .directory | .brokenFile => pure ()

end Program

end DeclSurvey

open DeclSurvey in
/-- Runs the command line. -/
def main (args : List String) : IO UInt32 := do
  let args := args.map (·.toList)
  let cwd := Program.placeOf [] (← IO.currentDir).toString.toList
  let home := (← IO.getEnv "HOME").map (·.toList)
  let configDir := (← IO.getEnv "CLASS_EXPLORER_CONFIG_DIR").map (·.toList)
  let env : Environment := { cwd, home, configDir }
  let tree ← Program.load env args
  let outcome := Outcome.ofArguments env tree args
  try Program.store tree outcome.tree
  catch e =>
    IO.eprintln s!"Error: {e}"
    return 1
  for line in outcome.log do
    IO.eprintln (Program.string line.display)
  IO.print (Program.string outcome.output)
  IO.eprint (Program.string outcome.complaint)
  return outcome.exit.toUInt32
