import DeclSurvey.Command.Request
import DeclSurvey.Scan.Discovery
import DeclSurvey.Scan.Lookup
import DeclSurvey.Scan.Report

/-! # Running a command

A run takes a file tree and a command line to an outcome: what is printed and logged, the exit
code, and the file tree afterwards.

* `Outcome.inspect`, `Outcome.scan` and `Outcome.init` are the commands;
* `Outcome.ofArguments` runs a command line, `Outcome.treeAfter` a sequence of them.

Only `init` changes the tree, and only when it succeeds. -/

namespace DeclSurvey

/-- Where a program runs. -/
structure Environment where
  /-- The working directory. -/
  cwd : Place
  /-- The path of the home directory. -/
  home : Option Text
  /-- The directory for the user's configuration that the environment names. -/
  configDir : Option Text
  deriving DecidableEq, Repr

namespace Environment

/-- The directory of the user's configuration file. -/
def userDir (env : Environment) : Option Text :=
  env.configDir.or (env.home.map (Path.join · Lookup.userDirectory))

end Environment

/-- What a run leaves behind. -/
structure Outcome where
  /-- The exit code. -/
  exit : Nat := 0
  /-- What is printed. -/
  output : Text := []
  /-- What is logged. -/
  log : List LogLine := []
  /-- What is said about a failure. -/
  complaint : Text := []
  /-- The file tree afterwards. -/
  tree : Tree

namespace Outcome

/-! ### Failures -/

/-- A complaint with its causes. -/
def complaintText (message : Text) (causes : List Text) : Text :=
  let intro := "Error: ".toList ++ message ++ ['\n']
  let heading := "\nCaused by:\n".toList
  match causes with
  | [] => intro
  | [cause] => intro ++ heading ++ "    ".toList ++ cause ++ ['\n']
  | _ =>
    intro ++ heading ++
      causes.zipIdx.flatMap fun (cause, k) =>
        "    ".toList ++ Text.ofNat k ++ ": ".toList ++ cause ++ ['\n']

/-- The complaint that a configuration file gives no settings. -/
def lookupComplaint (f : Lookup.Failure) : Text :=
  let message := "Failed to load ".toList ++ f.path
  match f.cause with
  | .unreadable _ cause => complaintText message [f.cause.message, cause.message]
  -- What is wrong with the text would follow on the same line.
  | .invalid => (complaintText message [f.cause.message]).dropLast

/-- The complaint that there is no file to survey. -/
def sourceComplaint : Text :=
  SourceNotFound.code ++ "\n\n  × ".toList ++ SourceNotFound.message ++ "\n  help: ".toList ++
    SourceNotFound.help ++ "\n\n".toList

/-- A run that fails and changes nothing. -/
def failure (tree : Tree) (log : List LogLine) (complaint : Text) : Outcome :=
  { exit := 1, log, complaint, tree }

/-! ### Commands -/

/-- Surveys one file. -/
def inspect (env : Environment) (tree : Tree) (path : Text) (format : Format) : Outcome :=
  let extraction := Extraction.ofPath tree env.cwd path
  match extraction.result with
  | .error _ => failure tree extraction.log sourceComplaint
  | .ok facts =>
    let remark : LogLine :=
      ⟨.info, path ++
        " does not hold exactly one declaration, structure is not extracted".toList⟩
    { output := facts.render format path
      log := extraction.log ++ if facts.isAtypical then [remark] else []
      tree }

/-- The root of a scan: that of the settings, seen from the given path. -/
def scanRoot (path : Text) (settings : Settings) : Text :=
  Path.join path settings.root

/-- Surveys the files among what a walk from `root` yields. -/
def scanWalk (env : Environment) (tree : Tree) (log : List LogLine) (root : Text)
    (settings : Settings) (format : Format) (atypicalOnly : Bool) (entries : List Walk.Entry) :
    Outcome :=
  let isFile := tree.isFile env.cwd
  let log := log ++ Discovery.log isFile settings root (Walk.reached entries)
  match Discovery.ofWalk isFile settings root entries with
  | .error f => failure tree log (complaintText f.message [])
  | .ok files =>
    let extract := Extraction.ofPath tree env.cwd
    let count : LogLine :=
      ⟨.info, "Inspecting ".toList ++ Text.ofNat files.length ++ " files".toList⟩
    { output := (Report.ofFiles extract root atypicalOnly files).render format
      log := log ++ [count] ++ Report.log extract files
      tree }

/-- Surveys the files below a root. -/
def scanFrom (env : Environment) (tree : Tree) (log : List LogLine) (root : Text)
    (settings : Settings) (format : Format) (atypicalOnly : Bool) : Outcome :=
  scanWalk env tree log root settings format atypicalOnly
    (Walk.entries tree env.cwd settings.respectGitignore root)

/-- Surveys the files below a directory. -/
def scan (env : Environment) (tree : Tree) (config : Option Text) (path : Text) (format : Format)
    (exclude : List Text) (atypicalOnly : Bool) : Outcome :=
  let source := Lookup.choose (tree.pathExists env.cwd) path config env.userDir
  match Lookup.settings (Configuration.load tree env.cwd) source with
  | .error f => failure tree source.log (lookupComplaint f)
  | .ok settings =>
    let settings := settings.excluding exclude
    scanFrom env tree source.log (scanRoot path settings) settings format atypicalOnly

/-- The configuration file that `init` writes. -/
def configName : Text := "class-explorer.toml".toList

/-- What `init` writes. -/
def defaultConfig : Text :=
  ("# class-explorer configuration\n\n" ++
    "[scanner]\n" ++
    "# Directory to scan, relative to the scanned path (default: \".\")\n" ++
    "# root = \"./src\"\n\n" ++
    "# File extensions to inspect\n" ++
    "extensions = [\"php\"]\n\n" ++
    "# Path patterns to skip\n" ++
    "exclude = [\n" ++
    "    \"**/vendor/**\",\n" ++
    "    \"**/var/cache/**\",\n" ++
    "]\n\n" ++
    "# Respect .gitignore files\n" ++
    "respect_gitignore = true\n").toList

/-- What `init` prints. -/
def initOutput : Text :=
  "Created ".toList ++ configName ++ "\n\nNext steps:\n  1. Edit ".toList ++ configName ++
    " to adjust the scanned files\n  2. Run: class-explorer scan\n".toList

/-- Writes a configuration file, over one that is there only by force. -/
def init (env : Environment) (tree : Tree) (force : Bool) : Outcome :=
  let path := "./".toList ++ configName
  if tree.pathExists env.cwd path && !force then
    failure tree []
      (complaintText
        ("Configuration file already exists at ".toList ++ path ++
          ". Use --force to overwrite.".toList) [])
  else
    match tree.write env.cwd configName (Utf8.encode defaultConfig) with
    | .ok tree => { output := initOutput, tree }
    | .error refusal => failure tree [] (complaintText refusal.message [])

/-! ### Runs -/

/-- What is printed for the version. -/
def versionText : Text := "class-explorer 0.1.0\n".toList

/-- What is printed to explain the command line. -/
def helpText : Text :=
  ("Usage: class-explorer [-v] [-c CONFIG] COMMAND\n\n" ++
    "Commands:\n" ++
    "  inspect FILE [-f FORMAT]\n" ++
    "  scan [PATH] [-f FORMAT] [-e PATTERN]... [--atypical-only]\n" ++
    "  init [--force]\n\n" ++
    "Formats: text, json, compact\n").toList

/-- The complaint that a command line is not understood. -/
def usageComplaint (e : UsageError) : Text :=
  "error: ".toList ++ e.message ++ "\n\n".toList ++ helpText

/-- Runs a command. -/
def ofInvocation (env : Environment) (tree : Tree) (i : Invocation) : Outcome :=
  let outcome :=
    match i.command with
    | .inspect path format => inspect env tree path format
    | .scan path format exclude atypicalOnly =>
      scan env tree i.config path format exclude atypicalOnly
    | .init force => init env tree force
  { outcome with log := LogLine.kept i.verbose outcome.log }

/-- Runs a command line.  One that is not understood has the exit code 2. -/
def ofArguments (env : Environment) (tree : Tree) (args : List Text) : Outcome :=
  match Request.ofArguments args with
  | .error e => { exit := 2, complaint := usageComplaint e, tree }
  | .ok .version => { output := versionText, tree }
  | .ok .help => { output := helpText, tree }
  | .ok (.run i) => ofInvocation env tree i

/-- The file tree after a sequence of command lines. -/
def treeAfter (env : Environment) (tree : Tree) (runs : List (List Text)) : Tree :=
  runs.foldl (fun t args => (ofArguments env t args).tree) tree

end Outcome

end DeclSurvey
