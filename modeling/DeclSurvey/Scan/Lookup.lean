import DeclSurvey.Facts.Extraction
import DeclSurvey.Scan.Configuration

/-! # Looking up the configuration

The settings of a scan come from the first of these that there is: the file named on the command
line, a file in the scanned directory, the user's file, the built-in settings.  The first choice is
final: if its file cannot be read, nothing else is tried. -/

namespace DeclSurvey

namespace Lookup

/-- The names of a configuration file in a scanned directory, in the order in which they are
tried. -/
def projectNames : List Text := ["class-explorer.toml".toList, ".class-explorer.toml".toList]

/-- The name of the user's configuration file. -/
def userName : Text := "config.toml".toList

/-- The directory in the home directory that holds the user's configuration file. -/
def userDirectory : Text := ".class-explorer".toList

/-- Where settings come from. -/
inductive Source where
  /-- A file named on the command line. -/
  | named (path : Text)
  /-- A file in the scanned directory. -/
  | project (path : Text)
  /-- The user's file. -/
  | user (path : Text)
  /-- No file at all. -/
  | builtIn
  deriving DecidableEq, Repr

/-- The source of the settings for a scan of `directory`: `named` is the file on the command line,
`userDir` the directory of the user's file. -/
def choose (pathExists : Text → Bool) (directory : Text) (named userDir : Option Text) : Source :=
  match named with
  | some path => .named path
  | none =>
    match (projectNames.map (Path.join directory)).find? pathExists with
    | some path => .project path
    | none =>
      match (userDir.map (Path.join · userName)).filter pathExists with
      | some path => .user path
      | none => .builtIn

namespace Source

/-- What is logged when a source is chosen and used. -/
def log : Source → List LogLine
  | named _ | builtIn => []
  | project path => [⟨.debug, "Found project config: ".toList ++ path⟩]
  | user path =>
    [⟨.debug, "Found global config: ".toList ++ path⟩,
      ⟨.info, "Using global config: ".toList ++ path⟩]

/-- The file of a source. -/
def path? : Source → Option Text
  | named path | project path | user path => some path
  | builtIn => none

end Source

/-- No settings came from a file. -/
structure Failure where
  /-- The file. -/
  path : Text
  /-- What is wrong with it. -/
  cause : Configuration.Failure
  deriving DecidableEq, Repr

/-- The settings that a source gives. -/
def settings (load : Text → Except Configuration.Failure Settings) (source : Source) :
    Except Failure Settings :=
  match source.path? with
  | none => .ok {}
  | some path =>
    match load path with
    | .ok s => .ok s
    | .error cause => .error ⟨path, cause⟩

end Lookup

end DeclSurvey
