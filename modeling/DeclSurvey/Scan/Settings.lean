import DeclSurvey.Files.Path
import DeclSurvey.Scan.Pattern

/-! # Settings of a scan

Which files a scan picks up: below which directory, with which extensions, and which of them are
excluded. -/

namespace DeclSurvey

/-- What a scan can be told. -/
structure Settings where
  /-- The directory to scan, seen from the given path unless it is absolute. -/
  root : Text := ['.']
  /-- The extensions of the files to survey. -/
  extensions : List Text := ["php".toList]
  /-- Patterns of paths to leave out. -/
  exclude : List Text := []
  /-- Whether the ignore files of a repository count. -/
  respectGitignore : Bool := true
  deriving DecidableEq, Repr, Inhabited

namespace Settings

/-- The extensions that are surveyed unless the settings say otherwise. -/
def defaultExtensions : List Text := ({} : Settings).extensions

/-- Whether two settings agree, where roots with the same components are the same. -/
def agrees (s r : Settings) : Bool :=
  Path.components s.root == Path.components r.root && s.extensions == r.extensions &&
    s.exclude == r.exclude && s.respectGitignore == r.respectGitignore

/-- Whether a path has one of the extensions; dots that an extension starts with do not count. -/
def matchesExtension (s : Settings) (path : Text) : Bool :=
  match Path.extension? path with
  | none => false
  | some ext => s.extensions.any fun wanted => wanted.dropWhile (· == '.') == ext

/-- A pattern without its parts for any directories. -/
def plainPart (pattern : Text) : Text :=
  Text.removeAll "/**".toList (Text.removeAll "**/".toList pattern)

/-- Whether one pattern excludes a path: it matches the path, or what is plain in it occurs
there. -/
def excludedBy (path pattern : Text) : Bool :=
  ((Pattern.parse? pattern).any fun p => p.accepts path) ||
    (!(plainPart pattern).isEmpty && Text.occursIn (plainPart pattern) path)

/-- Whether the settings exclude a path, given as seen from the root of the scan. -/
def isExcluded (s : Settings) (path : Text) : Bool :=
  s.exclude.any (excludedBy path)

/-- The settings with further patterns to leave out. -/
def excluding (s : Settings) (patterns : List Text) : Settings :=
  { s with exclude := s.exclude ++ patterns }

theorem isExcluded_excluding (s : Settings) (patterns : List Text) (path : Text) :
    (s.excluding patterns).isExcluded path =
      (s.isExcluded path || patterns.any (excludedBy path)) := by
  simp [isExcluded, excluding, List.any_append]

end Settings

end DeclSurvey
