import DeclSurvey.Facts.Extraction
import DeclSurvey.Scan.Settings
import DeclSurvey.Scan.Walk

/-! # Discovery of files

Of the paths that a walk comes to, a scan surveys the files that have one of the extensions and
that no pattern excludes, in the order of their paths. -/

namespace DeclSurvey

namespace Discovery

/-- Whether the settings pick a path for the scan, patterns apart. -/
def isCandidate (isFile : Text → Bool) (settings : Settings) (path : Text) : Bool :=
  isFile path && settings.matchesExtension path

/-- Whether a pattern excludes a path below `root`. -/
def isExcluded (settings : Settings) (root path : Text) : Bool :=
  settings.isExcluded (Path.relativeTo root path)

/-- The files to survey among the paths of a walk, in order. -/
def select (isFile : Text → Bool) (settings : Settings) (root : Text) (walked : List Text) :
    List Text :=
  (walked.filter fun path =>
    isCandidate isFile settings path && !isExcluded settings root path).mergeSort Path.le

/-- A line of the log for each candidate that a pattern excludes. -/
def log (isFile : Text → Bool) (settings : Settings) (root : Text) (walked : List Text) :
    List LogLine :=
  (walked.filter fun path =>
    isCandidate isFile settings path && isExcluded settings root path).map fun path =>
      ⟨.debug, "Excluded ".toList ++ path⟩

/-- The files to survey among what a walk yields.  The first failure ends the discovery. -/
def ofWalk (isFile : Text → Bool) (settings : Settings) (root : Text)
    (entries : List Walk.Entry) : Except Walk.Failure (List Text) :=
  (entries.mapM id).map (select isFile settings root)

end Discovery

end DeclSurvey
