import DeclSurvey.Facts.Extraction
import DeclSurvey.Facts.Format

/-! # Reports

A report holds the facts of the files that a scan surveys, and counts them.  It is shown as text,
as JSON, or with one line for each file. -/

namespace DeclSurvey

/-- A file in a report. -/
structure ReportEntry where
  /-- Its path, from the root of the scan. -/
  path : Text
  /-- What was found in it. -/
  facts : Facts
  deriving DecidableEq, Repr

/-- What a scan finds. -/
structure Report where
  /-- The files that are reported, in the order of the scan. -/
  entries : List ReportEntry := []
  /-- How many files were surveyed. -/
  checked : Nat := 0
  /-- How many of them are atypical. -/
  atypical : Nat := 0
  deriving DecidableEq, Repr, Inhabited

namespace Report

/-- Puts a file in front of a report; a typical one is only counted with `atypicalOnly`. -/
def add (root : Text) (atypicalOnly : Bool) (path : Text) (facts : Facts) (report : Report) :
    Report :=
  { entries :=
      if facts.isAtypical || !atypicalOnly then ⟨Path.relativeTo root path, facts⟩ :: report.entries
      else report.entries
    checked := report.checked + 1
    atypical := report.atypical + if facts.isAtypical then 1 else 0 }

/-- The report on files.  Those that cannot be read are passed over. -/
def ofFiles (extract : Text → Extraction) (root : Text) (atypicalOnly : Bool) :
    List Text → Report
  | [] => {}
  | path :: paths =>
    match (extract path).result with
    | .ok facts => add root atypicalOnly path facts (ofFiles extract root atypicalOnly paths)
    | .error _ => ofFiles extract root atypicalOnly paths

/-- What is logged while files are surveyed. -/
def log (extract : Text → Extraction) (paths : List Text) : List LogLine :=
  paths.flatMap fun path =>
    (extract path).log ++
      match (extract path).result with
      | .ok _ => []
      | .error _ =>
        [⟨.warn, "Skipping ".toList ++ path ++ ": ".toList ++ SourceNotFound.message⟩]

/-! ### Showing reports -/

/-- The last line of a report, in yellow if a file is atypical and in green otherwise. -/
def summary (report : Report) : Text :=
  (if report.atypical > 0 then "\x1b[33m".toList else "\x1b[32m".toList) ++
    "Inspected ".toList ++ Text.ofNat report.checked ++ " file(s), ".toList ++
    Text.ofNat report.atypical ++ " atypical".toList ++ "\x1b[0m\n".toList

/-- A file of a report with all its fields. -/
def entryText (e : ReportEntry) : Text :=
  "== ".toList ++ e.path ++ ['\n'] ++ e.facts.display ++ ['\n']

/-- A file of a report on one line. -/
def entryLine (e : ReportEntry) : Text :=
  e.facts.compactLine e.path ++ ['\n']

/-- A file of a report as JSON. -/
def entryJson (e : ReportEntry) : Json :=
  .object [("path".toList, .string e.path), ("record".toList, e.facts.sheet.toJson)]

/-- A report as JSON. -/
def toJson (report : Report) : Json :=
  .object
    [("atypical".toList, .number report.atypical),
      ("files".toList, .array (report.entries.map entryJson)),
      ("files_checked".toList, .number report.checked)]

/-- A report in a format. -/
def render (format : Format) (report : Report) : Text :=
  match format with
  | .text => report.entries.flatMap entryText ++ report.summary
  | .json => report.toJson.render ++ ['\n']
  | .compact => report.entries.flatMap entryLine ++ report.summary

end Report

end DeclSurvey
