import DeclSurvey.Facts.Sheet

/-! # Formats

Facts are shown in one of three formats: as text with all fields, as JSON, or on one line. -/

namespace DeclSurvey

/-- The forms in which facts are shown. -/
inductive Format where
  /-- All fields, one on each line. -/
  | text
  /-- JSON. -/
  | json
  /-- One line for each file. -/
  | compact
  deriving DecidableEq, Repr

namespace Format

/-- The name of a format on the command line. -/
def name : Format → Text
  | text => "text".toList
  | json => "json".toList
  | compact => "compact".toList

/-- The format of a name. -/
def ofName? (t : Text) : Option Format :=
  [text, json, compact].find? (·.name == t)

end Format

namespace Facts

/-- One line on a file: its head and its qualified name, or its tally if it is atypical. -/
def compactLine (path : Text) (f : Facts) : Text :=
  if f.isAtypical then path ++ ": atypical (".toList ++ f.tally.itemsText ++ [')']
  else path ++ ": ".toList ++ f.fullName ++ ' ' :: f.qualifiedName

/-- The facts of one file in a format. -/
def render (format : Format) (path : Text) (f : Facts) : Text :=
  match format with
  | .text => f.display
  | .json => f.sheet.toJson.render ++ ['\n']
  | .compact => f.compactLine path ++ ['\n']

end Facts

end DeclSurvey
