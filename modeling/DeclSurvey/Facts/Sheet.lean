import DeclSurvey.Facts.Basic
import DeclSurvey.Text.Json

/-! # The sheet of a file

The facts of a file and the answers to all queries, as a sheet of named values in the order of
their names.  A sheet is shown as one `name: value` line for each field, or as a JSON object. -/

namespace DeclSurvey

/-- A value on a sheet. -/
inductive Value where
  /-- A text. -/
  | text (t : Text)
  /-- A count. -/
  | count (n : Nat)
  /-- A yes or no. -/
  | flag (b : Bool)
  /-- A list of texts. -/
  | list (ts : List Text)
  deriving DecidableEq, Repr

namespace Value

/-- How an empty list is shown. -/
def emptyListMark : Text := "[]".toList

/-- A value as it is shown: flags as 0 and 1, list items with commas between them. -/
def display : Value → Text
  | text t => t
  | count n => Text.ofNat n
  | flag b => if b then ['1'] else ['0']
  | list [] => emptyListMark
  | list ts => Text.joinWith ", ".toList ts

/-- A value as JSON. -/
def toJson : Value → Json
  | text t => .string t
  | count n => .number n
  | flag b => .boolean b
  | list ts => .array (ts.map Json.string)

end Value

/-- A sheet: names with their values. -/
abbrev Sheet := List (Text × Value)

namespace Sheet

/-- One line for each field. -/
def display (sheet : Sheet) : Text :=
  sheet.flatMap fun (key, value) => key ++ ": ".toList ++ value.display ++ ['\n']

/-- An object with a field for each name. -/
def toJson (sheet : Sheet) : Json :=
  .object (sheet.map fun (key, value) => (key, value.toJson))

end Sheet

namespace Facts

/-- The fields of a sheet with what they hold, in ascending order of their names. -/
def fields : List (Text × (Facts → Value)) :=
  [("get_class_name".toList, fun f => .text f.name),
    ("get_class_type".toList, fun f => .text f.keyword),
    ("get_constants".toList, fun f => .list f.members.constants),
    ("get_enum_cases".toList, fun f => .list f.members.cases),
    ("get_extends".toList, fun f => .text f.heading.parent),
    ("get_full_class_name".toList, fun f => .text f.fullName),
    ("get_implements".toList, fun f => .list f.heading.interfaces),
    ("get_imports".toList, fun f => .list f.imports),
    ("get_lines_count".toList, fun f => .count f.lineCount),
    ("get_methods".toList, fun f => .list f.methods),
    ("get_namespace".toList, fun f => .text f.namespaceName),
    ("get_properties".toList, fun f => .list f.members.properties),
    ("get_qualified_name".toList, fun f => .text f.qualifiedName),
    ("has_abstract_methods".toList, fun f => .flag f.hasAbstractMethods),
    ("has_constructor".toList, fun f => .flag f.hasConstructor),
    ("is_abstract".toList, fun f => .flag f.isAbstract),
    ("is_atypical_class".toList, fun f => .flag f.isAtypical),
    ("is_class".toList, fun f => .flag (f.isKind .class_)),
    ("is_enum".toList, fun f => .flag (f.isKind .enum)),
    ("is_explicit_abstract".toList, fun f => .flag f.isExplicitAbstract),
    ("is_final".toList, fun f => .flag f.isFinal),
    ("is_implicit_abstract".toList, fun f => .flag f.isImplicitAbstract),
    ("is_interface".toList, fun f => .flag (f.isKind .interface)),
    ("is_readonly".toList, fun f => .flag f.isReadonly),
    ("is_trait".toList, fun f => .flag (f.isKind .trait))]

/-- The sheet of a file. -/
def sheet (f : Facts) : Sheet :=
  fields.map fun (key, value) => (key, value f)

/-- The facts as `name: value` lines. -/
def display (f : Facts) : Text := f.sheet.display

/-- The names of the fields ascend, so none occurs twice. -/
theorem fields_ascending : (fields.map (·.1)).Pairwise (· < ·) := by
  decide

end Facts

end DeclSurvey
