import DeclSurvey.Files.Tree
import DeclSurvey.Scan.Settings
import DeclSurvey.Toml.Document

/-! # Configuration files

The settings of a scan stand in the `scanner` table of a TOML document.  Keys that are not known
do not matter; a known key with a value of the wrong type does.

* `Configuration.parse` reads settings from a text; `Proofs.WrittenSettings` says which written
  texts it accepts, and that it gives back the settings written in them;
* `Configuration.load` reads them from a file. -/

namespace DeclSurvey

namespace Configuration

/-! ### Failures -/

/-- Why a file gives no text. -/
inductive ReadCause where
  /-- The system refuses. -/
  | refused (r : Refusal)
  /-- The bytes are no text. -/
  | notText
  deriving DecidableEq, Repr

namespace ReadCause

/-- The words for it. -/
def message : ReadCause → Text
  | refused r => r.message
  | notText => "stream did not contain valid UTF-8".toList

end ReadCause

/-- Why there are no settings. -/
inductive Failure where
  /-- The file at a path cannot be read. -/
  | unreadable (path : Text) (cause : ReadCause)
  /-- The text is no document, or does not hold settings. -/
  | invalid
  deriving DecidableEq, Repr

namespace Failure

/-- The words for it; what exactly is wrong with a text is left out. -/
def message : Failure → Text
  | unreadable path cause => "failed to read ".toList ++ path ++ ": ".toList ++ cause.message
  | invalid => "invalid config:".toList

/-- The code of a failure. -/
def code : Failure → Text
  | unreadable _ _ => "class_explorer::config::io".toList
  | invalid => "class_explorer::config::parse".toList

end Failure

/-! ### Settings in a document -/

/-- A string. -/
def string? : Toml.Item → Option Text
  | .string t => some t
  | _ => none

/-- A list of strings. -/
def strings? : Toml.Item → Option (List Text)
  | .array items => items.mapM string?
  | _ => none

/-- A truth value. -/
def boolean? : Toml.Item → Option Bool
  | .boolean b => some b
  | _ => none

/-- The value of an optional item, or what stands for it when there is none. -/
def orDefault (read : Toml.Item → Option α) (default : α) : Option Toml.Item → Option α
  | some item => read item
  | none => some default

/-- Settings from the four values that make them up. -/
def settings? (root extensions exclude respect : Option Toml.Item) : Option Settings := do
  let d : Settings := {}
  return { root := ← orDefault string? d.root root
           extensions := ← orDefault strings? d.extensions extensions
           exclude := ← orDefault strings? d.exclude exclude
           respectGitignore := ← orDefault boolean? d.respectGitignore respect }

/-- The settings that an item holds: a table with the values under their keys, or a list of them
in order.  A date holds none of them. -/
def ofItem? : Toml.Item → Option Settings
  | .table _ entries =>
    settings? (entries.lookup "root".toList) (entries.lookup "extensions".toList)
      (entries.lookup "exclude".toList) (entries.lookup "respect_gitignore".toList)
  | .array items => settings? items[0]? items[1]? items[2]? items[3]?
  | .moment _ => some {}
  | _ => none

/-- The settings in a document. -/
def ofDocument? (document : Toml.Entries) : Option Settings :=
  orDefault ofItem? {} (document.get? "scanner".toList)

/-! ### Settings in a file -/

/-- Reads settings from a text. -/
def parse (t : Text) : Except Failure Settings :=
  match (Toml.Document.parse? t).bind ofDocument? with
  | some s => .ok s
  | none => .error .invalid

/-- Reads the text of a file. -/
def readText (tree : Tree) (cwd : Place) (path : Text) : Except ReadCause Text :=
  match tree.read cwd path with
  | .error r => .error (.refused r)
  | .ok content =>
    match Utf8.decode? content with
    | some t => .ok t
    | none => .error .notText

/-- Reads settings from a file. -/
def load (tree : Tree) (cwd : Place) (path : Text) : Except Failure Settings :=
  match readText tree cwd path with
  | .ok t => parse t
  | .error cause => .error (.unreadable path cause)

end Configuration

end DeclSurvey
