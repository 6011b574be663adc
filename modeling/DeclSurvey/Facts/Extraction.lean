import DeclSurvey.Facts.Basic
import DeclSurvey.Files.Tree
import DeclSurvey.Log

/-! # Surveying a file

`Extraction.ofPath` reads the file at a path and surveys it.  Content never makes this fail: any
bytes have a text.  It fails only if there is no file to read, and then says so in one way. -/

namespace DeclSurvey

/-- There is no readable file at a path. -/
structure SourceNotFound where
  /-- The path that was asked for. -/
  path : Text
  deriving DecidableEq, Repr

namespace SourceNotFound

/-- What is said when there is no readable file. -/
def message : Text := "There is no such file.".toList

/-- The code of this failure. -/
def code : Text := "class_explorer::source_not_found".toList

/-- What the user can do about it. -/
def help : Text := "check that the path exists and points to a readable file".toList

end SourceNotFound

/-- The survey of a file, with what it logs. -/
structure Extraction where
  /-- What is logged. -/
  log : List LogLine
  /-- The facts, or the failure. -/
  result : Except SourceNotFound Facts

namespace Extraction

/-- Surveys the bytes of the file at `path`. -/
def ofBytes (path : Text) (content : Bytes) : Extraction :=
  let facts := Facts.ofSource (Utf8.decodeLossy content)
  let tally := facts.tally.bracedText
  let atypical : LogLine := ⟨.debug, "Atypical source, declarations ".toList ++ tally⟩
  let done : LogLine :=
    ⟨.debug, "Extracted ".toList ++ path ++ ": ".toList ++ Text.ofNat facts.lineCount ++
      " lines, declarations ".toList ++ tally⟩
  { log := if facts.isAtypical then [atypical, done] else [done]
    result := .ok facts }

/-- Surveys the file at `path`. -/
def ofPath (tree : Tree) (cwd : Place) (path : Text) : Extraction :=
  -- A path that leads to no file is not even tried.
  if !tree.isFile cwd path then { log := [], result := .error ⟨path⟩ }
  else
    match tree.read cwd path with
    | .ok content => ofBytes path content
    | .error refusal =>
      { log := [⟨.debug, "Failed to read ".toList ++ path ++ ": ".toList ++ refusal.message⟩]
        result := .error ⟨path⟩ }

/-- A survey succeeds for each file that can be read, and for nothing else. -/
theorem result_ofPath (tree : Tree) (cwd : Place) (path : Text) :
    (ofPath tree cwd path).result =
      match tree.read cwd path with
      | .ok content => .ok (Facts.ofSource (Utf8.decodeLossy content))
      | .error _ => .error ⟨path⟩ := by
  unfold ofPath
  cases hread : tree.read cwd path with
  | ok content =>
    rw [Tree.isFile_of_read hread]
    rfl
  | error refusal => cases tree.isFile cwd path <;> rfl

end Extraction

end DeclSurvey
