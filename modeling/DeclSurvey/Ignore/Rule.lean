import DeclSurvey.Ignore.Glob
import DeclSurvey.Text.Blank
import DeclSurvey.Text.Lines

/-! # Rules of ignore files

A line of an ignore file is a rule: a glob that makes paths ignored, or kept after `!`.  Of several
rules that match a path the last one decides.

* `Rule.ofLine?` reads a line;
* `Rule.ofContent` reads a file;
* `Rule.verdict?` says what rules make of a path. -/

namespace DeclSurvey

namespace Ignore

/-- What rules say about a path. -/
inductive Verdict where
  /-- It is ignored. -/
  | ignored
  /-- It is kept. -/
  | kept
  deriving DecidableEq, Repr

/-- A rule of an ignore file. -/
structure Rule where
  /-- The paths it speaks of. -/
  glob : Glob
  /-- What it says about them. -/
  verdict : Verdict
  /-- It speaks of directories only. -/
  directoriesOnly : Bool

namespace Rule

/-! ### Reading rules -/

/-- The line without white space at its end, unless that is an escaped space. -/
def trimLine (line : Text) : Text :=
  if "\\ ".toList.isSuffixOf line then line else Text.trimEndBy Text.isBlank line

/-- Takes off the slash that restricts a rule to directories, with a backslash before it. -/
def dropFinalSlash (line : Text) : Bool × Text :=
  if ['/'].isSuffixOf line then
    let line := line.dropLast
    (true, if ['\\'].isSuffixOf line then line.dropLast else line)
  else (false, line)

/-- The glob of a rule in full.  A rule without a slash holds in all directories below; one that
ends in all that is below a directory does not hold for the directory. -/
def fullGlob (anchored : Bool) (line : Text) : Text :=
  let anyDirectory := "**/".toList
  let glob :=
    if anchored || line.contains '/' || anyDirectory.isPrefixOf line || line == "**".toList then line
    else anyDirectory ++ line
  if "/**".toList.isSuffixOf glob then glob ++ "/*".toList else glob

/-- Reads what remains of a line when its first marks are taken off. -/
def ofMarked? (verdict : Verdict) (anchored : Bool) (line : Text) : Option Rule := do
  let (directoriesOnly, line) := dropFinalSlash line
  let glob ← Glob.parse? (fullGlob anchored line)
  return { glob, verdict, directoriesOnly }

/-- Reads a line; comments, empty lines and malformed globs give no rule. -/
def ofLine? (line : Text) : Option Rule :=
  if ['#'].isPrefixOf line then none
  else
    match trimLine line with
    | [] => none
    | '\\' :: '!' :: t => ofMarked? .ignored false ('!' :: t)
    | '\\' :: '#' :: t => ofMarked? .ignored false ('#' :: t)
    | '!' :: '/' :: t => ofMarked? .kept true t
    | '!' :: t => ofMarked? .kept false t
    | '/' :: t => ofMarked? .ignored true t
    | t => ofMarked? .ignored false t

/-- The text of a file up to the first line that is no text. -/
def readableText (content : Bytes) : Text :=
  let scalars := Utf8.scalars content
  let valid := (scalars.takeWhile (·.isSome)).filterMap id
  if valid.length = scalars.length then valid else Text.trimEndBy (· != '\n') valid

/-- The rules of an ignore file, which may start with byte order marks. -/
def ofContent (content : Bytes) : List Rule :=
  (Text.lines ((readableText content).dropWhile (· == '\uFEFF'))).filterMap ofLine?

/-! ### Applying rules -/

/-- Whether a rule speaks of a path. -/
def appliesTo (rule : Rule) (isDirectory : Bool) (path : Text) : Bool :=
  (isDirectory || !rule.directoriesOnly) && rule.glob.accepts (Utf8.encode path)

/-- What the last rule that speaks of a path says about it. -/
def verdict? (rules : List Rule) (isDirectory : Bool) (path : Text) : Option Verdict :=
  (rules.reverse.find? (·.appliesTo isDirectory path)).map (·.verdict)

end Rule

end Ignore

end DeclSurvey
