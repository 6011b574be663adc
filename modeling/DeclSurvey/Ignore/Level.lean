import DeclSurvey.Files.Tree
import DeclSurvey.Ignore.Rule

/-! # Ignore files of a directory

Each directory can hold ignore files, whose rules speak of the paths below it.  The rules of a
directory win over those of the directories above; where the rules come from decides between rules
of different files.

* `Level` holds the rules of one directory;
* `Level.ofDirectory` collects them;
* `Level.decide?` asks the levels of a path, from the innermost directory outwards. -/

namespace DeclSurvey

namespace Ignore

/-- The rules that the ignore files of one directory hold. -/
structure Level where
  /-- The path of the directory. -/
  base : Text
  /-- The directory is the top of a repository. -/
  isRepository : Bool
  /-- Rules for everyone. -/
  general : List Rule
  /-- Rules of the repository. -/
  shared : List Rule
  /-- Rules of this copy of the repository. -/
  personal : List Rule

namespace Level

/-! ### Collecting rules -/

/-- The rules in the file at a path; a file that cannot be read holds none. -/
def rulesAt (tree : Tree) (cwd : Place) (path : Text) : List Rule :=
  match tree.read cwd path with
  | .ok content => Rule.ofContent content
  | .error _ => []

/-- The first line of the file at a path. -/
def firstLine? (tree : Tree) (cwd : Place) (path : Text) : Option Text :=
  match tree.read cwd path with
  | .ok content => (Text.lines (Rule.readableText content)).head?
  | .error _ => none

/-- The directory with the data of the repository whose top is `base`.  A file in its place names
another directory, which names the one that several copies share. -/
def repositoryData? (tree : Tree) (cwd : Place) (base : Text) : Option Text :=
  let entry := Path.join base ".git".toList
  if tree.isFile cwd entry then do
    let line ← firstLine? tree cwd entry
    let data ← Text.afterPrefix? "gitdir: ".toList line
    let common ← firstLine? tree cwd (Path.join data "commondir".toList)
    return if ['.'].isPrefixOf common then Path.join data common else common
  else some entry

/-- Whether a directory is the top of a repository. -/
def isRepositoryAt (tree : Tree) (cwd : Place) (base : Text) : Bool :=
  tree.pathExists cwd (Path.join base ".git".toList) ||
    tree.pathExists cwd (Path.join base ".jj".toList)

/-- The rules of the directory at path `base`; those of the repository count only if
`respectGitignore` says so. -/
def ofDirectory (tree : Tree) (cwd : Place) (respectGitignore : Bool) (base : Text) : Level :=
  { base
    isRepository := isRepositoryAt tree cwd base
    general := rulesAt tree cwd (Path.join base ".ignore".toList)
    shared := if respectGitignore then rulesAt tree cwd (Path.join base ".gitignore".toList) else []
    personal :=
      match repositoryData? tree cwd base with
      | some data => rulesAt tree cwd (Path.join data "info/exclude".toList)
      | none => [] }

/-- The rules of a directory above the scanned one.  It makes a repository only if the rules of
repositories count. -/
def ofAncestor (tree : Tree) (cwd : Place) (respectGitignore : Bool) (base : Text) : Level :=
  let level := ofDirectory tree cwd respectGitignore base
  { level with isRepository := respectGitignore && level.isRepository }

/-! ### Asking levels -/

/-- Drops a text that a path starts with. -/
def dropStart (start path : Text) : Text :=
  (Text.afterPrefix? start path).getD path

/-- The path as the rules of a level see it: from the directory of the level. -/
def pathFrom (base path : Text) : Text :=
  let base := dropStart "./".toList base
  let path := dropStart "./".toList path
  if Path.components base == [.current] || !path.contains '/' then path
  else
    match Text.afterPrefix? base path with
    | some rest => dropStart ['/'] rest
    | none => path

/-- What has been found out about a path so far. -/
structure Findings where
  /-- What general rules say. -/
  general : Option Verdict := none
  /-- What rules of a repository say. -/
  shared : Option Verdict := none
  /-- What rules of a copy say. -/
  personal : Option Verdict := none
  /-- The top of a repository was passed. -/
  leftRepository : Bool := false

/-- Asks one level about a path, for what is not yet found out.  Rules of repositories are asked
only `inRepository` and up to its top. -/
def ask (inRepository isDirectory : Bool) (path : Text) (found : Findings) (level : Level) :
    Findings :=
  let seen := pathFrom level.base path
  let askRules (rules : List Rule) : Option Verdict := Rule.verdict? rules isDirectory seen
  -- The rules of a repository end at its top, whose own rules still count.
  let open_ := inRepository && !found.leftRepository
  { general := found.general.or (askRules level.general)
    shared := if open_ then found.shared.or (askRules level.shared) else found.shared
    personal := if open_ then found.personal.or (askRules level.personal) else found.personal
    leftRepository := found.leftRepository || level.isRepository }

/-- What the ignore files say about a path: `inner` are the levels from its directory up to the
scanned one and see it as `path`, `outer` are those above and see it as `fullPath`.  General rules
come first, then those of a repository, then those of a copy. -/
def decide? (inner outer : List Level) (isDirectory : Bool) (path fullPath : Text) :
    Option Verdict :=
  let inRepository := inner.any (·.isRepository) || outer.any (·.isRepository)
  let found := inner.foldl (ask inRepository isDirectory path) {}
  let found := outer.foldl (ask inRepository isDirectory fullPath) found
  (found.general.or found.shared).or found.personal

end Level

end Ignore

end DeclSurvey
