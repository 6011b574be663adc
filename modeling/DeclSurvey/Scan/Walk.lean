import DeclSurvey.Ignore.Level

/-! # Walking a directory

A walk lists the paths below a directory, without what its ignore files hide.  A directory that is
ignored is not entered, so nothing below it is listed.

`Walk.paths` is the walk; it fails only if the directory it starts from cannot be reached.
`Walk.entries` is what a walk yields to those who follow it: one path after the other, or a
failure. -/

namespace DeclSurvey

namespace Walk

/-- The walk cannot start. -/
structure Failure where
  /-- Where it should start. -/
  root : Text
  /-- Why it cannot. -/
  refusal : Refusal
  deriving DecidableEq, Repr

/-- The words for it. -/
def Failure.message (f : Failure) : Text :=
  f.root ++ ": IO error for operation on ".toList ++ f.root ++ ": ".toList ++ f.refusal.message

/-- What a walk yields at a time: a path, or a failure. -/
abbrev Entry := Except Failure Text

/-- The paths that are yielded before the first failure. -/
def reached : List Entry → List Text
  | [] => []
  | .error _ :: _ => []
  | .ok path :: entries => path :: reached entries

/-- The path that leads from `root` along `names`. -/
def pathOf (root : Text) (names : Place) : Text :=
  names.foldl Path.join root

/-- The absolute path of a place. -/
def absolute (place : Place) : Text :=
  '/' :: Text.joinWith ['/'] place

/-- The levels of the directories on the way down to `names`, the innermost first. -/
def innerLevels (levels : List (Place × Ignore.Level)) (names : Place) : List Ignore.Level :=
  ((List.range names.length).filterMap fun k => levels.lookup (names.take k)).reverse

/-- The levels of the directories above a place, the innermost first. -/
def outerLevels (tree : Tree) (cwd : Place) (respectGitignore : Bool) (place : Place) :
    List Ignore.Level :=
  ((List.range place.length).map fun k =>
    Ignore.Level.ofAncestor tree cwd respectGitignore (absolute (place.take k))).reverse

/-- Whether ignore files hide what is found along `names`, apart from the directories on the way. -/
def isIgnored (levels : List (Place × Ignore.Level)) (outer : List Ignore.Level) (place : Place)
    (root : Text) (names : Place) (isDirectory : Bool) : Bool :=
  let path := Ignore.Level.dropStart "./".toList (pathOf root names)
  let below :=
    Ignore.Level.dropStart ['/']
      (Ignore.Level.dropStart (Ignore.Level.dropStart "./".toList root) path)
  let fullPath := Path.join (absolute place) below
  Ignore.Level.decide? (innerLevels levels names) outer isDirectory path fullPath == some .ignored

/-- Whether a walk comes to what is found along `names`: neither it nor a directory on the way is
ignored. -/
def isReached (ignored : Place → Bool → Bool) (names : Place) (isDirectory : Bool) : Bool :=
  (List.range names.length).all fun k =>
    !ignored (names.take (k + 1)) (k + 1 < names.length || isDirectory)

/-- All paths that a walk from `root` comes to, the root included. -/
def paths (tree : Tree) (cwd : Place) (respectGitignore : Bool) (root : Text) :
    Except Failure (List Text) :=
  match tree.resolve cwd root with
  | .error refusal => .error ⟨root, refusal⟩
  | .ok place =>
    let below := tree.below place
    -- The rules of all directories are read once, before any path is asked about.
    let directories := [] :: (below.filter (·.2.isDirectory)).map (·.1)
    let levels := directories.map fun names =>
      (names, Ignore.Level.ofDirectory tree cwd respectGitignore (pathOf root names))
    let outer := outerLevels tree cwd respectGitignore place
    let ignored := isIgnored levels outer place root
    .ok (root ::
      (below.filter fun (names, n) => isReached ignored names n.isDirectory).map fun (names, _) =>
        pathOf root names)

/-- What a walk from `root` yields. -/
def entries (tree : Tree) (cwd : Place) (respectGitignore : Bool) (root : Text) : List Entry :=
  match paths tree cwd respectGitignore root with
  | .error f => [.error f]
  | .ok walked => walked.map .ok

end Walk

end DeclSurvey
