import DeclSurvey.Files.Path
import DeclSurvey.Text.Utf8

/-! # File trees

A file tree maps places, which are lists of names from the root down, to files and directories.
There are no links: each place is a node of its own, and what is written at one place is not seen at
another.  The program resolves links when it reads a tree from the file system: a link to a file
becomes that file, and a link to a directory, where a walk comes to it, an empty directory.  What
`Proofs.Effects` says of the changes that runs make is about trees without links, too.

* `Tree.resolve` finds the place that a path leads to, or the reason why there is none;
* `Tree.read` and `Tree.write` are reading and writing a whole file;
* `Tree.put` and `Tree.remove` change the tree without asking. -/

namespace DeclSurvey

/-- Names from the root down. -/
abbrev Place := List Text

/-- What a tree holds at a place. -/
inductive Node where
  /-- A directory. -/
  | directory
  /-- A file with its content. -/
  | file (content : Bytes)
  /-- A file of which neither reading nor writing succeeds. -/
  | brokenFile
  deriving DecidableEq, Repr

namespace Node

/-- Whether a node is a directory. -/
def isDirectory : Node → Bool
  | directory => true
  | file _ | brokenFile => false

/-- Whether a node is a file. -/
def isFile (n : Node) : Bool := !n.isDirectory

end Node

/-- Why the system refuses an operation on a path. -/
inductive Refusal where
  /-- Nothing is there. -/
  | notFound
  /-- A name stands behind something that is no directory. -/
  | notDirectory
  /-- A directory was taken for a file. -/
  | isDirectory
  /-- The device fails. -/
  | device
  deriving DecidableEq, Repr

namespace Refusal

/-- The words of the system. -/
def message : Refusal → Text
  | notFound => "No such file or directory (os error 2)".toList
  | notDirectory => "Not a directory (os error 20)".toList
  | isDirectory => "Is a directory (os error 21)".toList
  | device => "Input/output error (os error 5)".toList

end Refusal

/-- The nodes of a file tree with their places.  The root itself is always a directory. -/
structure Tree where
  /-- All nodes below the root. -/
  nodes : List (Place × Node) := []
  deriving DecidableEq, Repr, Inhabited

namespace Tree

/-! ### Places -/

/-- The node at a place. -/
def node? (tree : Tree) (place : Place) : Option Node :=
  if place.isEmpty then some .directory else tree.nodes.lookup place

/-- The nodes strictly below a place, each with the names that lead to it from there. -/
def below (tree : Tree) (place : Place) : List (Place × Node) :=
  tree.nodes.filterMap fun (p, n) =>
    if place.isPrefixOf p && place.length < p.length then some (p.drop place.length, n) else none

/-- Puts a node at a place of a list, in the stead of what was there. -/
def putIn (place : Place) (n : Node) : List (Place × Node) → List (Place × Node)
  | [] => [(place, n)]
  | (p, m) :: nodes => if p = place then (p, n) :: nodes else (p, m) :: putIn place n nodes

/-- Puts a node at a place, in the stead of what was there. -/
def put (tree : Tree) (place : Place) (n : Node) : Tree :=
  { nodes := putIn place n tree.nodes }

theorem lookup_putIn (place p : Place) (n : Node) (nodes : List (Place × Node)) :
    (putIn place n nodes).lookup p = if p = place then some n else nodes.lookup p := by
  induction nodes with
  | nil =>
    by_cases h : p = place
    · simp [putIn, h]
    · simp [putIn, List.lookup_cons, h, beq_false_of_ne h]
  | cons entry nodes ih =>
    obtain ⟨q, m⟩ := entry
    by_cases hp : p = q
    · -- The first entry is the one that is looked up.
      subst hp
      by_cases hq : p = place <;> simp [putIn, hq]
    · by_cases hq : q = place
      · subst hq
        simp [putIn, List.lookup_cons, hp, beq_false_of_ne hp]
      · simp [putIn, List.lookup_cons, hq, beq_false_of_ne hp, ih]

/-- What is put at a place is found there, and all else is found where it was. -/
theorem node?_put {tree : Tree} {place : Place} {n : Node} (h : place ≠ []) (p : Place) :
    (tree.put place n).node? p = if p = place then some n else tree.node? p := by
  by_cases hp : p = []
  · subst hp
    simp [node?, Ne.symm h]
  · simp [node?, put, hp, lookup_putIn]

/-- Makes every directory on the way to a place. -/
def makeParents (tree : Tree) (place : Place) : Tree :=
  (List.range place.length).foldl
    (fun t k => if (t.node? (place.take k)).isSome then t else t.put (place.take k) .directory) tree

/-- Removes a place and all below it. -/
def remove (tree : Tree) (place : Place) : Tree :=
  { nodes := tree.nodes.filter fun (p, _) => !place.isPrefixOf p }

/-! ### Following paths -/

/-- Follows one part of a path from a place. -/
def follow (tree : Tree) (place : Place) (part : Text) : Except Refusal Place :=
  match tree.node? place with
  | none => .error .notFound
  | some n =>
    if !n.isDirectory then .error .notDirectory
    else if part.isEmpty || part == ['.'] then .ok place
    else if part == ['.', '.'] then .ok place.dropLast
    else if (tree.node? (place ++ [part])).isSome then .ok (place ++ [part])
    else .error .notFound

/-- Where a path starts: at the root, or in the working directory. -/
def start (cwd : Place) (path : Text) : Place :=
  if Path.isAbsolute path then [] else cwd

/-- The place that a path leads to. -/
def resolve (tree : Tree) (cwd : Place) (path : Text) : Except Refusal Place :=
  if path.isEmpty then .error .notFound
  else (Text.splitChar '/' path).foldlM tree.follow (start cwd path)

/-- The node that a path leads to. -/
def find (tree : Tree) (cwd : Place) (path : Text) : Except Refusal Node := do
  let place ← tree.resolve cwd path
  match tree.node? place with
  | some n => .ok n
  | none => .error .notFound

/-- Whether a path leads anywhere. -/
def pathExists (tree : Tree) (cwd : Place) (path : Text) : Bool :=
  match tree.find cwd path with
  | .ok _ => true
  | .error _ => false

/-- Whether a path leads to a file. -/
def isFile (tree : Tree) (cwd : Place) (path : Text) : Bool :=
  match tree.find cwd path with
  | .ok n => n.isFile
  | .error _ => false

/-! ### Reading and writing -/

/-- The content of the file that a path leads to. -/
def read (tree : Tree) (cwd : Place) (path : Text) : Except Refusal Bytes := do
  match ← tree.find cwd path with
  | .directory => .error .isDirectory
  | .brokenFile => .error .device
  | .file content => .ok content

/-- Only files are read. -/
theorem isFile_of_read {tree : Tree} {cwd : Place} {path : Text} {content : Bytes}
    (h : tree.read cwd path = .ok content) : tree.isFile cwd path = true := by
  unfold read at h
  unfold isFile
  cases hfind : tree.find cwd path with
  | error refusal =>
    rw [hfind] at h
    cases h
  | ok n =>
    rw [hfind] at h
    cases n with
    | directory => cases h
    | file c => rfl
    | brokenFile => rfl

/-- The tree after `content` is written to the file `name` in the directory `place`. -/
def write (tree : Tree) (place : Place) (name : Text) (content : Bytes) : Except Refusal Tree :=
  match tree.node? place with
  | none => .error .notFound
  | some (.file _) | some .brokenFile => .error .notDirectory
  | some .directory =>
    match tree.node? (place ++ [name]) with
    | some .directory => .error .isDirectory
    | some .brokenFile => .error .device
    | some (.file _) | none => .ok (tree.put (place ++ [name]) (.file content))

end Tree

end DeclSurvey
