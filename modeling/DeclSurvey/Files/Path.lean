import DeclSurvey.Text.Basic

/-! # Paths

A path is a text with slashes.  What it means is its list of components: repeated slashes and
dots in the middle do not count.

* `Path.components` reads a path, `Path.key` is the key under which paths are ordered;
* `Path.join` puts a path behind another;
* `Path.extension?` is what follows the last dot of the last name;
* `Path.relativeTo` drops a leading directory. -/

namespace DeclSurvey

namespace Path

/-- A step of a path. -/
inductive Component where
  /-- The slash that an absolute path starts with. -/
  | root
  /-- The dot that a relative path starts with. -/
  | current
  /-- Two dots. -/
  | parent
  /-- A name. -/
  | name (t : Text)
  deriving DecidableEq, Repr

namespace Component

/-- Orders components: root, dot, two dots, then names by their characters. -/
def key : Component → List Nat
  | root => [0]
  | current => [1]
  | parent => [2]
  | name t => 3 :: t.map Char.toNat

/-- The text of a component that is not the root. -/
def text : Component → Text
  | root => []
  | current => ['.']
  | parent => ['.', '.']
  | name t => t

/-- The component that a part between slashes stands for, if it counts. -/
def ofPart? (part : Text) : Option Component :=
  if part.isEmpty || part == ['.'] then none
  else if part == ['.', '.'] then some parent
  else some (name part)

end Component

/-- Whether a path starts at the root. -/
def isAbsolute (p : Text) : Bool :=
  ['/'].isPrefixOf p

/-- The components of a path. -/
def components (p : Text) : List Component :=
  let parts := Text.splitChar '/' p
  let start :=
    if isAbsolute p then [.root]
    else if parts.head? == some ['.'] then [.current]
    else []
  start ++ parts.filterMap Component.ofPart?

/-- The key under which paths are ordered: component by component. -/
def key (p : Text) : List (List Nat) :=
  (components p).map Component.key

/-- Whether key `a` comes before `b`: at the first component in which they differ, or because it
is shorter. -/
def keyBefore (a b : List (List Nat)) : Bool :=
  List.lex a b fun x y => List.lex x y Nat.blt

/-- Whether path `p` comes before `q` or has the same components. -/
def le (p q : Text) : Bool :=
  !keyBefore (key q) (key p)

/-- Puts the path `p` behind `base`; an absolute path stands alone. -/
def join (base p : Text) : Text :=
  if isAbsolute p || base.isEmpty then p
  else if ['/'].isSuffixOf base then base ++ p
  else base ++ '/' :: p

/-- The name at the end of a path. -/
def fileName? (p : Text) : Option Text :=
  match (components p).getLast? with
  | some (.name t) => some t
  | _ => none

/-- What follows the last dot of a name, unless that dot comes first. -/
def nameExtension? (name : Text) : Option Text :=
  let ext := (name.reverse.takeWhile (· != '.')).reverse
  if ext.length + 1 < name.length then some ext else none

/-- The extension of a path: that of the name at its end. -/
def extension? (p : Text) : Option Text :=
  (fileName? p).bind nameExtension?

/-- The path `p` below `base`, and `p` itself if it is not below. -/
def relativeTo (base p : Text) : Text :=
  let above := components base
  let all := components p
  if above.isPrefixOf all then Text.joinWith ['/'] ((all.drop above.length).map Component.text)
  else p

end Path

end DeclSurvey
