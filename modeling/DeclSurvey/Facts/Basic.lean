import DeclSurvey.Facts.Tally
import DeclSurvey.Source.Heading
import DeclSurvey.Source.Members

/-! # Facts of a source file

`Facts.ofSource` surveys a source text.  An atypical file, one that does not hold exactly one
declaration, keeps its line count, its namespace and its tally; all other facts are empty.

The queries below the survey (`name`, `isFinal`, …) are read off the facts. -/

namespace DeclSurvey

/-- What the survey finds in one source file. -/
structure Facts where
  /-- Number of physical lines, blank ones included. -/
  lineCount : Nat
  /-- The namespace, empty when there is none. -/
  namespaceName : Text
  /-- The heading of the declaration. -/
  heading : Heading
  /-- Imported names in file order. -/
  imports : List Text
  /-- Members of the body. -/
  members : Members
  /-- Method signatures in file order. -/
  methods : List Text
  /-- How often each declaration keyword opens a line. -/
  tally : Tally
  deriving DecidableEq, Repr

namespace Facts

/-! ### The survey -/

/-- The lines that are not blank. -/
def written (ls : List Line) : List Line :=
  ls.filter (·.kind != .blank)

/-- The lines that structure is read from: none for an atypical file. -/
def structural (ls : List Line) : List Line :=
  if (Tally.ofLines ls).isAtypical then [] else written ls

/-- The heading on the last top-level line. -/
def headingOf (ls : List Line) : Heading :=
  match (ls.filter (·.topLevel)).getLast? with
  | some l => Heading.parse l.text
  | none => {}

/-- The names that top-level lines import. -/
def importsOf (ls : List Line) : List Text :=
  (ls.filter (·.topLevel)).filterMap (·.importName?)

/-- The texts of the method lines. -/
def methodsOf (ls : List Line) : List Text :=
  (ls.filter (·.kind == .method)).map (·.text)

/-- Surveys classified lines. -/
def ofLines (ls : List Line) : Facts :=
  { lineCount := ls.length
    namespaceName := (ls.findSome? (·.namespaceName?)).getD []
    heading := headingOf (structural ls)
    imports := importsOf (structural ls)
    members := Members.scan (structural ls)
    methods := methodsOf (structural ls)
    tally := Tally.ofLines ls }

/-- Surveys a source text. -/
def ofSource (source : Text) : Facts :=
  ofLines (classify source)

/-! ### Queries -/

/-- What a constructor's signature contains. -/
def constructorMark : Text := " __construct".toList

/-- What the signature of an abstract method contains. -/
def abstractMark : Text := "abstract ".toList

/-- The declared name. -/
def name (f : Facts) : Text := f.heading.name

/-- The declaration keyword of the heading. -/
def keyword (f : Facts) : Text := f.heading.keyword

/-- The head of the declaration, modifiers included. -/
def fullName (f : Facts) : Text := f.heading.head

/-- The name with its namespace. -/
def qualifiedName (f : Facts) : Text :=
  '\\' :: f.namespaceName ++ '\\' :: f.name

/-- The kind of the declared type. -/
def declKind? (f : Facts) : Option DeclKind :=
  DeclKind.ofKeyword? f.keyword

/-- The file does not hold exactly one declaration. -/
def isAtypical (f : Facts) : Bool := f.tally.isAtypical

/-- Whether the file declares a type of kind `k`. -/
def isKind (k : DeclKind) (f : Facts) : Bool := f.declKind? == some k

/-- Some method signature contains `mark`. -/
def hasMethodWith (mark : Text) (f : Facts) : Bool :=
  f.methods.any (Text.occursIn mark)

/-- There is a constructor. -/
def hasConstructor (f : Facts) : Bool := f.hasMethodWith constructorMark

/-- There is an abstract method. -/
def hasAbstractMethods (f : Facts) : Bool := f.hasMethodWith abstractMark

/-- The head says `abstract`. -/
def isExplicitAbstract (f : Facts) : Bool := Text.occursIn "abstract".toList f.fullName

/-- Abstract because a method is. -/
def isImplicitAbstract (f : Facts) : Bool := f.hasAbstractMethods

/-- Abstract for either reason. -/
def isAbstract (f : Facts) : Bool := f.isExplicitAbstract || f.isImplicitAbstract

/-- The head says `final`. -/
def isFinal (f : Facts) : Bool := Text.occursIn "final".toList f.fullName

/-- The head says `readonly`. -/
def isReadonly (f : Facts) : Bool := Text.occursIn "readonly".toList f.fullName

@[simp] theorem lineCount_ofSource (source : Text) :
    (ofSource source).lineCount = (Text.lines source).length := by
  simp [ofSource, ofLines]

end Facts

end DeclSurvey
