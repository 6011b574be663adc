import DeclSurvey.Source.Signature
import DeclSurvey.Text.Blank
import DeclSurvey.Text.Lines

/-! # Classified lines

Every physical line of a source file is classified once, and everything the survey says about the
file is read off the classified lines.

* `Line` is a line with its cleaned text and its kind;
* `Line.ofRaw` cleans and classifies one raw line;
* `classify` does so for every physical line of a source text.

A line counts as *top-level* when its first column holds a letter. -/

namespace DeclSurvey

/-! ### Marks -/

/-- The line that opens a body. -/
def bodyOpenMark : Text := "\x7b".toList

/-- What a namespace statement starts with. -/
def namespaceMark : Text := "namespace ".toList

/-- What an import statement starts with. -/
def importMark : Text := "use ".toList

/-- The keyword of a function, with the space after it. -/
def functionMark : Text := "function ".toList

/-- The first letters of the words that a method signature can start with: `abstract`, the three
visibilities, `final`, `function` and `static`. -/
def methodLeads : List Char := ['a', 'p', 'f', 's']

/-- What a comment line starts with. -/
def commentLeads : List Char := ['/', '*', '#']

/-! ### Kinds -/

/-- What a line is, by its cleaned text. -/
inductive LineKind where
  /-- Nothing but white space. -/
  | blank
  /-- Starts with `/`, `*` or `#`. -/
  | comment
  /-- Any other line that does not start with a letter. -/
  | punctuation
  /-- The opening brace of a body, alone. -/
  | bodyOpen
  /-- A top-level namespace statement. -/
  | namespaceStatement
  /-- A top-level import statement. -/
  | importStatement
  /-- The line of a declaration. -/
  | declaration (signature : Signature)
  /-- The signature of a method. -/
  | method
  /-- Any other line that starts with a letter. -/
  | statement
  deriving DecidableEq, Repr

namespace LineKind

/-- Whether lines of this kind start with a letter. -/
def isWordLed : LineKind → Bool
  | namespaceStatement | importStatement | declaration _ | method | statement => true
  | blank | comment | punctuation | bodyOpen => false

/-- Whether a text starts with one of the characters in `leads`. -/
def startsWithAny (leads : List Char) : Text → Bool
  | [] => false
  | c :: _ => leads.contains c

/-- Whether a text reads as the signature of a method: the word `function` stands in it, and it
starts like a modifier. -/
def isMethodText (t : Text) : Bool :=
  (functionMark.isPrefixOf t || Text.occursIn (' ' :: functionMark) t) &&
    startsWithAny methodLeads t

/-- The kind of a cleaned text. -/
def ofText (topLevel : Bool) (t : Text) : LineKind :=
  if t.isEmpty then blank
  else if t == bodyOpenMark then bodyOpen
  else
    match Signature.detect? t with
    | some s => declaration s
    | none =>
      -- An indented statement may start like a namespace or an import, but is none.
      if isMethodText t then method
      else if topLevel && namespaceMark.isPrefixOf t then namespaceStatement
      else if topLevel && importMark.isPrefixOf t then importStatement
      else if Text.startsWithLetter t then statement
      else if startsWithAny commentLeads t then comment
      else punctuation

end LineKind

/-! ### Lines -/

/-- A classified line. -/
structure Line where
  /-- The cleaned text: without white space at its ends, and without semicolons if the line is
  top-level. -/
  text : Text
  /-- The raw line starts with a letter in its first column. -/
  topLevel : Bool
  /-- What the line is. -/
  kind : LineKind
  deriving DecidableEq, Repr

namespace Line

/-- The cleaned text of a raw line. -/
def clean (raw : Text) : Text :=
  if Text.startsWithLetter raw then (Text.trim raw).filter (· != ';') else Text.trim raw

/-- Cleans and classifies a raw line. -/
def ofRaw (raw : Text) : Line :=
  let topLevel := Text.startsWithLetter raw
  let text := clean raw
  { text, topLevel, kind := LineKind.ofText topLevel text }

/-- The namespace that a namespace statement names. -/
def namespaceName? (l : Line) : Option Text :=
  match l.kind with
  | .namespaceStatement => Text.afterPrefix? namespaceMark l.text
  | _ => none

/-- The name that an import statement brings in: its text without the import mark, unless that
is empty. -/
def importName? (l : Line) : Option Text :=
  match l.kind with
  | .importStatement =>
    let name := Text.removeAll importMark l.text
    if name.isEmpty then none else some name
  | _ => none

/-- Whether the line holds an opening parenthesis, as a call or a signature does. -/
def hasParenthesis (l : Line) : Bool :=
  l.text.contains '('

/-- Whether the line mentions the word `function`. -/
def mentionsFunction (l : Line) : Bool :=
  Text.occursIn functionMark l.text

@[simp] theorem topLevel_ofRaw (raw : Text) : (ofRaw raw).topLevel = Text.startsWithLetter raw :=
  rfl

@[simp] theorem text_ofRaw (raw : Text) : (ofRaw raw).text = clean raw := rfl

@[simp] theorem kind_ofRaw (raw : Text) :
    (ofRaw raw).kind = LineKind.ofText (Text.startsWithLetter raw) (clean raw) := rfl

end Line

/-- The classified lines of a source text, one for each physical line. -/
def classify (source : Text) : List Line :=
  (Text.lines source).map Line.ofRaw

@[simp] theorem length_classify (source : Text) :
    (classify source).length = (Text.lines source).length := by
  simp [classify]

end DeclSurvey
