import DeclSurvey.Source.Line

/-! # Members of a body

Constants, properties and enumeration cases that a type declares before its first method.

* `Members.tidy` is the text under which a member is reported;
* `Members.add` puts a member into its list;
* `Members.scan` collects the members from classified lines. -/

namespace DeclSurvey

/-- The members of a body, each list in file order. -/
structure Members where
  /-- Constants. -/
  constants : List Text := []
  /-- All that are neither constants nor enumeration cases. -/
  properties : List Text := []
  /-- Enumeration cases. -/
  cases : List Text := []
  deriving DecidableEq, Repr, Inhabited

namespace Members

/-! ### The text of a member -/

/-- Starts a comment behind a member. -/
def commentMark : Text := " //".toList

/-- Closes a list that goes on in the following lines. -/
def openListMark : Text := "...]".toList

/-- A text without the comment behind it: if there is a comment mark, only what precedes the
first slash is kept. -/
def dropComment (t : Text) : Text :=
  if Text.occursIn commentMark t then Text.trim (Text.beforeChar '/' t) else t

/-- Closes the list that a text leaves open at its end. -/
def closeList (t : Text) : Text :=
  if ['['].isSuffixOf t then t ++ openListMark else t

/-- The text under which a member is reported: without comment, spaces and semicolons around
it, and with its list closed. -/
def tidy (t : Text) : Text :=
  closeList (Text.strip (dropComment t))

/-! ### Sorting members -/

/-- Whether a member is a constant. -/
def isConstant (member : Text) : Bool :=
  Text.occursIn "const ".toList member

/-- Whether a member names an enumeration case; a constant is none. -/
def isCase (member : Text) : Bool :=
  !isConstant member && Text.occursIn "case ".toList member

/-- Puts a member in front of the others of its sort. -/
def add (member : Text) (m : Members) : Members :=
  if isConstant member then { m with constants := member :: m.constants }
  else if isCase member then { m with cases := member :: m.cases }
  else { m with properties := member :: m.properties }

/-! ### Collecting members -/

/-- The members in the lines that follow, where `inBody` tells whether the body is open. -/
def scanFrom (inBody : Bool) : List Line → Members
  | [] => {}
  | l :: ls =>
    let inBody := inBody || l.kind == .bodyOpen
    -- Inside the body, lines without a parenthesis are members or are passed over.
    if inBody && !l.hasParenthesis then
      if l.kind.isWordLed then
        let member := tidy l.text
        -- A member that reads like a function is the last one.
        if Text.occursIn functionMark member then add member {}
        else add member (scanFrom inBody ls)
      else scanFrom inBody ls
    -- A function ends the search, also in front of the body.
    else if l.mentionsFunction then {}
    else scanFrom inBody ls

/-- The members of the body that classified lines open: those from the brace to the first
function. -/
def scan (ls : List Line) : Members :=
  scanFrom false ls

@[simp] theorem scan_nil : scan [] = {} := rfl

end Members

end DeclSurvey
