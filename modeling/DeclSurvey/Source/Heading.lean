import DeclSurvey.Text.Blank

/-! # Headings

The heading of a declaration is its line taken apart: the *head* (modifiers, keyword and name),
and the *tail* with the inheritance clauses.

* `Heading.tidy` is the form of the line that is taken apart;
* `Heading.parse` reads a line;
* `Heading.name` and `Heading.keyword` are read off the words of the head. -/

namespace DeclSurvey

/-- A declaration line, taken apart. -/
structure Heading where
  /-- What precedes the inheritance clauses. -/
  head : Text := []
  /-- The inheritance clauses. -/
  tail : Text := []
  /-- The head, split at single spaces. -/
  words : List Text := []
  /-- The parent type, empty when there is none. -/
  parent : Text := []
  /-- The interfaces, in the order in which they are listed. -/
  interfaces : List Text := []
  deriving DecidableEq, Repr, Inhabited

namespace Heading

/-- The keyword in front of the parent type. -/
def parentWord : Text := "extends ".toList

/-- The keyword in front of the interfaces. -/
def interfacesWord : Text := "implements ".toList

/-- Stands for a clause keyword while the head is cut off. -/
def clauseMark : Char := '\x00'

/-- The line without spaces and semicolons at its ends, and with one space for each two. -/
def tidy (line : Text) : Text :=
  Text.replaceAll [' ', ' '] [' '] (Text.strip line)

/-- The line with a mark in the place of each clause keyword. -/
def markClauses (line : Text) : Text :=
  Text.replaceAll (' ' :: parentWord) [clauseMark]
    (Text.replaceAll (' ' :: interfacesWord) [clauseMark] line)

/-- What stands in front of the first clause. -/
def headOf (line : Text) : Text :=
  Text.trim (Text.beforeChar clauseMark (markClauses line))

/-- What the last clause with the given keyword says, up to the end of the tail. -/
def clauseBody (word tail : Text) : Text :=
  Text.afterLast (' ' :: word) (' ' :: tail)

/-- The parent type: the first word of the parent clause. -/
def parentOf (tail : Text) : Text :=
  if Text.occursIn parentWord tail then Text.beforeChar ' ' (clauseBody parentWord tail) else []

/-- The name at the start of an item of the interface list. -/
def interfaceName (item : Text) : Text :=
  Text.trim (Text.beforeChar ' ' (Text.trim item))

/-- The interfaces: the items of the interface clause, which commas divide. -/
def interfacesOf (tail : Text) : List Text :=
  if Text.occursIn interfacesWord tail then
    (Text.splitChar ',' (clauseBody interfacesWord tail)).map interfaceName
  else []

/-- What remains of the line when the head is taken out wherever it occurs. -/
def tailOf (head line : Text) : Text :=
  Text.trim (Text.removeAll head line)

/-- Reads a declaration line. -/
def parse (line : Text) : Heading :=
  let tidied := tidy line
  let head := headOf tidied
  if head.isEmpty then {}
  else
    let tail := tailOf head tidied
    { head, tail
      words := Text.splitChar ' ' head
      parent := parentOf tail
      interfaces := interfacesOf tail }

/-- The declared name: the last word of the head. -/
def name (h : Heading) : Text :=
  h.words.getLast?.getD []

/-- The declaration keyword: the word in front of the name, or the only word there is. -/
def keyword (h : Heading) : Text :=
  h.words[h.words.length - 2]?.getD []

end Heading

end DeclSurvey
