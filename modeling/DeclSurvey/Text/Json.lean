import DeclSurvey.Text.Basic

/-! # JSON on several lines

Values are printed with two spaces of indentation for each level.  Empty lists and objects stay on
one line.  Of the characters in a string, quotes, backslashes and control characters below the
space are escaped, and no others. -/

namespace DeclSurvey

/-- A JSON value without fractions. -/
inductive Json where
  /-- A string. -/
  | string (t : Text)
  /-- A number. -/
  | number (n : Nat)
  /-- A truth value. -/
  | boolean (b : Bool)
  /-- A list. -/
  | array (items : List Json)
  /-- An object, with its keys in the order in which they are printed. -/
  | object (fields : List (Text × Json))

namespace Json

/-- Four hexadecimal digits, in lower case. -/
def hex4 (n : Nat) : Text :=
  let digits := Nat.toDigits 16 n
  List.replicate (4 - digits.length) '0' ++ digits

/-- A character as it stands in a string. -/
def escapeChar (c : Char) : Text :=
  if c = '"' then ['\\', '"']
  else if c = '\\' then ['\\', '\\']
  else if c = '\x08' then ['\\', 'b']
  else if c = '\t' then ['\\', 't']
  else if c = '\n' then ['\\', 'n']
  else if c = '\x0c' then ['\\', 'f']
  else if c = '\r' then ['\\', 'r']
  else if c.toNat < 0x20 then '\\' :: 'u' :: hex4 c.toNat
  else [c]

/-- A string in quotes. -/
def quote (t : Text) : Text :=
  '"' :: t.flatMap escapeChar ++ ['"']

/-- The start of a line at some depth. -/
def newline (depth : Nat) : Text :=
  '\n' :: List.replicate (2 * depth) ' '

/-- Items in brackets, each on a line of its own. -/
def enclose (opening closing : Char) (depth : Nat) (items : List Text) : Text :=
  if items.isEmpty then [opening, closing]
  else
    opening :: newline (depth + 1) ++ Text.joinWith (',' :: newline (depth + 1)) items ++
      newline depth ++ [closing]

mutual

/-- A value at some depth. -/
def renderAt (depth : Nat) : Json → Text
  | string t => quote t
  | number n => Text.ofNat n
  | boolean b => if b then "true".toList else "false".toList
  | array items => enclose '[' ']' depth (renderItems (depth + 1) items)
  | object fields => enclose '\x7b' '\x7d' depth (renderFields (depth + 1) fields)

/-- The items of a list. -/
def renderItems (depth : Nat) : List Json → List Text
  | [] => []
  | item :: items => renderAt depth item :: renderItems depth items

/-- The fields of an object. -/
def renderFields (depth : Nat) : List (Text × Json) → List Text
  | [] => []
  | (key, value) :: fields =>
    (quote key ++ ": ".toList ++ renderAt depth value) :: renderFields depth fields

end

/-- A value on several lines. -/
def render (j : Json) : Text :=
  renderAt 0 j

end Json

end DeclSurvey
