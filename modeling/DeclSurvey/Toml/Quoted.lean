import DeclSurvey.Toml.Scalar

/-! # Strings in TOML

Strings stand in quotes, with escapes, or in apostrophes, without.  Three quotes or apostrophes
enclose strings of several lines.  The readers here start behind the opening quotes. -/

namespace DeclSurvey

namespace Toml

namespace Quoted

/-- Whether a character can stand for itself in comments and strings: all but the control
characters, the tab excepted. -/
def isPlain (c : Char) : Bool :=
  c == '\t' || (0x20 ≤ c.toNat && c.toNat != 0x7F)

/-- The character of a code point given by hexadecimal digits. -/
def charOf? (ds : Text) : Option Char :=
  let n := Scalar.ofDigits 16 ds
  if ds.all (Scalar.isDigitIn 16) then
    if h : n.isValidChar then some (Char.ofNatAux n h) else none
  else none

/-- The character that a letter behind a backslash stands for. -/
def escape? : Char → Option Char
  | 'b' => some '\x08'
  | 't' => some '\t'
  | 'n' => some '\n'
  | 'f' => some '\x0c'
  | 'r' => some '\r'
  | '"' => some '"'
  | '\\' => some '\\'
  | _ => none

/-- Puts a character in front of what is read. -/
def push (c : Char) (read : Option (Text × Text)) : Option (Text × Text) :=
  read.map fun (t, rest) => (c :: t, rest)

/-- The rest of a string in quotes on one line. -/
def basic : Reader Text
  | [] => none
  | '"' :: t => some ([], t)
  | '\\' :: 'u' :: a :: b :: c :: d :: t => do
    let e ← charOf? [a, b, c, d]
    push e (basic t)
  | '\\' :: 'U' :: a :: b :: c :: d :: e :: f :: g :: h :: t => do
    let x ← charOf? [a, b, c, d, e, f, g, h]
    push x (basic t)
  | '\\' :: c :: t => do
    let e ← escape? c
    push e (basic t)
  | c :: t => if c != '\\' && isPlain c then push c (basic t) else none

/-- The rest of a string in apostrophes on one line. -/
def literal : Reader Text
  | [] => none
  | '\'' :: t => some ([], t)
  | c :: t => if isPlain c then push c (literal t) else none

/-- Whether a line ends with the given text, after spaces and tabs. -/
def endsLine : Text → Bool
  | '\n' :: _ => true
  | '\r' :: '\n' :: _ => true
  | c :: t => (c == ' ' || c == '\t') && endsLine t
  | [] => false

/-- The rest of a string in three quotes.  With `joining`, blanks and line ends are passed over,
as after a backslash at the end of a line. -/
def basicLinesFrom (joining : Bool) : Reader Text
  | '\r' :: '\n' :: t => if joining then basicLinesFrom true t else push '\n' (basicLinesFrom false t)
  | '"' :: '"' :: '"' :: '"' :: '"' :: t => some (['"', '"'], t)
  | '"' :: '"' :: '"' :: '"' :: t => some (['"'], t)
  | '"' :: '"' :: '"' :: t => some ([], t)
  | '\\' :: 'u' :: a :: b :: c :: d :: t => do
    let e ← charOf? [a, b, c, d]
    push e (basicLinesFrom false t)
  | '\\' :: 'U' :: a :: b :: c :: d :: e :: f :: g :: h :: t => do
    let x ← charOf? [a, b, c, d, e, f, g, h]
    push x (basicLinesFrom false t)
  | '\\' :: c :: t =>
    match escape? c with
    | some e => push e (basicLinesFrom false t)
    | none => if endsLine (c :: t) then basicLinesFrom true (c :: t) else none
  | c :: t =>
    if joining && (c == ' ' || c == '\t' || c == '\n') then basicLinesFrom true t
    else if c == '\n' || (c != '\\' && isPlain c) then push c (basicLinesFrom false t)
    else none
  | [] => none

/-- The rest of a string in three apostrophes. -/
def literalLinesFrom : Reader Text
  | '\r' :: '\n' :: t => push '\n' (literalLinesFrom t)
  | '\'' :: '\'' :: '\'' :: '\'' :: '\'' :: t => some (['\'', '\''], t)
  | '\'' :: '\'' :: '\'' :: '\'' :: t => some (['\''], t)
  | '\'' :: '\'' :: '\'' :: t => some ([], t)
  | c :: t => if c == '\n' || isPlain c then push c (literalLinesFrom t) else none
  | [] => none

/-- A text without the line end that it starts with. -/
def dropNewline : Text → Text
  | '\n' :: t => t
  | '\r' :: '\n' :: t => t
  | t => t

/-- A string of one line, as keys may be. -/
def singleLine : Reader Text
  | '"' :: t => basic t
  | '\'' :: t => literal t
  | _ => none

/-- A string of any form. -/
def string : Reader Text
  | '"' :: '"' :: '"' :: t => basicLinesFrom false (dropNewline t)
  | '\'' :: '\'' :: '\'' :: t => literalLinesFrom (dropNewline t)
  | t => singleLine t

end Quoted

end Toml

end DeclSurvey
