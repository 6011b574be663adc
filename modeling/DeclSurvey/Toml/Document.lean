import DeclSurvey.Toml.Quoted

/-! # Reading TOML

`Document.parse?` reads a whole document.  A document is a sequence of lines, of which each sets a
key, opens a table or is empty; values may stretch over several lines.

Lists and braces nest at most 79 deep, and a key has at most 79 parts. -/

namespace DeclSurvey

namespace Toml

namespace Document

/-! ### Blanks -/

/-- Drops spaces and tabs. -/
def skipBlanks (t : Text) : Text :=
  t.dropWhile fun c => c == ' ' || c == '\t'

/-- Drops a comment, if there is one. -/
def skipComment : Text → Text
  | '#' :: t => t.dropWhile Quoted.isPlain
  | t => t

/-- Drops a line end; `none` if there is neither a line end nor the end of the text. -/
def endLine? : Text → Option Text
  | [] => some []
  | '\n' :: t => some t
  | '\r' :: '\n' :: t => some t
  | _ => none

/-- What follows a line of which nothing may come but blanks and a comment. -/
def endOfLine? (t : Text) : Option Text :=
  endLine? (skipComment (skipBlanks t))

/-- Drops blanks, comments and line ends, as many as `fuel` allows. -/
def skipLinesFrom : Nat → Text → Text
  | 0, t => t
  | fuel + 1, t =>
    match skipBlanks t with
    | [] => []
    | '\n' :: t => skipLinesFrom fuel t
    | '\r' :: '\n' :: t => skipLinesFrom fuel t
    | '#' :: t =>
      match t.dropWhile Quoted.isPlain with
      | '\n' :: t => skipLinesFrom fuel t
      | '\r' :: '\n' :: t => skipLinesFrom fuel t
      | _ => '#' :: t
    | t => t

/-- Drops blanks, comments and line ends. -/
def skipLines (t : Text) : Text :=
  skipLinesFrom (t.length + 1) t

/-! ### Keys -/

/-- The greatest depth of nesting, and the greatest number of parts of a key. -/
def depthLimit : Nat := 79

/-- Whether a character can stand in a key without quotes. -/
def isBare (c : Char) : Bool :=
  c.isAlphanum || c == '_' || c == '-'

/-- One part of a key, with the blanks around it. -/
def keyPart (t : Text) : Option (Text × Text) :=
  let t := skipBlanks t
  let read : Option (Text × Text) :=
    match t with
    | '"' :: _ | '\'' :: _ => Quoted.singleLine t
    | _ =>
      let name := t.takeWhile isBare
      if name.isEmpty then none else some (name, t.dropWhile isBare)
  read.map fun (name, rest) => (name, skipBlanks rest)

/-- The parts of a key, as many as `fuel` allows. -/
def keyFrom : Nat → Reader (List Text)
  | 0, _ => none
  | fuel + 1, t => do
    let (part, rest) ← keyPart t
    match rest with
    | '.' :: rest =>
      let (parts, rest) ← keyFrom fuel rest
      return (part :: parts, rest)
    | _ => return ([part], rest)

/-- A key: the path to its table, and the last part. -/
def key (t : Text) : Option ((List Text × Text) × Text) := do
  let (parts, rest) ← keyFrom depthLimit t
  let last ← parts.getLast?
  return ((parts.dropLast, last), rest)

/-! ### Values -/

/-- The rest of a list behind its bracket, with `value` for its items. -/
def arrayFrom (value : Reader Item) : Nat → Reader (List Item)
  | 0, _ => none
  | fuel + 1, t =>
    match skipLines t with
    | ']' :: rest => some ([], rest)
    | t => do
      let (item, rest) ← value t
      match skipLines rest with
      | ']' :: rest => return ([item], rest)
      | ',' :: rest =>
        let (items, rest) ← arrayFrom value fuel rest
        return (item :: items, rest)
      | _ => none

/-- The rest of a table in braces behind its first brace or a comma, added to what is read. -/
def inlineFrom (value : Reader Item) : Nat → Entries → Reader Entries
  | 0, _, _ => none
  | fuel + 1, entries, t => do
    let ((path, last), t) ← key t
    let (_, t) ← Scalar.symbol '=' t
    let (item, t) ← value (skipBlanks t)
    let entries ← entries.addValue path last item .inline
    match skipBlanks t with
    | '\x7d' :: rest => return (entries, rest)
    | ',' :: rest => inlineFrom value fuel entries rest
    | _ => none

/-- A table in braces, behind its first brace. -/
def inlineTable (value : Reader Item) (t : Text) : Option (Entries × Text) :=
  match skipBlanks t with
  | '\x7d' :: rest => some ([], rest)
  | t => inlineFrom value (t.length + 1) [] t

/-- A value, in which lists and braces nest at most `levels` deep. -/
def value (levels : Nat) (t : Text) : Option (Item × Text) :=
  match t with
  | [] => none
  | c :: rest =>
    if c = '"' ∨ c = '\'' then (Quoted.string t).map fun (s, rest) => (.string s, rest)
    else if c = '[' then
      match levels with
      | 0 => none
      | levels + 1 =>
        (arrayFrom (value levels) (rest.length + 1) rest).map fun (items, rest) =>
          (.array items, rest)
    else if c = '\x7b' then
      match levels with
      | 0 => none
      | levels + 1 =>
        (inlineTable (value levels) rest).map fun (entries, rest) => (.table .inline entries, rest)
    -- What follows a keyword is the business of whoever reads on.
    else if c = 't' then (Scalar.word "true".toList t).map fun (_, rest) => (.boolean true, rest)
    else if c = 'f' then (Scalar.word "false".toList t).map fun (_, rest) => (.boolean false, rest)
    else if c = 'i' ∨ c = 'n' then Scalar.float t
    else if c = '+' ∨ c = '-' ∨ c.isDigit then Scalar.number t
    else none

/-! ### Lines -/

/-- A document that is read up to some line. -/
structure State where
  /-- The content so far. -/
  root : Entries := []
  /-- The path of the table that keys are added to. -/
  current : List Text := []

/-- Reads a header behind its brackets: `close` ends it, and `add` opens its table. -/
def header (state : State) (close : Text)
    (add : List Text → Text → Entries → Option Entries) (t : Text) :
    Option (State × Text) := do
  let ((path, last), t) ← key t
  let (_, t) ← Scalar.word close t
  let rest ← endOfLine? t
  let root ← add path last state.root
  return ({ root, current := path ++ [last] }, rest)

/-- Reads a key with its value. -/
def keyValue (state : State) (t : Text) : Option (State × Text) := do
  let ((path, last), t) ← key t
  let (_, t) ← Scalar.symbol '=' t
  let (item, t) ← value depthLimit (skipBlanks t)
  let rest ← endOfLine? t
  let root ← state.root.within (fun style entries => entries.addValue path last item style)
    state.current
  return ({ state with root }, rest)

/-- Reads one line, which is not at the end of the text. -/
def line (state : State) (t : Text) : Option (State × Text) :=
  match skipBlanks t with
  | [] => some (state, [])
  | '#' :: t => (endLine? (skipComment ('#' :: t))).map (state, ·)
  | '\n' :: t => some (state, t)
  | '\r' :: '\n' :: t => some (state, t)
  | '[' :: '[' :: t => header state "]]".toList Entries.addElement t
  | '[' :: t => header state "]".toList Entries.addHeader t
  | t => keyValue state t

/-- Reads lines, as many as `fuel` allows. -/
def linesFrom : Nat → State → Text → Option State
  | _, state, [] => some state
  | 0, _, _ => none
  | fuel + 1, state, t => do
    let (state, rest) ← line state t
    linesFrom fuel state rest

/-- Reads a document, whose first character may be a byte order mark. -/
def parse? (t : Text) : Option Entries :=
  let t := (Text.afterPrefix? ['\uFEFF'] t).getD t
  (linesFrom (t.length + 1) {} t).map (·.root)

end Document

end Toml

end DeclSurvey
