import DeclSurvey.Text.Basic

/-! # TOML documents

A TOML document is a table: keys with values, of which some are tables again.  A table remembers
how it came about, because that decides what may be added to it later.

* `Item` is a value of a document, `Entries` the content of a table;
* `Entries.descend` follows a dotted path into a table, making what is missing on the way;
* `Entries.addValue`, `Entries.addHeader` and `Entries.addElement` are the three ways in which a
  document adds to its tables: a key with a value, a header, and a header of a list element. -/

namespace DeclSurvey

namespace Toml

/-- How a table came about. -/
inductive Style where
  /-- By a header of its own. -/
  | explicit
  /-- As a table on the path of a longer header. -/
  | implied
  /-- By a dotted key. -/
  | dotted
  /-- As a value in braces. -/
  | inline
  deriving DecidableEq, Repr

/-- A value of a document. -/
inductive Item where
  /-- A string. -/
  | string (t : Text)
  /-- A whole number. -/
  | integer (n : Int)
  /-- A number with fraction or exponent, as it is written. -/
  | float (t : Text)
  /-- A truth value. -/
  | boolean (b : Bool)
  /-- A date, a time or both, as it is written. -/
  | moment (t : Text)
  /-- A list of values. -/
  | array (items : List Item)
  /-- A table. -/
  | table (style : Style) (entries : List (Text × Item))
  /-- A list of tables, each with a header. -/
  | tables (elements : List (List (Text × Item)))

/-- The content of a table. -/
abbrev Entries := List (Text × Item)

namespace Entries

/-- The value of a key. -/
def get? (entries : Entries) (key : Text) : Option Item :=
  entries.lookup key

/-- Gives a key another value. -/
def set (entries : Entries) (key : Text) (item : Item) : Entries :=
  if (entries.get? key).isSome then
    entries.map fun (k, i) => if k == key then (k, item) else (k, i)
  else entries ++ [(key, item)]

/-- Whether a path of a header (`via` is `implied`) or of a dotted key (`via` is `dotted`) can go
through a table. -/
def passable (via style : Style) : Bool :=
  match style with
  | .inline => false
  | .explicit => via != .dotted
  | .implied | .dotted => true

/-- Changes the table at the end of a path by `f`, which is also told how that table came about.
Tables that are missing on the way are made, in the style `via`. -/
def descend (via : Style) (f : Style → Entries → Option Entries) :
    List Text → Style → Entries → Option Entries
  | [], style, entries => f style entries
  | key :: path, _, entries =>
    match entries.get? key with
    | none => do
      let inner ← descend via f path via []
      return entries.set key (.table via inner)
    | some (.table style inner) =>
      if passable via style then do
        let inner ← descend via f path style inner
        return entries.set key (.table style inner)
      else none
    | some (.tables elements) => do
      -- A path through a list of tables means its last element.
      let last ← elements.getLast?
      let last ← descend via f path .explicit last
      return entries.set key (.tables (elements.dropLast ++ [last]))
    | some _ => none

/-- Adds a key with its value, which must be new.  Behind a path, only a table that dotted keys
make can take it. -/
def addValue (path : List Text) (key : Text) (item : Item) (style : Style) (entries : Entries) :
    Option Entries :=
  descend .dotted
    (fun last inner =>
      if (last == .dotted) == path.isEmpty then none
      else if (inner.get? key).isSome then none
      else some (inner.set key item))
    path style entries

/-- Adds a table under a header.  It must be new, or so far only implied by longer headers. -/
def addHeader (path : List Text) (key : Text) (entries : Entries) : Option Entries :=
  descend .implied
    (fun _ inner =>
      match inner.get? key with
      | none => some (inner.set key (.table .explicit []))
      | some (.table .implied content) => some (inner.set key (.table .explicit content))
      | some _ => none)
    path .explicit entries

/-- Adds an element to the list of tables under a header. -/
def addElement (path : List Text) (key : Text) (entries : Entries) : Option Entries :=
  descend .implied
    (fun _ inner =>
      match inner.get? key with
      | none => some (inner.set key (.tables [[]]))
      | some (.tables elements) => some (inner.set key (.tables (elements ++ [[]])))
      | some _ => none)
    path .explicit entries

/-- Changes the table that the header with the given path opened last. -/
def within (f : Style → Entries → Option Entries) (path : List Text) (entries : Entries) :
    Option Entries :=
  descend .implied f path .explicit entries

end Entries

end Toml

end DeclSurvey
