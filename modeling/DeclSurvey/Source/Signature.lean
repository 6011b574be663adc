import DeclSurvey.Text.Basic

/-! # Declaration signatures

A line opens a declaration when it starts with one of six fixed openings.  `Signature` names the
opening, `DeclKind` the kind of type it declares. -/

namespace DeclSurvey

/-- The kinds of type that a file can declare. -/
inductive DeclKind where
  /-- A class. -/
  | class_
  /-- An interface. -/
  | interface
  /-- A trait. -/
  | trait
  /-- An enumeration. -/
  | enum
  deriving DecidableEq, Repr

namespace DeclKind

/-- The keyword that declares a type of this kind. -/
def keyword : DeclKind → Text
  | class_ => "class".toList
  | interface => "interface".toList
  | trait => "trait".toList
  | enum => "enum".toList

/-- The kind that a keyword declares. -/
def ofKeyword? (word : Text) : Option DeclKind :=
  [class_, interface, trait, enum].find? (·.keyword == word)

@[simp] theorem ofKeyword?_keyword (k : DeclKind) : ofKeyword? k.keyword = some k := by
  cases k <;> rfl

end DeclKind

/-- The openings of a declaration line. -/
inductive Signature where
  /-- `abstract class`. -/
  | abstractClass
  /-- `final class`. -/
  | finalClass
  /-- `class` without a modifier. -/
  | plainClass
  /-- `interface`. -/
  | interface
  /-- `trait`. -/
  | trait
  /-- `enum`. -/
  | enum
  deriving DecidableEq, Repr

namespace Signature

/-- All signatures, in the order in which they are looked for. -/
def all : List Signature :=
  [abstractClass, finalClass, plainClass, interface, trait, enum]

/-- The text that a line with this signature starts with. -/
def opening : Signature → Text
  | abstractClass => "abstract class ".toList
  | finalClass => "final class ".toList
  | plainClass => "class ".toList
  | interface => "interface ".toList
  | trait => "trait ".toList
  | enum => "enum ".toList

/-- The first word of the opening, under which declarations are tallied. -/
def keyword : Signature → Text
  | abstractClass => "abstract".toList
  | finalClass => "final".toList
  | plainClass => "class".toList
  | interface => "interface".toList
  | trait => "trait".toList
  | enum => "enum".toList

/-- The kind of type that a signature declares. -/
def declKind : Signature → DeclKind
  | abstractClass | finalClass | plainClass => .class_
  | interface => .interface
  | trait => .trait
  | enum => .enum

/-- The place of the keyword among all keywords in ascending order. -/
def rank : Signature → Nat
  | abstractClass => 0
  | plainClass => 1
  | enum => 2
  | finalClass => 3
  | interface => 4
  | trait => 5

/-- The signature of a text, if it starts with one of the openings. -/
def detect? (t : Text) : Option Signature :=
  all.find? fun s => s.opening.isPrefixOf t

theorem mem_all (s : Signature) : s ∈ all := by
  cases s <;> decide

/-- Ranks are in the order of the keywords. -/
theorem rank_lt_rank_iff (s r : Signature) : s.rank < r.rank ↔ s.keyword < r.keyword := by
  cases s <;> cases r <;> decide

/-- The keyword tells the signature. -/
theorem keyword_injective {s r : Signature} (h : s.keyword = r.keyword) : s = r := by
  cases s <;> cases r <;> first | rfl | (revert h; decide)

end Signature

end DeclSurvey
