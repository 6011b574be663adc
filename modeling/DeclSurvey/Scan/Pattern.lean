import DeclSurvey.Text.Basic
import DeclSurvey.Text.Rests

/-! # Exclusion patterns

A pattern is matched against the whole text of a path.

* `?` stands for any character and `*` for any text, slashes included;
* two stars stand for any directories: they make up a whole component of the pattern;
* brackets list characters and ranges of characters, or exclude them after `!`.

`Pattern.parse?` reads a pattern, `Pattern.accepts` matches one.  Matching keeps the rests of the
text that the tokens read so far can leave; the text is accepted if one of them is empty. -/

namespace DeclSurvey

namespace Pattern

/-- An item between brackets. -/
structure Range where
  /-- The least character. -/
  low : Char
  /-- The greatest character. -/
  high : Char
  deriving DecidableEq, Repr

/-- Whether a character is in a range. -/
def Range.holds (r : Range) (c : Char) : Bool :=
  r.low.toNat ≤ c.toNat && c.toNat ≤ r.high.toNat

/-- A piece of a pattern. -/
inductive Token where
  /-- One given character. -/
  | char (c : Char)
  /-- Any one character. -/
  | anyChar
  /-- Any text. -/
  | anyText
  /-- Any text up to and including a slash, or none, or all. -/
  | anyDirectories
  /-- A character in one of the ranges, or in none of them. -/
  | oneOf (negated : Bool) (ranges : List Range)
  deriving DecidableEq, Repr

end Pattern

/-- A pattern is a list of tokens. -/
abbrev Pattern := List Pattern.Token

namespace Pattern

/-! ### Reading patterns -/

/-- The ranges that the text between brackets lists. -/
def parseRanges : Text → List Range
  | a :: '-' :: b :: t => ⟨a, b⟩ :: parseRanges t
  | a :: t => ⟨a, a⟩ :: parseRanges t
  | [] => []

/-- What a list holds up to the bracket that closes it.  The first character belongs to the list
whatever it is. -/
def classContent? : Text → Option Text
  | [] => none
  | c :: t => if t.contains ']' then some (c :: Text.beforeChar ']' t) else none

/-- Reads the pattern that follows the character `before`, when `skip` characters of a list are
passed over. -/
def parseFrom (before : Option Char) : Nat → Text → Option Pattern
  | _, [] => some []
  | skip + 1, _ :: t => parseFrom before skip t
  | 0, '*' :: '*' :: '*' :: _ => none
  | 0, '*' :: '*' :: '/' :: t =>
    -- Two stars make up a component only behind a slash or at the start.
    if before.all (· == '/') then (parseFrom (some '/') 0 t).map (.anyDirectories :: ·) else none
  | 0, ['*', '*'] => if before.all (· == '/') then some [.anyDirectories] else none
  | 0, '*' :: '*' :: _ :: _ => none
  | 0, '*' :: t => (parseFrom (some '*') 0 t).map (.anyText :: ·)
  | 0, '?' :: t => (parseFrom (some '?') 0 t).map (.anyChar :: ·)
  | 0, '[' :: '!' :: t => do
    let content ← classContent? t
    let rest ← parseFrom (some ']') (content.length + 1) t
    return .oneOf true (parseRanges content) :: rest
  | 0, '[' :: t => do
    let content ← classContent? t
    let rest ← parseFrom (some ']') (content.length + 1) t
    return .oneOf false (parseRanges content) :: rest
  | 0, c :: t => (parseFrom (some c) 0 t).map (.char c :: ·)

/-- Reads a pattern; `none` if it is malformed. -/
def parse? (t : Text) : Option Pattern :=
  parseFrom none 0 t

/-! ### Matching -/

/-- What a token can leave of a text. -/
def Token.rests : Token → Text → List Text
  | char c, t => Rests.afterOne (· == c) t
  | anyChar, t => Rests.afterOne (fun _ => true) t
  | anyText, t => Rests.suffixes t
  | anyDirectories, t => t :: [] :: Rests.afterEach (· == '/') t
  | oneOf negated ranges, t => Rests.afterOne (fun c => ranges.any (·.holds c) != negated) t

/-- What a pattern can leave of one of the given texts. -/
def rests (pattern : Pattern) (texts : List Text) : List Text :=
  pattern.foldl (fun ts token => (ts.flatMap token.rests).eraseDups) texts

/-- Whether a pattern matches the whole of a text. -/
def accepts (pattern : Pattern) (t : Text) : Bool :=
  (rests pattern [t]).contains []

end Pattern

end DeclSurvey
