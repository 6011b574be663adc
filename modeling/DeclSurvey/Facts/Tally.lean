import DeclSurvey.Source.Line

/-! # Tally of declarations

How often each declaration keyword opens a line.  A file is *typical* when its tally holds one
keyword, once. -/

namespace DeclSurvey

/-- Signatures with their counts, in ascending order of the keywords and without zeros. -/
abbrev Tally := List (Signature × Nat)

namespace Tally

/-- Counts one more line with signature `s`. -/
def add (s : Signature) : Tally → Tally
  | [] => [(s, 1)]
  | (r, n) :: rest =>
    if s = r then (r, n + 1) :: rest
    else if s.rank < r.rank then (s, 1) :: (r, n) :: rest
    else (r, n) :: add s rest

/-- Counts a line, if it opens a declaration. -/
def addLine (tally : Tally) (l : Line) : Tally :=
  match l.kind with
  | .declaration s => add s tally
  | _ => tally

/-- The tally of classified lines. -/
def ofLines (ls : List Line) : Tally :=
  ls.foldl addLine []

/-- The count of a signature. -/
def count (s : Signature) (tally : Tally) : Nat :=
  (tally.lookup s).getD 0

/-- More than one keyword, a keyword that repeats, or none at all. -/
def isAtypical (tally : Tally) : Bool :=
  tally.isEmpty || tally.length > 1 || tally.any (·.2 > 1)

@[simp] theorem isAtypical_nil : isAtypical [] = true := rfl

/-- The tally in braces, keywords in quotes: the form of the log. -/
def bracedText (tally : Tally) : Text :=
  "\x7b".toList ++
    Text.joinWith ", ".toList
      (tally.map fun (s, n) => '"' :: s.keyword ++ "\": ".toList ++ Text.ofNat n) ++
    "\x7d".toList

/-- The tally as `keyword=count` items. -/
def itemsText (tally : Tally) : Text :=
  Text.joinWith ", ".toList (tally.map fun (s, n) => s.keyword ++ '=' :: Text.ofNat n)

end Tally

end DeclSurvey
