import DeclSurvey.Text.Basic

/-! # Physical lines

A line ends in a newline, with or without a carriage return before it; the last line may go
without.  A newline at the very end of a text starts no further line. -/

namespace DeclSurvey

namespace Text

/-- Drops the carriage return that a line read backwards starts with. -/
def dropReturn : Text → Text
  | '\r' :: t => t
  | t => t

/-- The lines of a text, where `read` holds what is already read of the first one, backwards. -/
def linesFrom (read : Text) : Text → List Text
  | [] => if read.isEmpty then [] else [read.reverse]
  | c :: t =>
    if c = '\n' then (dropReturn read).reverse :: linesFrom [] t
    else linesFrom (c :: read) t

/-- The physical lines of a text, without their ends. -/
def lines (t : Text) : List Text :=
  linesFrom [] t

@[simp] theorem lines_nil : lines [] = [] := rfl

end Text

end DeclSurvey
